import Rehearsal.Json.Decode
import Rehearsal.Text.Blank
/-!
# Points in time

A point in time is a whole second of universal time and the nanoseconds that have passed since.
A leap second is the second before it, prolonged: its nanoseconds go on past a thousand
million. The calendar is the Gregorian one, extended to all years.

* `Instant.text`: date and time in universal time, with 0, 3, 6 or 9 digits of a second,
  **the fewest that are exact**.
* `Instant.parse?`: the form it writes, and forms near it: any offset, a space or a small
  `t` before the time, blanks around the parts, digits past the ninth.
* `Instant.millisecondsTo`: the time between two instants, cut off to milliseconds.
-/

namespace Rehearsal

/-- A second since the beginning of 1970 and a fraction of it. -/
structure Instant where
  second : Int
  nanos : Nat
deriving DecidableEq, Repr, Inhabited

namespace Instant

def nanosPerSecond : Nat := 1000000000

def secondsPerDay : Nat := 86400

/-! ## Calendar -/

def isLeapYear (y : Int) : Bool := (y % 4 == 0 && y % 100 != 0) || y % 400 == 0

def daysInMonth (y : Int) (m : Nat) : Nat :=
  if m = 2 then (if isLeapYear y then 29 else 28)
  else if m = 4 || m = 6 || m = 9 || m = 11 then 30
  else 31

/-- Days from the beginning of 1970 to a date. Years are counted from March, so that the
leap day is the last of its year. -/
def dayNumber (y : Int) (m d : Nat) : Int :=
  let y := if m ≤ 2 then y - 1 else y
  let era := y / 400
  let yearOfEra := y - era * 400
  let monthFromMarch : Int := ((m : Int) + 9) % 12
  let dayOfYear : Int := (153 * monthFromMarch + 2) / 5 + d - 1
  let dayOfEra := yearOfEra * 365 + yearOfEra / 4 - yearOfEra / 100 + dayOfYear
  era * 146097 + dayOfEra - 719468

/-- The date of a day: year, month and day of the month. -/
def dateOf (day : Int) : Int × Nat × Nat :=
  let z := day + 719468
  let era := z / 146097
  let dayOfEra := z - era * 146097
  let yearOfEra :=
    (dayOfEra - dayOfEra / 1460 + dayOfEra / 36524 - dayOfEra / 146096) / 365
  let dayOfYear := dayOfEra - (365 * yearOfEra + yearOfEra / 4 - yearOfEra / 100)
  let mp := (5 * dayOfYear + 2) / 153
  let d := dayOfYear - (153 * mp + 2) / 5 + 1
  let m := if mp < 10 then mp + 3 else mp - 9
  let y := yearOfEra + era * 400
  (if m ≤ 2 then y + 1 else y, m.toNat, d.toNat)

/-- The years of the calendar in use. -/
def minYear : Int := -262143

def maxYear : Int := 262142

/-! ## Writing -/

/-- Decimal digits, so many at least. -/
def padded (width n : Nat) : String :=
  let ds := Nat.toDigits 10 n
  String.ofList (List.replicate (width - ds.length) '0' ++ ds)

/-- Four digits; more years than that carry a sign. -/
def yearText (y : Int) : String :=
  if 0 ≤ y && y ≤ 9999 then padded 4 y.natAbs
  else (if y < 0 then "-" else "+") ++ padded 4 y.natAbs

/-- The fraction of a second with the fewest of 0, 3, 6 and 9 digits. -/
def fractionText (nanos : Nat) : String :=
  if nanos = 0 then ""
  else if nanos % 1000000 = 0 then "." ++ padded 3 (nanos / 1000000)
  else if nanos % 1000 = 0 then "." ++ padded 6 (nanos / 1000)
  else "." ++ padded 9 nanos

/-- The written form in universal time. -/
def text (t : Instant) : String :=
  let day := t.second / (secondsPerDay : Int)
  let inDay := (t.second % (secondsPerDay : Int)).toNat
  let leap := t.nanos / nanosPerSecond
  let (y, m, d) := dateOf day
  yearText y ++ "-" ++ padded 2 m ++ "-" ++ padded 2 d ++ "T"
    ++ padded 2 (inDay / 3600) ++ ":" ++ padded 2 (inDay / 60 % 60) ++ ":"
    ++ padded 2 (inDay % 60 + leap) ++ fractionText (t.nanos % nanosPerSecond) ++ "Z"

/-! ## Reading -/

/-- A text that is read from the front. -/
abbrev Scan (α : Type) := List Char → Option (α × List Char)

/-- Decimal digits at the front, at most so many. -/
def takeDigits : Nat → Nat → List Char → Nat × List Char
  | 0, n, cs => (n, cs)
  | _ + 1, n, [] => (n, [])
  | width + 1, n, c :: cs =>
    if c.isDigit then takeDigits width (n * 10 + (c.toNat - 48)) cs else (n, c :: cs)

/-- A number of at least one digit, blanks before it allowed. -/
def number (width : Nat) : Scan Nat := fun cs =>
  match Text.trimLeft cs with
  | c :: rest => if c.isDigit then some (takeDigits width 0 (c :: rest)) else none
  | [] => none

/-- A year has four digits at most, unless it has a sign. -/
def year : Scan Int := fun cs =>
  match Text.trimLeft cs with
  | '-' :: rest => signed (-1) rest
  | '+' :: rest => signed 1 rest
  | cs => (number 4 cs).map fun (n, rest) => ((n : Int), rest)
where
  signed (sign : Int) (cs : List Char) : Option (Int × List Char) :=
    match cs with
    | c :: _ =>
      if c.isDigit then
        let (n, rest) := takeDigits cs.length 0 cs
        some (sign * n, rest)
      else none
    | [] => none

/-- A mark between two parts, blanks before it allowed. -/
def mark (m : Char) : Scan Unit := fun cs =>
  match Text.trimLeft cs with
  | c :: rest => if c = m then some ((), rest) else none
  | [] => none

/-- The fraction of a second in nanoseconds; digits past the ninth are dropped. -/
def fraction : Scan Nat
  | '.' :: cs =>
    let ds := cs.takeWhile Char.isDigit
    if ds.isEmpty then none
    else
      let used := ds.take 9
      let (n, _) := takeDigits 9 0 used
      some (n * Nat.pow 10 (9 - used.length), cs.drop ds.length)
  | cs => some (0, cs)

/-- Two digits, the first one below a limit. -/
def twoDigits (limit : Char) : Scan Nat
  | a :: b :: rest =>
    if a.isDigit && b.isDigit && a < limit then
      some ((a.toNat - 48) * 10 + (b.toNat - 48), rest)
    else none
  | _ => none

/-- The letters that name universal time. -/
def isUniversal (cs : List Char) : Bool := (cs.take 3).map Char.toUpper == ['U', 'T', 'C']

/-- The minus sign of typography. -/
def minusSign : Char := Char.ofNat 0x2212

/-- An offset in seconds. -/
def offset : Scan Int := fun cs =>
  match Text.trimLeft cs with
  | [] => none
  | c :: rest =>
    if isUniversal (c :: rest) then some (0, rest.drop 2)
    else if c = 'Z' || c = 'z' then some (0, rest)
    else if c = '+' then (amount rest).map fun (n, r) => ((n : Int), r)
    else if c = '-' || c = minusSign then (amount rest).map fun (n, r) => (-(n : Int), r)
    else none
where
  amount (cs : List Char) : Option (Nat × List Char) := do
    let (h, cs) ← twoDigits ':' cs
    let cs := cs.dropWhile fun c => c == ':' || Text.isBlank c
    let (m, cs) ← twoDigits '6' cs
    return (h * 3600 + m * 60, cs)

/-- Reads a date and a time with an offset. -/
def parseChars? (cs : List Char) : Option Instant := do
  let (y, cs) ← year cs
  let (_, cs) ← mark '-' cs
  let (m, cs) ← number 2 cs
  let (_, cs) ← mark '-' cs
  let (d, cs) ← number 2 cs
  let cs ← match cs with
    | c :: rest => if c = 'T' || c = 't' || c = ' ' then some rest else none
    | [] => none
  let (h, cs) ← number 2 cs
  let (_, cs) ← mark ':' cs
  let (min, cs) ← number 2 cs
  let (_, cs) ← mark ':' cs
  let (s, cs) ← number 2 cs
  let (nanos, cs) ← fraction cs
  let (off, cs) ← offset cs
  let valid := minYear ≤ y && y ≤ maxYear && 1 ≤ m && m ≤ 12 && 1 ≤ d && d ≤ daysInMonth y m
    && h < 24 && min < 60 && s ≤ 60 && off.natAbs < secondsPerDay && (Text.trimLeft cs).isEmpty
  if !valid then none
  else
    let leap := s / 60
    let second : Int :=
      dayNumber y m d * secondsPerDay + h * 3600 + min * 60 + (s - leap : Nat) - off
    let (uy, _, _) := dateOf (second / (secondsPerDay : Int))
    if minYear ≤ uy && uy ≤ maxYear then some ⟨second, nanos + leap * nanosPerSecond⟩ else none

/-- Reads a date and a time with an offset. -/
def parse? (s : String) : Option Instant := parseChars? s.toList

/-- A point in time in a document. -/
def reader : Json.Reader Instant := fun room n => do
  let s ← Json.Reader.string room n
  parse? s

def toValue (t : Instant) : Json.Value := .str t.text

/-! ## Order and difference -/

/-- Earlier, or at the same time. -/
def le (a b : Instant) : Bool :=
  a.second < b.second || (a.second == b.second && a.nanos ≤ b.nanos)

/-- Nanoseconds from one instant to another. A leap second that lies between them, by the
times of day, counts as a second of its own. -/
def nanosTo (a b : Instant) : Int :=
  let dayA := a.second / (secondsPerDay : Int)
  let dayB := b.second / (secondsPerDay : Int)
  let inA := a.second % (secondsPerDay : Int)
  let inB := b.second % (secondsPerDay : Int)
  let leap : Int :=
    if inB > inA && a.nanos ≥ nanosPerSecond then 1
    else if inB < inA && b.nanos ≥ nanosPerSecond then -1
    else 0
  ((dayB - dayA) * secondsPerDay + (inB - inA) + leap) * nanosPerSecond
    + ((b.nanos : Int) - a.nanos)

/-- Whole milliseconds from one instant to another, cut off toward zero. -/
def millisecondsTo (a b : Instant) : Int := Int.tdiv (a.nanosTo b) 1000000

end Instant

end Rehearsal
