import Rehearsal.Number.Shortest
/-!
# Numbers of a document

A document's number is an integer as long as it is written as one and fits 64 bits, signed or
unsigned; every other number is a binary64.

* `Numeral`: the parts of a numeral, as written.
* `Numeral.value?`: the number. Digits are gathered while they fit 64 bits, the rest only
  moves the decimal exponent; the product with the power of ten is rounded, so a long
  numeral may miss the nearest number by one place. `none` for a number too large to hold.
* `Number.text`: integers in decimal, others with the fewest digits that read back,
  positionally for decimal exponents from -5 to 15 and with an explicit exponent beyond.
-/

namespace Rehearsal.Json

/-- A number of a document. -/
inductive Number where
  | int (n : Int)
  | real (x : Binary64)
deriving DecidableEq, Repr, Inhabited

/-- A numeral: sign, digits before and after the point, and the exponent with its sign. -/
structure Numeral where
  negative : Bool
  whole : List Nat
  fraction : List Nat
  exponent : Option (Bool × List Nat)

namespace Numeral

def maxWord : Nat := 0xFFFFFFFFFFFFFFFF

/-- The digits that fit a word of 64 bits, and those that do not. -/
def gather (acc : Nat) : List Nat → Nat × List Nat
  | [] => (acc, [])
  | d :: ds => if acc * 10 + d ≤ maxWord then gather (acc * 10 + d) ds else (acc, d :: ds)

/-- The largest power of ten in reach of one multiplication. -/
def maxPower : Nat := 308

/-- A power of ten, rounded. -/
def powerOfTen (k : Nat) : Binary64 := Binary64.ofNat (Nat.pow 10 k)

/-- A number times a power of ten. Small exponents are reached by repeated division, each
one rounded. -/
def scaleFrom : Nat → Binary64 → Int → Option Binary64
  | 0, x, _ => some x
  | steps + 1, x, e =>
    if e.natAbs ≤ maxPower then
      if 0 ≤ e then
        let y := x.mul (powerOfTen e.natAbs)
        if y.isInfinite then none else some y
      else some (x.div (powerOfTen e.natAbs))
    else if x.isZero then some x
    else if 0 ≤ e then none
    else scaleFrom steps (x.div (powerOfTen maxPower)) (e + maxPower)

def negateIf (negative : Bool) (x : Binary64) : Binary64 :=
  if negative then ⟨x.bits ||| 0x8000000000000000⟩ else x

/-- The natural number of decimal digits. -/
def ofDigits (ds : List Nat) : Nat := ds.foldl (fun n d => n * 10 + d) 0

/-- The largest exponent that is taken as it stands. -/
def maxExponent : Nat := 0x7FFFFFFF

/-- The value of significant digits with a decimal exponent and a written exponent. An
exponent out of reach makes a number zero or too large. -/
def realValue? (negative : Bool) (significand : Nat) (shift : Int) :
    Option (Bool × List Nat) → Option Binary64
  | none => finish shift
  | some (down, digits) =>
    let e := ofDigits digits
    if maxExponent < e then
      if significand ≠ 0 && !down then none else some (negateIf negative (Binary64.ofNat 0))
    else finish (if down then shift - e else shift + e)
where
  finish (e : Int) : Option Binary64 :=
    (scaleFrom (e.natAbs / maxPower + 1) (Binary64.ofNat significand) e).map (negateIf negative)

/-- The number that a numeral stands for. -/
def value? (n : Numeral) : Option Number :=
  let (significand, beyond) := gather 0 n.whole
  if n.fraction.isEmpty && n.exponent.isNone && beyond.isEmpty then
    if !n.negative then some (.int significand)
    else if 0 < significand && significand ≤ 0x8000000000000000 then
      some (.int (-(significand : Int)))
    else some (.real (negateIf true (Binary64.ofNat significand)))
  else
    let (significand, ignored) := gather significand n.fraction
    let shift : Int := (beyond.length : Int) - (n.fraction.length - ignored.length : Nat)
    (realValue? n.negative significand shift n.exponent).map .real

end Numeral

namespace Number

/-- The digits of a natural number. -/
def digits (n : Nat) : String := String.ofList (Nat.toDigits 10 n)

def zeros (n : Nat) : String := String.ofList (List.replicate n '0')

/-- Digits with the exponent of the first of them. -/
def layout (ds : List Char) (lead : Int) : String :=
  if -5 ≤ lead && lead ≤ 15 then
    if lead < 0 then "0." ++ zeros (lead.natAbs - 1) ++ String.ofList ds
    else
      let k := lead.natAbs + 1
      if ds.length ≤ k then String.ofList ds ++ zeros (k - ds.length) ++ ".0"
      else String.ofList (ds.take k) ++ "." ++ String.ofList (ds.drop k)
  else
    let tail := if ds.length ≤ 1 then "" else "." ++ String.ofList (ds.drop 1)
    let sign := if lead < 0 then "-" else "+"
    String.ofList (ds.take 1) ++ tail ++ "e" ++ sign ++ digits lead.natAbs

/-- The text of a finite binary64. -/
def realText (x : Binary64) : String :=
  let body :=
    if x.isZero then "0.0"
    else
      let (c, e) := Shortest.shortest x
      let ds := Nat.toDigits 10 c
      layout ds (e + (ds.length : Int) - 1)
  if x.negative then "-" ++ body else body

/-- The text of an integer. -/
def intText (n : Int) : String :=
  if n < 0 then "-" ++ digits n.natAbs else digits n.natAbs

/-- The text of a number. -/
def text : Number → String
  | .int n => intText n
  | .real x => realText x

/-- The number as a binary64. -/
def toBinary64 : Number → Binary64
  | .int n => Binary64.ofInt n
  | .real x => x

end Number

end Rehearsal.Json
