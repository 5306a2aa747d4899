import Rehearsal.Number.Binary64
/-!
# The shortest decimal that reads back

A binary number stands for every real that rounds to it. Its decimal form is the one with
the **fewest digits** in that interval, and among those the nearest to the number itself.

* `Interval`: the number and the two ends of its interval, over a common denominator.
* `onGrid?`: the multiple of a power of ten that lies in the interval, if one does. Only the
  two neighbours of the number need a look: whenever a point of the grid lies in the
  interval, so does one of them.
* `shortest`: the digits and the decimal exponent, from the first grid with a hit.
-/

namespace Rehearsal.Shortest

/-- A positive number `value / den` with the ends of the interval that rounds to it. -/
structure Interval where
  low : Nat
  value : Nat
  high : Nat
  den : Nat
  /-- The ends belong to the interval. -/
  closed : Bool

/-- The interval of a mantissa and an exponent. Below a power of two the grid is twice as
fine, so the lower end is half as far away. -/
def Interval.of (mantissa : Nat) (exponent : Int) : Interval :=
  let below := if mantissa = Binary64.hiddenBit && exponent > -1074 then 1 else 2
  let closed := mantissa % 2 = 0
  match exponent - 2 with
  | .ofNat k =>
    let unit := Nat.pow 2 k
    ⟨(4 * mantissa - below) * unit, 4 * mantissa * unit, (4 * mantissa + 2) * unit, 1, closed⟩
  | .negSucc k =>
    ⟨4 * mantissa - below, 4 * mantissa, 4 * mantissa + 2, Nat.pow 2 (k + 1), closed⟩

/-- The interval divided by a power of ten. -/
def Interval.scale (i : Interval) (e : Int) : Interval :=
  match e with
  | .ofNat k => { i with den := i.den * Nat.pow 10 k }
  | .negSucc k =>
    { i with
      low := i.low * Nat.pow 10 (k + 1)
      value := i.value * Nat.pow 10 (k + 1)
      high := i.high * Nat.pow 10 (k + 1) }

/-- Whether a natural number lies in the interval. -/
def Interval.holds (i : Interval) (c : Nat) : Bool :=
  if i.closed then i.low ≤ c * i.den && c * i.den ≤ i.high
  else i.low < c * i.den && c * i.den < i.high

/-- The natural number of the interval that is nearest to the value; a tie goes to the
even one. -/
def onGrid? (i : Interval) : Option Nat :=
  let c := i.value / i.den
  let r := i.value % i.den
  let up := 2 * r > i.den || (2 * r = i.den && c % 2 = 1)
  match i.holds c, i.holds (c + 1) with
  | true, true => some (if up then c + 1 else c)
  | true, false => some c
  | false, true => some (c + 1)
  | false, false => none

/-- The number of decimal digits. -/
def digitCount (n : Nat) : Nat := (Nat.toDigits 10 n).length

/-- The exponent of the first digit of `num / den`. -/
def leadingExponent (num den : Nat) : Int :=
  if den ≤ num then (digitCount (num / den) : Int) - 1
  else
    let k := digitCount (den / num)
    if den ≤ num * Nat.pow 10 (k - 1) then 1 - (k : Int) else -(k : Int)

/-- Digits without the zeros at their end, and how many were dropped. -/
def dropZeros : Nat → Nat → Nat → Nat × Nat
  | 0, n, k => (n, k)
  | fuel + 1, n, k =>
    if n ≠ 0 && n % 10 = 0 then dropZeros fuel (n / 10) (k + 1) else (n, k)

/-- Tries one more digit each time. -/
def search (i : Interval) (lead : Int) : Nat → Nat → Option (Nat × Int)
  | 0, _ => none
  | fuel + 1, count =>
    let e := lead - (count : Int) + 1
    match onGrid? (i.scale e) with
    | some c => some (c, e)
    | none => search i lead fuel (count + 1)

/-- A positive finite number as `digits * 10 ^ e`, with as few digits as read back. -/
def shortest (x : Binary64) : Nat × Int :=
  let i := Interval.of x.mantissa x.exponent
  match search i (leadingExponent i.value i.den) 18 1 with
  | some (c, e) =>
    let (c, dropped) := dropZeros 20 c 0
    (c, e + (dropped : Int))
  | none => (0, 0)

end Rehearsal.Shortest
