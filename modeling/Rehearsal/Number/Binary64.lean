/-!
# Binary floating point, exactly

Numbers of the binary64 format as their 64 bits, with arithmetic in exact rationals and one
rounding at the end. Nothing here uses the machine's floating point, so every value can be
computed in a proof.

* `ofRatio`: the format's number **nearest** to a ratio of natural numbers; of two that are
  equally near, the one with the even mantissa.
* `mul`, `div`, `add`: the exact result, rounded by `ofRatio`.
* `roundToInt`: the nearest integer, a half going away from zero.
-/

namespace Rehearsal

/-- A number of the binary64 format. -/
structure Binary64 where
  bits : UInt64
deriving DecidableEq, Repr, Inhabited

namespace Binary64

/-- The value of the sign's bit, the highest of the 64. -/
def signBit : Nat := 0x8000000000000000

/-- The value of the exponent's lowest bit, and of the bit that stands in front of the
fraction without being written. -/
def hiddenBit : Nat := 0x10000000000000

/-- The sign bit. -/
def negative (x : Binary64) : Bool := x.bits.toNat / signBit == 1

/-- The eleven bits of the exponent. -/
def exponentField (x : Binary64) : Nat := x.bits.toNat / hiddenBit % 2048

/-- The lowest 52 bits. -/
def fractionField (x : Binary64) : Nat := x.bits.toNat % hiddenBit

/-- A finite number is `mantissa * 2 ^ exponent`, but for its sign. -/
def mantissa (x : Binary64) : Nat :=
  if x.exponentField = 0 then x.fractionField else hiddenBit + x.fractionField

/-- The power of two behind the mantissa. -/
def exponent (x : Binary64) : Int :=
  if x.exponentField = 0 then -1074 else (x.exponentField : Int) - 1075

def isInfinite (x : Binary64) : Bool := x.exponentField == 2047

def isZero (x : Binary64) : Bool := x.mantissa == 0

/-- The bits of a sign over the bits of a magnitude. -/
def withSign (negative : Bool) (magnitude : Nat) : Binary64 :=
  ⟨UInt64.ofNat (if negative then signBit + magnitude else magnitude)⟩

/-- A quotient rounded to the nearest natural number, ties to even. -/
def roundDivEven (num den : Nat) : Nat :=
  let q := num / den
  let r := num % den
  if 2 * r < den then q
  else if 2 * r > den then q + 1
  else if q % 2 = 0 then q else q + 1

/-- `num / den` divided by a power of two, as a ratio. -/
def scaled (num den : Nat) (e : Int) : Nat × Nat :=
  match e with
  | .ofNat k => (num, den * Nat.pow 2 k)
  | .negSucc k => (num * Nat.pow 2 (k + 1), den)

/-- The magnitude bits of infinity. -/
def infinityBits : Nat := 2047 * hiddenBit

/-- The number nearest to `num / den`. The exponent is the one that leaves a quotient of 53
bits, but never below the smallest of the format. -/
def ofRatio (negative : Bool) (num den : Nat) : Binary64 :=
  if num = 0 || den = 0 then withSign negative 0
  else
    let guess : Int := (Nat.log2 num : Int) - (Nat.log2 den : Int) - 52
    let (n, d) := scaled num den guess
    let e := if n / d < hiddenBit then guess - 1 else guess
    let e := max e (-1074)
    let (n, d) := scaled num den e
    let q := roundDivEven n d
    let magnitude := if q < hiddenBit then q else (e + 1075).toNat * hiddenBit + (q - hiddenBit)
    withSign negative (min magnitude infinityBits)

/-- A finite number as a ratio, but for its sign. -/
def magnitude (x : Binary64) : Nat × Nat :=
  match x.exponent with
  | .ofNat k => (x.mantissa * Nat.pow 2 k, 1)
  | .negSucc k => (x.mantissa, Nat.pow 2 (k + 1))

def ofNat (n : Nat) : Binary64 := ofRatio false n 1

def ofInt (n : Int) : Binary64 := ofRatio (n < 0) n.natAbs 1

def mul (x y : Binary64) : Binary64 :=
  let (a, b) := x.magnitude
  let (c, d) := y.magnitude
  ofRatio (x.negative != y.negative) (a * c) (b * d)

def div (x y : Binary64) : Binary64 :=
  let (a, b) := x.magnitude
  let (c, d) := y.magnitude
  ofRatio (x.negative != y.negative) (a * d) (b * c)

/-- The numerator with its sign. -/
def signed (x : Binary64) (n : Nat) : Int := if x.negative then -(n : Int) else n

def add (x y : Binary64) : Binary64 :=
  let (a, b) := x.magnitude
  let (c, d) := y.magnitude
  let total := x.signed (a * d) + y.signed (c * b)
  ofRatio (if total = 0 then x.negative && y.negative else total < 0) total.natAbs (b * d)

/-- The nearest integer, a half going away from zero. -/
def roundToInt (x : Binary64) : Int :=
  let (a, b) := x.magnitude
  x.signed ((2 * a + b) / (2 * b))

end Binary64

end Rehearsal
