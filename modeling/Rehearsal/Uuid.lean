import Rehearsal.Json.Decode
/-!
# Identifiers

A UUID is a number of 128 bits.

* `Uuid.text`: lower-case hexadecimal digits in groups of 8, 4, 4, 4 and 12.
* `Uuid.parse?`: digits of either case, without hyphens or in these groups; the grouped form
  also in braces or behind `urn:uuid:`.
-/

namespace Rehearsal

/-- An identifier of 128 bits. -/
structure Uuid where
  number : BitVec 128
deriving DecidableEq, Repr, Inhabited

namespace Uuid

/-- The identifiers in the order of their numbers, from 1 on. -/
def inOrder (n : Nat) : Uuid := ⟨BitVec.ofNat 128 (n + 1)⟩

/-- So many hexadecimal digits, the last ones of the number. -/
def hexDigits : Nat → Nat → List Char
  | 0, _ => []
  | count + 1, n => hexDigits count (n / 16) ++ [Text.hexDigit (n % 16)]

/-- The 32 digits. -/
def digits (u : Uuid) : List Char := hexDigits 32 u.number.toNat

/-- The five groups with hyphens between them. -/
def textChars (u : Uuid) : List Char :=
  let ds := u.digits
  ds.take 8 ++ '-' :: (ds.drop 8).take 4 ++ '-' :: (ds.drop 12).take 4
    ++ '-' :: (ds.drop 16).take 4 ++ '-' :: ds.drop 20

/-- The usual written form. -/
def text (u : Uuid) : String := String.ofList u.textChars

/-- Hexadecimal digits as a number. -/
def number? (acc : Nat) : List Char → Option Nat
  | [] => some acc
  | c :: rest => do
    let d ← Text.hexValue? c
    number? (acc * 16 + d) rest

/-- Exactly 32 digits. -/
def ofDigits? (cs : List Char) : Option Uuid :=
  if cs.length = 32 then (number? 0 cs).map fun n => ⟨BitVec.ofNat 128 n⟩ else none

/-- The grouped form without its hyphens, which must stand where they belong. -/
def ungrouped? (cs : List Char) : Option (List Char) :=
  let hyphen (i : Nat) : Bool := cs[i]? == some '-'
  if cs.length = 36 && hyphen 8 && hyphen 13 && hyphen 18 && hyphen 23 then
    some (cs.take 8 ++ (cs.drop 9).take 4 ++ (cs.drop 14).take 4 ++ (cs.drop 19).take 4
      ++ cs.drop 24)
  else none

/-- The scheme of the form that is a resource name. -/
def scheme : List Char := "urn:uuid:".toList

/-- The inside of braces, or what follows the scheme. -/
def unwrapped (cs : List Char) : List Char :=
  if cs.length = 38 && cs.head? == some '\x7b' && cs.getLast? == some '\x7d' then
    (cs.drop 1).take 36
  else if cs.length = 45 && cs.take 9 == scheme then cs.drop 9
  else cs

/-- Reads any of the four written forms. -/
def parseChars? (cs : List Char) : Option Uuid :=
  if cs.length = 32 then ofDigits? cs
  else do
    let ds ← ungrouped? (unwrapped cs)
    ofDigits? ds

/-- Reads any of the four written forms. -/
def parse? (s : String) : Option Uuid := parseChars? s.toList

/-- Identifiers are ordered as numbers. -/
def le (a b : Uuid) : Bool := a.number ≤ b.number

/-- An identifier in a document. -/
def reader : Json.Reader Uuid := fun room n => do
  let s ← Json.Reader.string room n
  parse? s

def toValue (u : Uuid) : Json.Value := .str u.text

end Uuid

end Rehearsal
