/-!
# Bytes that should be UTF-8

A program's output need not be text.

* `Utf8.decode`: well-formed characters as they are, and **one replacement character for each
  longest run of bytes that begins a character without finishing it**.
* `Utf8.text?`: the text of bytes that are well formed throughout, and none of others.
-/

namespace Rehearsal.Text.Utf8

/-- A character that has begun: the bits so far, how many bytes are still owed, and between
which bounds the next one must be. -/
structure Begun where
  bits : Nat
  owed : Nat
  low : Nat
  high : Nat

/-- What a byte can be where a character begins. -/
inductive First where
  | whole (c : Char)
  | begins (b : Begun)
  | stray

/-- What stands for bytes that are no character. -/
def replacement : Char := '\uFFFD'

/-- The first byte of a character. The bounds on the second byte keep out encodings that are
too long, surrogates and numbers beyond the last character. -/
def first (n : Nat) : First :=
  if n < 0x80 then .whole (Char.ofNat n)
  else if n < 0xC2 then .stray
  else if n < 0xE0 then .begins ⟨n - 0xC0, 1, 0x80, 0xBF⟩
  else if n = 0xE0 then .begins ⟨0, 2, 0xA0, 0xBF⟩
  else if n = 0xED then .begins ⟨0xD, 2, 0x80, 0x9F⟩
  else if n < 0xF0 then .begins ⟨n - 0xE0, 2, 0x80, 0xBF⟩
  else if n = 0xF0 then .begins ⟨0, 3, 0x90, 0xBF⟩
  else if n < 0xF4 then .begins ⟨n - 0xF0, 3, 0x80, 0xBF⟩
  else if n = 0xF4 then .begins ⟨4, 3, 0x80, 0x8F⟩
  else .stray

/-- A character with one more byte. -/
def Begun.add (b : Begun) (n : Nat) : Begun := ⟨b.bits * 64 + (n - 0x80), b.owed - 1, 0x80, 0xBF⟩

/-- Reads bytes, in the middle of a character or not. -/
def decodeFrom : Option Begun → List UInt8 → List Char
  | none, [] => []
  | some _, [] => [replacement]
  | none, x :: rest =>
    match first x.toNat with
    | .whole c => c :: decodeFrom none rest
    | .begins b => decodeFrom (some b) rest
    | .stray => replacement :: decodeFrom none rest
  | some b, x :: rest =>
    if b.low ≤ x.toNat && x.toNat ≤ b.high then
      if b.owed ≤ 1 then Char.ofNat (b.add x.toNat).bits :: decodeFrom none rest
      else decodeFrom (some (b.add x.toNat)) rest
    else
      match first x.toNat with
      | .whole c => replacement :: c :: decodeFrom none rest
      | .begins b => replacement :: decodeFrom (some b) rest
      | .stray => replacement :: replacement :: decodeFrom none rest

/-- The text of bytes. -/
def decode (bytes : List UInt8) : String := String.ofList (decodeFrom none bytes)

/-- The bytes of a text. -/
def encode (s : String) : List UInt8 := s.toUTF8.toList

/-- The text that bytes are, if nothing in them is out of place. -/
def text? (bytes : List UInt8) : Option String := String.fromUTF8? bytes.toByteArray

end Rehearsal.Text.Utf8
