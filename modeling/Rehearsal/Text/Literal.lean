/-!
# Quoted literals

A double-quoted string literal, written so that JSON and TypeScript read the same text.

* `quote`: the quotation mark and the backslash get a backslash, the five control
  characters with a short form get that form, the other characters below U+0020 are
  written as a backslash, `u` and four lower-case hexadecimal digits, and all else stands
  for itself.
* `Literal.read`: reads one literal off the front of a text. A literal may be well formed
  and still stand for **no** text, when it holds an unpaired surrogate; the two outcomes
  are kept apart because a member that is skipped need only be well formed.
-/

namespace Rehearsal.Text

/-- The hexadecimal digit, in lower case. -/
def hexDigit (n : Nat) : Char :=
  if n < 10 then Char.ofNat (48 + n) else Char.ofNat (87 + n)

/-- How one character is written between quotation marks. -/
def escape (c : Char) : List Char :=
  if c = '"' then ['\\', '"']
  else if c = '\\' then ['\\', '\\']
  else if c.toNat = 8 then ['\\', 'b']
  else if c.toNat = 9 then ['\\', 't']
  else if c.toNat = 10 then ['\\', 'n']
  else if c.toNat = 12 then ['\\', 'f']
  else if c.toNat = 13 then ['\\', 'r']
  else if c.toNat < 32 then
    ['\\', 'u', '0', '0', hexDigit (c.toNat / 16), hexDigit (c.toNat % 16)]
  else [c]

/-- A text between quotation marks. -/
def quoteChars (cs : List Char) : List Char := '"' :: (cs.flatMap escape ++ ['"'])

/-- The literal that stands for a text. -/
def quote (s : String) : String := String.ofList (quoteChars s.toList)

/-- The value of a hexadecimal digit, in either case. -/
def hexValue? (c : Char) : Option Nat :=
  if c.isDigit then some (c.toNat - 48)
  else if 'a' ≤ c && c ≤ 'f' then some (c.toNat - 87)
  else if 'A' ≤ c && c ≤ 'F' then some (c.toNat - 55)
  else none

namespace Literal

/-- One unit of a literal: a character, or the number behind a `u` escape. -/
inductive Piece where
  | char (c : Char)
  | code (n : Nat)

/-- The character of an escape with a single letter. -/
def shortEscape? (c : Char) : Option Char :=
  if c = '"' || c = '\\' || c = '/' then some c
  else if c = 'b' then some (Char.ofNat 8)
  else if c = 'f' then some (Char.ofNat 12)
  else if c = 'n' then some '\n'
  else if c = 'r' then some '\r'
  else if c = 't' then some '\t'
  else none

/-- Four hexadecimal digits as a number. -/
def code? (a b c d : Char) : Option Nat := do
  let a ← hexValue? a
  let b ← hexValue? b
  let c ← hexValue? c
  let d ← hexValue? d
  return ((a * 16 + b) * 16 + c) * 16 + d

/-- The pieces up to the closing quotation mark, and what follows it. A raw control
character, an unknown escape and a missing end are errors. -/
def pieces : List Char → Option (List Piece × List Char)
  | [] => none
  | '"' :: rest => some ([], rest)
  | '\\' :: 'u' :: a :: b :: c :: d :: rest => do
    let n ← code? a b c d
    let (ps, tail) ← pieces rest
    return (.code n :: ps, tail)
  | '\\' :: e :: rest => do
    let c ← shortEscape? e
    let (ps, tail) ← pieces rest
    return (.char c :: ps, tail)
  | c :: rest =>
    if c = '\\' || c.toNat < 32 then none
    else do
      let (ps, tail) ← pieces rest
      return (.char c :: ps, tail)

/-- The text that pieces stand for: surrogates must come in pairs, high before low. -/
def text? : List Piece → Option (List Char)
  | [] => some []
  | .char c :: rest => (text? rest).map (c :: ·)
  | .code n :: rest =>
    if 0xDC00 ≤ n && n ≤ 0xDFFF then none
    else if 0xD800 ≤ n && n ≤ 0xDBFF then
      match rest with
      | .code m :: rest' =>
        if 0xDC00 ≤ m && m ≤ 0xDFFF then
          (text? rest').map
            (Char.ofNat (0x10000 + (n - 0xD800) * 0x400 + (m - 0xDC00)) :: ·)
        else none
      | _ => none
    else (text? rest).map (Char.ofNat n :: ·)

/-- Reads what follows an opening quotation mark: the text, if the literal stands for one,
and the rest. -/
def readBody (cs : List Char) : Option (Option (List Char) × List Char) := do
  let (ps, rest) ← pieces cs
  return (text? ps, rest)

/-- Reads one literal off the front. -/
def read : List Char → Option (List Char × List Char)
  | '"' :: cs => do
    let (text, rest) ← readBody cs
    return (← text, rest)
  | _ => none

end Literal

end Rehearsal.Text
