import Rehearsal.Json.Value
/-!
# Reading documents

A reader for strict JSON over the list of characters. Space, tab, line feed and carriage
return may stand between tokens; nothing may follow the document.

* `parse`: the document of a text, or `none` when the text is malformed.
* `Value.parse`: the same, as an untyped value.

Each function returns what it leaves unread; the depth of the recursion is bounded by the
length of the text, since a bracket that opens must close: two steps for each character
suffice.
-/

namespace Rehearsal.Json

/-- The characters between tokens. -/
def isSpace (c : Char) : Bool := c == ' ' || c == '\t' || c == '\n' || c == '\r'

def skipSpace (cs : List Char) : List Char := cs.dropWhile isSpace

/-- Drops a word from the front. -/
def expect? : List Char → List Char → Option (List Char)
  | [], cs => some cs
  | w :: ws, c :: cs => if w = c then expect? ws cs else none
  | _ :: _, [] => none

/-- The digits at the front. -/
def takeDigits (cs : List Char) : List Nat × List Char :=
  ((cs.takeWhile Char.isDigit).map fun c => c.toNat - 48, cs.dropWhile Char.isDigit)

namespace Numeral

/-- A point, if there is one, needs digits behind it. -/
def readFraction : List Char → Option (List Nat × List Char)
  | '.' :: cs =>
    let (ds, rest) := takeDigits cs
    if ds.isEmpty then none else some (ds, rest)
  | cs => some ([], cs)

/-- The digits of an exponent, with its sign. -/
def readExponentDigits (down : Bool) (cs : List Char) :
    Option (Option (Bool × List Nat) × List Char) :=
  let (ds, rest) := takeDigits cs
  if ds.isEmpty then none else some (some (down, ds), rest)

/-- An exponent, if there is one. -/
def readExponent : List Char → Option (Option (Bool × List Nat) × List Char)
  | [] => some (none, [])
  | e :: cs =>
    if e = 'e' || e = 'E' then
      match cs with
      | '+' :: cs => readExponentDigits false cs
      | '-' :: cs => readExponentDigits true cs
      | cs => readExponentDigits false cs
    else some (none, e :: cs)

/-- The digits before the point: a zero stands alone. -/
def readWhole (cs : List Char) : Option (List Nat × List Char) :=
  match takeDigits cs with
  | ([], _) => none
  | (0 :: _ :: _, _) => none
  | (ds, rest) => some (ds, rest)

/-- Reads a numeral without its sign. -/
def read (negative : Bool) (cs : List Char) : Option (Numeral × List Char) := do
  let (whole, cs) ← readWhole cs
  let (fraction, cs) ← readFraction cs
  let (exponent, cs) ← readExponent cs
  return (⟨negative, whole, fraction, exponent⟩, cs)

end Numeral

/-- A string behind its opening quotation mark. -/
def readString (cs : List Char) : Option (Option String × List Char) := do
  let (text, rest) ← Text.Literal.readBody cs
  return (text.map String.ofList, rest)

mutual

/-- Reads one document off the front, spaces included. -/
def readNode : Nat → List Char → Option (Node × List Char)
  | 0, _ => none
  | fuel + 1, cs =>
    match skipSpace cs with
    | '"' :: cs => do
      let (s, rest) ← readString cs
      return (.str s, rest)
    | '[' :: cs =>
      match skipSpace cs with
      | ']' :: rest => some (.arr [], rest)
      | cs => do
        let (items, rest) ← readItems fuel cs
        return (.arr items, rest)
    | '\x7b' :: cs =>
      match skipSpace cs with
      | '\x7d' :: rest => some (.obj [], rest)
      | cs => do
        let (members, rest) ← readMembers fuel cs
        return (.obj members, rest)
    | '-' :: cs => do
      let (n, rest) ← Numeral.read true cs
      return (.num n.value?, rest)
    | 'n' :: cs => do
      let rest ← expect? ['u', 'l', 'l'] cs
      return (.null, rest)
    | 't' :: cs => do
      let rest ← expect? ['r', 'u', 'e'] cs
      return (.bool true, rest)
    | 'f' :: cs => do
      let rest ← expect? ['a', 'l', 's', 'e'] cs
      return (.bool false, rest)
    | cs => do
      let (n, rest) ← Numeral.read false cs
      return (.num n.value?, rest)

/-- Reads the items of an array, of which there is at least one, and its end. -/
def readItems : Nat → List Char → Option (List Node × List Char)
  | 0, _ => none
  | fuel + 1, cs => do
    let (n, rest) ← readNode fuel cs
    match skipSpace rest with
    | ',' :: rest => do
      let (ns, rest) ← readItems fuel rest
      return (n :: ns, rest)
    | ']' :: rest => return ([n], rest)
    | _ => none

/-- Reads the members of an object, of which there is at least one, and its end. -/
def readMembers : Nat → List Char → Option (List (Option String × Node) × List Char)
  | 0, _ => none
  | fuel + 1, cs =>
    match skipSpace cs with
    | '"' :: cs => do
      let (name, rest) ← readString cs
      match skipSpace rest with
      | ':' :: rest => do
        let (n, rest) ← readNode fuel rest
        match skipSpace rest with
        | ',' :: rest => do
          let (ms, rest) ← readMembers fuel rest
          return ((name, n) :: ms, rest)
        | '\x7d' :: rest => return ([(name, n)], rest)
        | _ => none
      | _ => none
    | _ => none

end

/-- The document of a list of characters. -/
def parseChars (cs : List Char) : Option Node :=
  match readNode (2 * cs.length + 2) cs with
  | some (n, rest) => if (skipSpace rest).isEmpty then some n else none
  | none => none

/-- The document of a text. -/
def parse (s : String) : Option Node := parseChars s.toList

/-- The untyped value of a text. -/
def Value.parse (s : String) : Option Value := do
  let n ← Json.parse s
  n.value? maxDepth

end Rehearsal.Json
