import Rehearsal.Json.Value
/-!
# Writing documents

* `Value.compact`: no space between tokens. **No line break** occurs in it, since strings are
  quoted and everything else is made of printable characters.
* `Value.pretty`: two spaces of indentation per level, one member or item to a line; an empty
  array or object stays closed.
-/

namespace Rehearsal.Json

/-- Texts with a separator between neighbours. -/
def joinWith (separator : String) : List String → String
  | [] => ""
  | [s] => s
  | s :: rest => s ++ separator ++ joinWith separator rest

/-- Truth values by their names. -/
def boolText (b : Bool) : String := if b then "true" else "false"

mutual

/-- The text of a value without any space. -/
def Value.compact : Value → String
  | .null => "null"
  | .bool b => boolText b
  | .num n => n.text
  | .str s => Text.quote s
  | .arr items => "[" ++ joinWith "," (itemTexts items) ++ "]"
  | .obj members => "\x7b" ++ joinWith "," (memberTexts members) ++ "\x7d"

/-- The texts of all items. -/
def itemTexts : List Value → List String
  | [] => []
  | v :: rest => v.compact :: itemTexts rest

/-- The texts of all members, each with its name. -/
def memberTexts : List (String × Value) → List String
  | [] => []
  | (name, v) :: rest => (Text.quote name ++ ":" ++ v.compact) :: memberTexts rest

end

/-- The indentation of a level. -/
def indentation (level : Nat) : String := String.ofList (List.replicate (2 * level) ' ')

/-- A bracketed list with each entry on a line of its own. -/
def bracketLines (opening closing : String) (level : Nat) (entries : List String) : String :=
  if entries.isEmpty then opening ++ closing
  else
    opening ++ "\n" ++ indentation (level + 1)
      ++ joinWith (",\n" ++ indentation (level + 1)) entries
      ++ "\n" ++ indentation level ++ closing

mutual

/-- The indented text of a value at a level. -/
def Value.prettyAt (level : Nat) : Value → String
  | .null => "null"
  | .bool b => boolText b
  | .num n => n.text
  | .str s => Text.quote s
  | .arr items => bracketLines "[" "]" level (prettyItems (level + 1) items)
  | .obj members => bracketLines "\x7b" "\x7d" level (prettyMembers (level + 1) members)

/-- The indented texts of all items. -/
def prettyItems (level : Nat) : List Value → List String
  | [] => []
  | v :: rest => v.prettyAt level :: prettyItems level rest

/-- The indented texts of all members. -/
def prettyMembers (level : Nat) : List (String × Value) → List String
  | [] => []
  | (name, v) :: rest =>
    (Text.quote name ++ ": " ++ v.prettyAt level) :: prettyMembers level rest

end

/-- The indented text of a value. -/
def Value.pretty (v : Value) : String := v.prettyAt 0

end Rehearsal.Json
