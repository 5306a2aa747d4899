import Rehearsal.Json.Parser
/-!
# Typed reading

A `Reader` takes a node to a value of some type, or refuses it. It is told how many arrays and
objects may still be opened, and refuses a node that would open one more.

* `Entries`: the fields of a record. A record is written as an object, whose members may
  come in any order, or as an array, whose items come in the order of the fields. **A field
  that occurs twice is refused**, a member of another name is passed over.
* `Entries.required`, `.nullable`, `.defaulted`: what a missing field means. A nullable field
  may be left out of an object, and of an array only if it has a default as well.
* `enumerated`: one of a closed set of names.
-/

namespace Rehearsal.Json

/-- Reads a node, with room for so many nested arrays and objects. -/
abbrev Reader (α : Type) := Nat → Node → Option α

namespace Reader

def string : Reader String
  | _, .str s => s
  | _, _ => none

def bool : Reader Bool
  | _, .bool b => some b
  | _, _ => none

/-- An untyped value. -/
def value : Reader Value := fun room n => n.value? room

/-- An integer between two bounds. -/
def integer (low high : Int) : Reader Int
  | _, .num (some (.int n)) => if low ≤ n && n ≤ high then some n else none
  | _, _ => none

/-- A natural number of 32 bits. -/
def word32 : Reader Nat := fun room n => (integer 0 0xFFFFFFFF room n).map Int.toNat

/-- A signed integer of 64 bits. -/
def int64 : Reader Int := integer (-0x8000000000000000) 0x7FFFFFFFFFFFFFFF

/-- Any number, as a binary64. -/
def real : Reader Binary64
  | _, .num (some n) => some n.toBinary64
  | _, _ => none

/-- Null, or something that is there. -/
def nullable {α : Type} (read : Reader α) : Reader (Option α)
  | _, .null => some none
  | room, n => (read room n).map some

/-- All items, in order. -/
def items {α : Type} (read : Reader α) (room : Nat) : List Node → Option (List α)
  | [] => some []
  | n :: rest => do
    let a ← read room n
    let as ← items read room rest
    return a :: as

/-- An array of things. -/
def list {α : Type} (read : Reader α) : Reader (List α)
  | room + 1, .arr ns => items read room ns
  | _, _ => none

/-- All members with their names, in order. -/
def members {α : Type} (read : Reader α) (room : Nat) :
    List (Option String × Node) → Option (List (String × α))
  | [] => some []
  | (name, n) :: rest => do
    let name ← name
    let a ← read room n
    let as ← members read room rest
    return (name, a) :: as

/-- An object as its members, in order and with repetitions. -/
def entries {α : Type} (read : Reader α) : Reader (List (String × α))
  | room + 1, .obj ms => members read room ms
  | _, _ => none

/-- An object as a collection sorted by name, where the last member of a name wins. -/
def sorted {α : Type} (read : Reader α) : Reader (List (String × α)) := fun room n =>
  (entries read room n).map sortMembers

/-- An object of untyped values. -/
def bag : Reader Bag := sorted value

/-- A name from a closed set: the string itself, or an object with that one member and
nothing in it. -/
def enumerated {α : Type} (find : String → Option α) : Reader α
  | _, .str (some s) => find s
  | _ + 1, .obj [(some s, .null)] => find s
  | _, _ => none

end Reader

/-- The fields of a record as far as they are present. -/
structure Entries where
  /-- Written as an array. -/
  positional : Bool
  /-- Nesting that is left inside the record. -/
  room : Nat
  fields : List (String × Node)

namespace Entries

/-- The members whose names are fields; a repeated one is refused, and so is a name that
stands for no text. -/
def select (names : List String) :
    List (Option String × Node) → Option (List (String × Node))
  | [] => some []
  | (name, n) :: rest => do
    let name ← name
    let found ← select names rest
    if names.contains name then
      if found.any (fun f => f.1 == name) then none else return (name, n) :: found
    else return found

/-- The record of a node, for fields of these names in this order. -/
def read (names : List String) : Reader Entries
  | room + 1, .obj ms => (select names ms).map fun fs => ⟨false, room, fs⟩
  | room + 1, .arr ns =>
    if ns.length ≤ names.length then some ⟨true, room, names.zip ns⟩ else none
  | _, _ => none

/-- A field that must be there. -/
def required {α : Type} (es : Entries) (name : String) (read : Reader α) : Option α := do
  let n ← member? name es.fields
  read es.room n

/-- A field with a value for when it is left out. -/
def defaulted {α : Type} (es : Entries) (name : String) (default : α) (read : Reader α) :
    Option α :=
  match member? name es.fields with
  | some n => read es.room n
  | none => some default

/-- A field that may be null, or left out of an object. -/
def nullable {α : Type} (es : Entries) (name : String) (read : Reader α) :
    Option (Option α) :=
  match member? name es.fields with
  | some n => Reader.nullable read es.room n
  | none => if es.positional then none else some none

/-- A field that may be null or left out. -/
def optional {α : Type} (es : Entries) (name : String) (read : Reader α) :
    Option (Option α) :=
  es.defaulted name none (Reader.nullable read)

end Entries

/-- A text read as something typed. -/
def decode {α : Type} (read : Reader α) (s : String) : Option α := do
  let n ← parse s
  read maxDepth n

/-- An untyped value read as something typed. -/
def Value.decode {α : Type} (read : Reader α) (v : Value) : Option α := read maxDepth v.toNode

/-! ## Writing records

A record is written as an object with its fields in a fixed order; a field may be left out. -/

/-- A document in which members keep the order they are given in. -/
abbrev Field := String × Option Value

/-- The members that are present. -/
def present : List Field → List (String × Value)
  | [] => []
  | (name, some v) :: rest => (name, v) :: present rest
  | (_, none) :: rest => present rest

/-- A record as an object whose members keep their order. -/
def record (fields : List Field) : Value := .obj (present fields)

/-- A value that is there or null. -/
def orNull {α : Type} (write : α → Value) : Option α → Value
  | some a => write a
  | none => .null

end Rehearsal.Json
