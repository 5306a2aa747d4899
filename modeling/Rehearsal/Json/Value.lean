import Rehearsal.Json.Number
import Rehearsal.Text.Literal
/-!
# Documents

Two views of a JSON document and the passage between them.

* `Node`: a document as it is written. Members keep their order and their repetitions, and a
  string that stands for no text or a number that is too large keeps its place as `none`: a
  reader that skips it never asks.
* `Value`: a value to compute with and to write. What is read has its members sorted by name,
  **each name once**; the last of several members with one name wins (`insertMember`). A record
  is written with its members in the order of its fields (`Value.sorted` sorts them).
* `Node.value?`: a node as a value, if all its parts have one and it is not nested too deep.
-/

namespace Rehearsal.Json

/-- A document as it is written. -/
inductive Node where
  | null
  | bool (b : Bool)
  | num (n : Option Number)
  | str (s : Option String)
  | arr (items : List Node)
  | obj (members : List (Option String × Node))
deriving Inhabited

/-- A value to compute with and to write. -/
inductive Value where
  | null
  | bool (b : Bool)
  | num (n : Number)
  | str (s : String)
  | arr (items : List Value)
  | obj (members : List (String × Value))
deriving Inhabited

/-- A named collection of untyped values, sorted by name. -/
abbrev Bag := List (String × Value)

/-- Puts a member in its place among sorted members; a member of that name is replaced. -/
def insertMember {α : Type} (name : String) (value : α) :
    List (String × α) → List (String × α)
  | [] => [(name, value)]
  | (k, v) :: rest =>
    if name < k then (name, value) :: (k, v) :: rest
    else if k = name then (name, value) :: rest
    else (k, v) :: insertMember name value rest

/-- The members sorted by name, the last of each name. -/
def sortMembers {α : Type} (members : List (String × α)) : List (String × α) :=
  members.foldl (fun acc m => insertMember m.1 m.2 acc) []

/-- The member of a name. -/
def member? {α : Type} (name : String) : List (String × α) → Option α
  | [] => none
  | (k, v) :: rest => if k = name then some v else member? name rest

/-- How many arrays and objects may be open at one time. -/
def maxDepth : Nat := 127

mutual

/-- The value of a node, within the given number of nested arrays and objects. -/
def Node.value? (room : Nat) : Node → Option Value
  | .null => some .null
  | .bool b => some (.bool b)
  | .num n => n.map .num
  | .str s => s.map .str
  | .arr items =>
    match room with
    | 0 => none
    | room + 1 => (itemValues? room items).map .arr
  | .obj members =>
    match room with
    | 0 => none
    | room + 1 => (memberValues? room members).map fun ms => .obj (sortMembers ms)

/-- The values of all items. -/
def itemValues? (room : Nat) : List Node → Option (List Value)
  | [] => some []
  | n :: rest => do
    let v ← n.value? room
    let vs ← itemValues? room rest
    return v :: vs

/-- The values of all members, in order. -/
def memberValues? (room : Nat) : List (Option String × Node) → Option (List (String × Value))
  | [] => some []
  | (name, n) :: rest => do
    let name ← name
    let v ← n.value? room
    let vs ← memberValues? room rest
    return (name, v) :: vs

end

mutual

/-- The same value with the members of every object sorted by name. -/
def Value.sorted : Value → Value
  | .arr items => .arr (sortedItems items)
  | .obj members => .obj (sortMembers (sortedMembers members))
  | v => v

/-- Items with sorted members. -/
def sortedItems : List Value → List Value
  | [] => []
  | v :: rest => v.sorted :: sortedItems rest

/-- Members whose values have sorted members. -/
def sortedMembers : List (String × Value) → List (String × Value)
  | [] => []
  | (name, v) :: rest => (name, v.sorted) :: sortedMembers rest

end

mutual

/-- A value as the node it would be written as. -/
def Value.toNode : Value → Node
  | .null => .null
  | .bool b => .bool b
  | .num n => .num (some n)
  | .str s => .str (some s)
  | .arr items => .arr (itemNodes items)
  | .obj members => .obj (memberNodes members)

/-- The nodes of all items. -/
def itemNodes : List Value → List Node
  | [] => []
  | v :: rest => v.toNode :: itemNodes rest

/-- The nodes of all members. -/
def memberNodes : List (String × Value) → List (Option String × Node)
  | [] => []
  | (name, v) :: rest => (some name, v.toNode) :: memberNodes rest

end

end Rehearsal.Json
