import Rehearsal.Error
/-!
# Selectors

A selector says how to find an element; a page keeps its selectors by name, in the order in
which they were declared.

* `Selector.locator`: the text that the runner understands.
* `SelectorMap`: entries with **pairwise distinct names**; the field `distinct` carries it.
* `SelectorMap.insert`: adds an entry at the end, and refuses a name that is taken. **A refusal
  leaves the map as it is.**
* `SelectorMap.reader`: an object whose members have distinct names, in their order.
-/

namespace Rehearsal

/-- The ways to find an element. -/
inductive SelectorKind where
  | xpath
  | css
  | id
  | name
  | text
deriving DecidableEq, Repr

/-- The name of a way to find an element. -/
def SelectorKind.label : SelectorKind → String
  | .xpath => "xpath"
  | .css => "css"
  | .id => "id"
  | .name => "name"
  | .text => "text"

/-- The way of that name. -/
def SelectorKind.parse? (s : String) : Option SelectorKind :=
  if s = "xpath" then some .xpath
  else if s = "css" then some .css
  else if s = "id" then some .id
  else if s = "name" then some .name
  else if s = "text" then some .text
  else none

/-- How to find an element. -/
structure Selector where
  kind : SelectorKind
  value : String
deriving DecidableEq, Repr

namespace Selector

/-- The text by which the runner finds the element. -/
def locator (s : Selector) : String :=
  match s.kind with
  | .css => s.value
  | .xpath => "xpath=" ++ s.value
  | .id => "#" ++ s.value
  | .name => "[name=\"" ++ s.value ++ "\"]"
  | .text => "text=" ++ s.value

def reader : Json.Reader Selector := fun room n => do
  let es ← Json.Entries.read ["type", "value"] room n
  return {
    kind := ← es.required "type" (Json.Reader.enumerated SelectorKind.parse?)
    value := ← es.required "value" Json.Reader.string }

def toValue (s : Selector) : Json.Value :=
  Json.record [("type", some (.str s.kind.label)), ("value", some (.str s.value))]

end Selector

/-- Selectors by name, in the order in which they were declared. -/
structure SelectorMap where
  entries : List (String × Selector)
  /-- No name occurs twice. -/
  distinct : (entries.map Prod.fst).Nodup

namespace SelectorMap

/-- The map without entries. -/
def empty : SelectorMap := ⟨[], List.nodup_nil⟩

instance : Inhabited SelectorMap := ⟨empty⟩

/-- The selector of a name. -/
def get? (m : SelectorMap) (name : String) : Option Selector := Json.member? name m.entries

def size (m : SelectorMap) : Nat := m.entries.length

def isEmpty (m : SelectorMap) : Bool := m.entries.isEmpty

theorem nodup_append_one {m : List (String × Selector)} {name : String} {s : Selector}
    (h : (m.map Prod.fst).Nodup) (hn : name ∉ m.map Prod.fst) :
    ((m ++ [(name, s)]).map Prod.fst).Nodup := by
  rw [List.map_append, List.nodup_append]
  refine ⟨h, by simp, ?_⟩
  intro a ha b hb
  simp only [List.map_cons, List.map_nil, List.mem_singleton] at hb
  subst hb
  intro hab
  exact hn (hab ▸ ha)

/-- Adds an entry at the end, unless the name is taken: the map then, and the fault. -/
def insert (m : SelectorMap) (name : String) (s : Selector) : SelectorMap × Except Error Unit :=
  if h : name ∈ m.entries.map Prod.fst then (m, .error (.duplicateSelector name))
  else (⟨m.entries ++ [(name, s)], nodup_append_one m.distinct h⟩, .ok ())

/-- Adds entries one after the other up to the first that is refused: the map then, and the
fault. -/
def insertAll (m : SelectorMap) : List (String × Selector) → SelectorMap × Except Error Unit
  | [] => (m, .ok ())
  | (name, s) :: rest =>
    match m.insert name s with
    | (n, .ok ()) => n.insertAll rest
    | (n, .error e) => (n, .error e)

/-- The map with all of these entries, if none of them is refused. -/
def ofEntries? (es : List (String × Selector)) : Option SelectorMap :=
  match empty.insertAll es with
  | (m, .ok ()) => some m
  | (_, .error _) => none

def reader : Json.Reader SelectorMap := fun room n => do
  let members ← Json.Reader.entries Selector.reader room n
  ofEntries? members

def toValue (m : SelectorMap) : Json.Value :=
  .obj (m.entries.map fun e => (e.1, e.2.toValue))

end SelectorMap

end Rehearsal
