import Rehearsal.Procedure
/-!
# The world that procedures act on

* `World.perform`: what each operation changes and what it answers.
* `World.advance`: carries a procedure on until it ends or waits for the runner.
* `World.step`: carries it on by a single operation.
* `World.complete`: carries it on to its end, given the reply of the runner.
-/

namespace Rehearsal

open Runner (Job Reply Token)

/-- Everything that procedures see and change. -/
structure World where
  store : Store
  /-- The token of each execution that can still be asked to stop. -/
  tokens : Table Uuid Token
  /-- How many tokens there have been. -/
  issued : Nat
  /-- The tokens that have fired. -/
  fired : List Token
  /-- Every event so far, the first one first. -/
  events : List Event
  tree : FileTree
  now : Instant
  /-- The identifiers, in the order in which they are drawn. -/
  ids : Nat → Uuid
  /-- How many of them have been drawn. -/
  drawn : Nat

namespace World

/-- Nothing but files. -/
def ofTree (ids : Nat → Uuid) (tree : FileTree) (now : Instant) : World where
  store := .empty
  tokens := .empty
  issued := 0
  fired := []
  events := []
  tree := tree
  now := now
  ids := ids
  drawn := 0

/-- Whether a token has fired. -/
def hasFired (w : World) (t : Token) : Bool := w.fired.contains t

/-- The identifier that is drawn next. -/
def nextId (w : World) : Uuid := w.ids w.drawn

/-- The store with another logbook. -/
def withLogbook (w : World) (l : Logbook) : World :=
  { w with store := { w.store with logbook := l } }

/-- What an operation changes, and its answer. -/
def perform (w : World) : (a : Operation) → World × a.Answer
  | .page id => (w, w.store.catalog.page? id)
  | .suite id => (w, w.store.catalog.suite? id)
  | .project id => (w, w.store.catalog.project? id)
  | .record id => (w, w.store.logbook.record? id)
  | .createRecord e =>
    match w.store.logbook.create e with
    | .ok l => (w.withLogbook l, .ok ())
    | .error e => (w, .error e)
  | .updateRecord id u =>
    match w.store.logbook.update w.now id u with
    | .ok (l, e) => (w.withLogbook l, .ok e)
    | .error e => (w, .error e)
  | .addRow r =>
    match w.store.logbook.addRow r with
    | .ok l => (w.withLogbook l, .ok ())
    | .error e => (w, .error e)
  | .claimToken id =>
    match w.tokens.get? id with
    | some t => (w, t)
    | none => ({ w with tokens := w.tokens.put id ⟨w.issued⟩, issued := w.issued + 1 }, ⟨w.issued⟩)
  | .findToken id => (w, w.tokens.get? id)
  | .releaseToken id => ({ w with tokens := w.tokens.erase id }, ())
  | .fire t => ({ w with fired := t :: w.fired }, ())
  | .announce e => ({ w with events := w.events ++ [e] }, ())
  | .clock => (w, w.now)
  | .freshId => ({ w with drawn := w.drawn + 1 }, w.nextId)
  | .locate p => (w, w.tree.locate p)
  | .isDirectory steps => (w, w.tree.isDirectory steps)
  | .makeDirectory steps =>
    match w.tree.makeDirectory steps with
    | .ok t => ({ w with tree := t }, .ok ())
    | .error r => (w, .error r)
  | .openFile p =>
    match w.tree.openFile p with
    | .ok t => ({ w with tree := t }, .ok ())
    | .error r => (w, .error r)
  | .fillFile p content => ({ w with tree := w.tree.fillFile p content }, ())
  | .removeTree p => ({ w with tree := w.tree.removeTree p.segments }, ())

/-- A procedure that cannot go on by itself. -/
inductive Rest (α : Type) where
  | ended (result : α)
  | waiting (job : Job) (token : Token) (next : Reply → Procedure α)

/-- Carries a procedure on by a single operation, if it can go on by itself. -/
def step {α : Type} (w : World) : Procedure α → World × Procedure α
  | .act a next => ((w.perform a).1, next (w.perform a).2)
  | p => (w, p)

/-- Carries a procedure on until it ends or waits for the runner. -/
def advance {α : Type} (w : World) : Procedure α → World × Rest α
  | .done a => (w, .ended a)
  | .act a next =>
    match w.perform a with
    | (v, answer) => v.advance (next answer)
  | .spawn job token next => (w, .waiting job token next)

/-- Carries a procedure on to its end; every job for the runner gets the same reply. -/
def complete {α : Type} (w : World) (reply : Reply) : Procedure α → World × α
  | .done a => (w, a)
  | .act a next =>
    match w.perform a with
    | (v, answer) => v.complete reply (next answer)
  | .spawn _ _ next => w.complete reply (next reply)

/-- Carries out a call that has no job for the runner; one that has is left where it waits. -/
def result? {α : Type} (w : World) (c : Call α) : World × Option (Except Error α) :=
  match w.advance c.run with
  | (v, .ended r) => (v, some r)
  | (v, .waiting _ _ _) => (v, none)

end World

end Rehearsal
