import Mathlib
import Rehearsal.World
import Rehearsal.Proofs.Store

/-!
# Carrying procedures on

How `World.advance` goes through a procedure that is made of parts, and what the single
operations come to.  Proofs about procedures use these laws and never look at the operations.

* `World.advance_bind_ok`, `advance_bind_error`, `advance_bind_waiting`: a call and then another,
  when the first one **succeeds, fails, or waits for the runner**.
* `OnFiles`, `Writes`: procedures that end by themselves and **change nothing but files**.
-/

namespace Rehearsal

open Runner (Job Reply Token)

variable {α β : Type}

/-- What was found, or a failure. -/
def foundOr (e : Error) (x : Option α) : Except Error α := x.elim (.error e) .ok

namespace World

/-! ## Procedures made of parts -/

lemma advance_bind (w : World) (p : Procedure α) (f : α → Procedure β) :
    w.advance (p >>= f) = match w.advance p with
      | (v, .ended a) => v.advance (f a)
      | (v, .waiting job token next) =>
          (v, .waiting job token fun reply => next reply >>= f) := by
  induction p generalizing w with
  | done a => rfl
  | act a next ih => exact ih _ _
  | spawn job token next => rfl

/-- Whether a procedure has a job for the runner. -/
def Rest.waits : Rest α → Bool
  | .ended _ => false
  | .waiting _ _ _ => true

lemma exists_of_waits {w : World} {p : Procedure α} (h : (w.advance p).2.waits = true) :
    ∃ v job token next, w.advance p = (v, .waiting job token next) := by
  cases hadvance : w.advance p with
  | mk v rest =>
      rw [hadvance] at h
      cases rest with
      | ended x => cases h
      | waiting job token next => exact ⟨v, job, token, next, rfl⟩

section call

variable {w v : World} {c : Call α} {f : α → Call β}

lemma advance_bind_ok {a : α} (h : w.advance c.run = (v, .ended (.ok a))) :
    w.advance (c >>= f).run = v.advance (f a).run := by
  rw [ExceptT.run_bind, advance_bind, h]

lemma advance_bind_error {e : Error} (h : w.advance c.run = (v, .ended (.error e))) :
    w.advance (c >>= f).run = (v, .ended (.error e)) := by
  rw [ExceptT.run_bind, advance_bind, h]
  rfl

lemma advance_bind_waiting {job : Job} {token : Token}
    {next : Reply → Procedure (Except Error α)}
    (h : w.advance c.run = (v, .waiting job token next)) :
    w.advance (c >>= f).run
      = (v, .waiting job token fun reply => next reply >>= ExceptT.bindCont f) := by
  rw [ExceptT.run_bind, advance_bind, h]
  rfl

/-- Two calls that leave the world as it is. -/
lemma advance_bind_reading {x : Except Error α} {k : α → Except Error β}
    (h : w.advance c.run = (w, .ended x))
    (hk : ∀ a, w.advance (f a).run = (w, .ended (k a))) :
    w.advance (c >>= f).run = (w, .ended (x >>= k)) := by
  cases x with
  | ok a => rw [advance_bind_ok h, hk]; rfl
  | error e => rw [advance_bind_error h]; rfl

end call

/-! ## Parts that are not made of others -/

section parts

variable {w v : World}

lemma advance_found (e : Error) (x : Option α) :
    w.advance (Call.found e x).run = (w, .ended (foundOr e x)) := by
  cases x <;> rfl

lemma advance_given (x : Except Error α) : w.advance (Call.given x).run = (w, .ended x) := by
  cases x <;> rfl

lemma advance_sure {p : Procedure α} {a : α} (h : w.advance p = (v, .ended a)) :
    w.advance (Call.sure p).run = (v, .ended (.ok a)) := by
  have hmap : (Call.sure p).run = p >>= fun a => .done (.ok a) := rfl
  rw [hmap, advance_bind, h]
  rfl

lemma advance_sure_waiting {p : Procedure α} {job : Job} {token : Token}
    {next : Reply → Procedure α} (h : w.advance p = (v, .waiting job token next)) :
    w.advance (Call.sure p).run
      = (v, .waiting job token fun reply => next reply >>= fun a => .done (.ok a)) := by
  have hmap : (Call.sure p).run = p >>= fun a => .done (.ok a) := rfl
  rw [hmap, advance_bind, h]

/-- What came of a call is an answer like any other. -/
lemma advance_outcome {c : Call α} {x : Except Error α} (h : w.advance c.run = (v, .ended x)) :
    w.advance (Call.outcome c).run = (v, .ended (.ok x)) :=
  advance_sure h

lemma advance_outcome_waiting {c : Call α} {job : Job} {token : Token}
    {next : Reply → Procedure (Except Error α)}
    (h : w.advance c.run = (v, .waiting job token next)) :
    w.advance (Call.outcome c).run
      = (v, .waiting job token fun reply => next reply >>= fun x => .done (.ok x)) :=
  advance_sure_waiting h

end parts

/-! ## Looking things up -/

section lookups

variable (w : World) (id : Uuid)

lemma advance_page : w.advance (Call.page id).run
    = (w, .ended (foundOr (.unknownPage id) (w.store.catalog.page? id))) :=
  (advance_bind_ok rfl).trans (advance_found _ _)

lemma advance_suite : w.advance (Call.suite id).run
    = (w, .ended (foundOr (.unknownSuite id) (w.store.catalog.suite? id))) :=
  (advance_bind_ok rfl).trans (advance_found _ _)

lemma advance_project : w.advance (Call.project id).run
    = (w, .ended (foundOr (.unknownProject id) (w.store.catalog.project? id))) :=
  (advance_bind_ok rfl).trans (advance_found _ _)

lemma advance_record : w.advance (Call.record id).run
    = (w, .ended (foundOr (.unknownExecution id) (w.store.logbook.record? id))) :=
  (advance_bind_ok rfl).trans (advance_found _ _)

end lookups

/-! ## Single operations

What an operation comes to that looks before it writes. -/

section operations

variable (w : World)

lemma advance_act (operation : Operation) (next : operation.Answer → Procedure α) :
    w.advance (.act operation next)
      = (w.perform operation).1.advance (next (w.perform operation).2) := rfl

lemma perform_createRecord_eq (e : Execution) : w.perform (.createRecord e)
    = match w.store.logbook.create e with
      | .ok l => (w.withLogbook l, .ok ())
      | .error fault => (w, .error fault) := rfl

lemma perform_updateRecord_eq (id : Uuid) (u : Update) : w.perform (.updateRecord id u)
    = match w.store.logbook.update w.now id u with
      | .ok (l, e) => (w.withLogbook l, .ok e)
      | .error fault => (w, .error fault) := rfl

lemma perform_addRow_eq (r : CaseResult) : w.perform (.addRow r)
    = match w.store.logbook.addRow r with
      | .ok l => (w.withLogbook l, .ok ())
      | .error fault => (w, .error fault) := rfl

lemma perform_claimToken_eq (id : Uuid) : w.perform (.claimToken id)
    = match w.tokens.get? id with
      | some t => (w, t)
      | none =>
          ({ w with tokens := w.tokens.put id ⟨w.issued⟩, issued := w.issued + 1 },
            ⟨w.issued⟩) := rfl

lemma perform_makeDirectory_eq (steps : List Segment) : w.perform (.makeDirectory steps)
    = match w.tree.makeDirectory steps with
      | .ok tree => ({ w with tree := tree }, .ok ())
      | .error r => (w, .error r) := rfl

lemma perform_openFile_eq (path : Path) : w.perform (.openFile path)
    = match w.tree.openFile path with
      | .ok tree => ({ w with tree := tree }, .ok ())
      | .error r => (w, .error r) := rfl

end operations

/-! ## Writing to the logbook -/

section logbook

variable {w : World} {id : Uuid} {e : Execution}

/-- An identifier that is taken is refused. -/
lemma advance_createRecord_taken {d : Execution} (h : w.store.logbook.record? e.id = some d) :
    w.advance (Call.createRecord e).run = (w, .ended (.error (.duplicateExecution e.id))) := by
  have hcreate : w.store.logbook.create e = .error (.duplicateExecution e.id) := by
    rw [Logbook.create, if_pos (Table.contains_iff.mpr ⟨d, h⟩)]
  show w.advance (.act (.createRecord e) .done) = _
  rw [advance_act, perform_createRecord_eq, hcreate]
  rfl

lemma advance_createRecord (h : w.store.logbook.record? e.id = none) :
    w.advance (Call.createRecord e).run
      = (w.withLogbook (w.store.logbook.put e.id e), .ended (.ok ())) := by
  have hfree : ¬w.store.logbook.records.contains e.id = true := by
    intro hc
    obtain ⟨d, hd⟩ := Table.contains_iff.mp hc
    cases hd.symm.trans h
  have hcreate : w.store.logbook.create e = .ok (w.store.logbook.put e.id e) := by
    rw [Logbook.create, if_neg hfree]
    rfl
  show w.advance (.act (.createRecord e) .done) = _
  rw [advance_act, perform_createRecord_eq, hcreate]
  rfl

lemma perform_updateRecord (h : w.store.logbook.record? id = some e) (u : Update) :
    w.perform (.updateRecord id u)
      = (w.withLogbook (w.store.logbook.put id (e.apply w.now u)), .ok (e.apply w.now u)) := by
  rw [perform_updateRecord_eq, Logbook.update, h]
  rfl

lemma perform_updateRecord_missing (h : w.store.logbook.record? id = none) (u : Update) :
    w.perform (.updateRecord id u) = (w, .error (.unknownExecution id)) := by
  rw [perform_updateRecord_eq, Logbook.update, h]

lemma advance_updateRecord (h : w.store.logbook.record? id = some e) (u : Update) :
    w.advance (Call.updateRecord id u).run
      = (w.withLogbook (w.store.logbook.put id (e.apply w.now u)),
          .ended (.ok (e.apply w.now u))) := by
  show w.advance (.act (.updateRecord id u) .done) = _
  rw [advance_act, perform_updateRecord h]
  rfl

lemma advance_addRow {r : CaseResult} (h : w.store.logbook.record? r.execution = some e) :
    w.advance (Call.addRow r).run
      = (w.withLogbook (w.store.logbook.addRows [r]), .ended (.ok ())) := by
  have hadd : w.store.logbook.addRow r = .ok (w.store.logbook.addRows [r]) := by
    rw [Logbook.addRow, if_pos (Table.contains_iff.mpr ⟨e, h⟩)]
    rfl
  show w.advance (.act (.addRow r) .done) = _
  rw [advance_act, perform_addRow_eq, hadd]
  rfl

end logbook

/-! ## Tokens -/

section tokens

variable (w : World) {id : Uuid}

lemma perform_claimToken_found {t : Token} (h : w.tokens.get? id = some t) :
    w.perform (.claimToken id) = (w, t) := by
  rw [perform_claimToken_eq, h]
  rfl

lemma perform_claimToken_new (h : w.tokens.get? id = none) : w.perform (.claimToken id)
    = ({ w with tokens := w.tokens.put id ⟨w.issued⟩, issued := w.issued + 1 }, ⟨w.issued⟩) := by
  rw [perform_claimToken_eq, h]

/-- Whether a token is new or not, claiming it leaves the store and the time alone. -/
lemma perform_claimToken (id : Uuid) :
    (w.perform (.claimToken id)).1.store = w.store
      ∧ (w.perform (.claimToken id)).1.now = w.now := by
  cases h : w.tokens.get? id with
  | none => simp only [w.perform_claimToken_new h, and_self]
  | some t => simp only [w.perform_claimToken_found h, and_self]

lemma drawn_claimToken (id : Uuid) : (w.perform (.claimToken id)).1.drawn = w.drawn := by
  cases h : w.tokens.get? id with
  | none => rw [w.perform_claimToken_new h]
  | some t => rw [w.perform_claimToken_found h]

lemma ids_claimToken (id : Uuid) : (w.perform (.claimToken id)).1.ids = w.ids := by
  cases h : w.tokens.get? id with
  | none => rw [w.perform_claimToken_new h]
  | some t => rw [w.perform_claimToken_found h]

lemma tree_claimToken (id : Uuid) : (w.perform (.claimToken id)).1.tree = w.tree := by
  cases h : w.tokens.get? id with
  | none => rw [w.perform_claimToken_new h]
  | some t => rw [w.perform_claimToken_found h]

/-- The token that was claimed is there. -/
lemma get?_claimToken (id : Uuid) :
    (w.perform (.claimToken id)).1.tokens.get? id = some (w.perform (.claimToken id)).2 := by
  cases h : w.tokens.get? id with
  | none =>
      rw [w.perform_claimToken_new h]
      exact (Table.get?_put ..).trans (if_pos rfl)
  | some t =>
      rw [w.perform_claimToken_found h]
      exact h

end tokens

/-- A world in which there is nothing yet, and whose identifiers are drawn in their order. -/
def bare : World := .ofTree Uuid.inOrder default default

end World

/-! ## Procedures on files -/

/-- A procedure that ends by itself and changes nothing but files. -/
def OnFiles (p : Procedure α) : Prop :=
  ∀ w : World, ∃ tree a, w.advance p = ({ w with tree := tree }, .ended a)

/-- A call that ends by itself, changes nothing but files and fails for no other reason. -/
def Writes (c : Call α) : Prop :=
  ∀ w : World, ∃ tree x, w.advance c.run = ({ w with tree := tree }, .ended x)
    ∧ ∀ e, x = .error e → ∃ detail, e = .fileSystem detail

namespace OnFiles

lemma pure (a : α) : OnFiles (Pure.pure a : Procedure α) :=
  fun w => ⟨w.tree, a, rfl⟩

lemma bind {p : Procedure α} {f : α → Procedure β} (hp : OnFiles p) (hf : ∀ a, OnFiles (f a)) :
    OnFiles (p >>= f) := by
  intro w
  obtain ⟨tree, a, ha⟩ := hp w
  obtain ⟨tree', b, hb⟩ := hf a { w with tree := tree }
  exact ⟨tree', b, by rw [World.advance_bind, ha]; exact hb⟩

/-- A single operation ends by itself. -/
lemma ask {a : Operation} (h : ∀ w : World, ∃ tree, (w.perform a).1 = { w with tree := tree }) :
    OnFiles (Procedure.ask a) := by
  intro w
  obtain ⟨tree, htree⟩ := h w
  exact ⟨tree, (w.perform a).2, by rw [← htree]; rfl⟩

lemma isDirectory (steps : List Segment) : OnFiles (Procedure.isDirectory steps) :=
  ask fun w => ⟨w.tree, rfl⟩

lemma makeDirectory (steps : List Segment) : OnFiles (Procedure.makeDirectory steps) := by
  refine ask fun w => ?_
  cases h : w.tree.makeDirectory steps with
  | ok tree => exact ⟨tree, by rw [World.perform_makeDirectory_eq, h]⟩
  | error r => exact ⟨w.tree, by rw [World.perform_makeDirectory_eq, h]⟩

lemma openFile (path : Path) : OnFiles (Procedure.ask (.openFile path)) := by
  refine ask fun w => ?_
  cases h : w.tree.openFile path with
  | ok tree => exact ⟨tree, by rw [World.perform_openFile_eq, h]⟩
  | error r => exact ⟨w.tree, by rw [World.perform_openFile_eq, h]⟩

lemma fillFile (path : Path) (content : String) :
    OnFiles (Procedure.ask (.fillFile path content)) :=
  ask fun _ => ⟨_, rfl⟩

end OnFiles

namespace Writes

lemma pure (a : α) : Writes (Pure.pure a : Call α) :=
  fun w => ⟨w.tree, .ok a, rfl, fun _ h => by cases h⟩

lemma bind {c : Call α} {f : α → Call β} (hc : Writes c) (hf : ∀ a, Writes (f a)) :
    Writes (c >>= f) := by
  intro w
  obtain ⟨tree, x, hx, hfault⟩ := hc w
  cases x with
  | ok a =>
      obtain ⟨tree', y, hy, hfault'⟩ := hf a { w with tree := tree }
      exact ⟨tree', y, by rw [World.advance_bind_ok hx]; exact hy, hfault'⟩
  | error e =>
      refine ⟨tree, .error e, World.advance_bind_error hx, fun d hd => ?_⟩
      cases hd
      exact hfault e rfl

lemma sure {p : Procedure α} (hp : OnFiles p) : Writes (Call.sure p) := by
  intro w
  obtain ⟨tree, a, ha⟩ := hp w
  exact ⟨tree, .ok a, World.advance_sure ha, fun _ h => by cases h⟩

end Writes

end Rehearsal
