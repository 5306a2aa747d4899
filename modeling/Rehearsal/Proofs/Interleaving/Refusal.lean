import Mathlib
import Rehearsal.Proofs.Interleaving.Chronicle

/-!
# Refused calls have no effect

A call on executions looks before it writes.  If it is refused, it has not written anything, and
what could fail after it wrote cannot fail: the record is there, and the identifier was free.

* `World.Fresh`: the identifier that is drawn next is a new one.  Then it has no record
  (`Chronicle.free`).
* `Run.accepts_create_iff`, `Run.accepts_cancel_iff`: which requests and which cancellations are
  accepted.
* `Chronicle.refused_without_effect`: whenever a call is refused, **the world is as it was before**.
-/

namespace Rehearsal

open Runner (Job Reply Token)

variable {α : Type}

/-! ## Identifiers -/

namespace World

/-- The identifier that is drawn next has not been drawn before. -/
def Fresh (w : World) : Prop := ∀ k < w.drawn, w.ids k ≠ w.nextId

/-- Identifiers stay in their order and are only ever used up. -/
structure Draws (w v : World) : Prop where
  ids : v.ids = w.ids
  drawn : w.drawn ≤ v.drawn

namespace Draws

variable {w v u : World}

lemma refl (w : World) : Draws w w := ⟨rfl, le_rfl⟩

lemma trans (h : Draws w v) (h' : Draws v u) : Draws w u :=
  ⟨h'.ids.trans h.ids, h.drawn.trans h'.drawn⟩

end Draws

lemma draws_perform (w : World) (a : Operation) : Draws w (w.perform a).1 := by
  cases a with
  | createRecord e =>
      rw [perform_createRecord_eq]
      cases w.store.logbook.create e <;> exact ⟨rfl, le_rfl⟩
  | updateRecord id u =>
      rw [perform_updateRecord_eq]
      cases w.store.logbook.update w.now id u <;> exact ⟨rfl, le_rfl⟩
  | addRow r =>
      rw [perform_addRow_eq]
      cases w.store.logbook.addRow r <;> exact ⟨rfl, le_rfl⟩
  | claimToken id => exact ⟨w.ids_claimToken id, (w.drawn_claimToken id).ge⟩
  | freshId => exact ⟨rfl, Nat.le_succ _⟩
  | makeDirectory steps =>
      rw [perform_makeDirectory_eq]
      cases w.tree.makeDirectory steps <;> exact ⟨rfl, le_rfl⟩
  | openFile path =>
      rw [perform_openFile_eq]
      cases w.tree.openFile path <;> exact ⟨rfl, le_rfl⟩
  | _ => exact ⟨rfl, le_rfl⟩

lemma draws_advance (w : World) (p : Procedure α) : Draws w (w.advance p).1 := by
  induction p generalizing w with
  | done a => exact .refl w
  | act a next ih => exact (w.draws_perform a).trans (ih _ _)
  | spawn job token next => exact .refl w

end World

/-- Every record stands under an identifier that was drawn. -/
def Scene.Drawn (s : Scene) : Prop :=
  ∀ id e, s.record? id = some e → ∃ k < s.world.drawn, s.world.ids k = id

namespace Scene

variable {s t : Scene} {ns : List Note}

lemma Turn.drawn [Libraries] (h : Turn s ns t) (hs : s.Sound) (hdrawn : s.Drawn) : t.Drawn := by
  have hdraws : s.world.Draws t.world := by
    cases h with
    | edit w fs catalog tree now => exact ⟨rfl, le_rfl⟩
    | _ => exact World.draws_advance _ _
  have hkept : ∀ {id d}, s.record? id = some d → ∃ k < t.world.drawn, t.world.ids k = id := by
    intro id d hd
    obtain ⟨k, hk, hid⟩ := hdrawn id d hd
    exact ⟨k, hk.trans_le hdraws.drawn, hdraws.ids ▸ hid⟩
  intro id e he
  rw [record?, h.replays.record] at he
  rcases h.cases hs with ⟨r, -, rfl, hnew⟩ | hretold
  · by_cases hid : (Run.enrolled s.world r).id = id
    · refine ⟨s.world.drawn, hnew ▸ Nat.lt_succ_self _, ?_⟩
      rw [hdraws.ids]
      exact hid
    · have hother : ∀ n ∈ [Note.created (Run.enrolled s.world r),
          .announced (.ofExecution (Run.enrolled s.world r))],
          n.execution = (Run.enrolled s.world r).id := by
        simp [Note.execution, Event.ofExecution, Event.execution]
      exact hkept ((recordAfter_other hother hid _).symm.trans he)
  · obtain ⟨d, hd⟩ := hretold.known he
    exact hkept hd

end Scene

namespace Chronicle

variable {start s : Scene} {ns : List Note}

lemma drawn [Libraries] (h : Chronicle start ns s) (hstart : start.Begins) : s.Drawn := by
  induction h with
  | start =>
      intro id e he
      rw [Scene.record?, hstart.1.1] at he
      cases he
  | next h turn ih => exact turn.drawn (h.sound hstart.1) ih

/-- An identifier that is fresh has no record. -/
lemma free [Libraries] (h : Chronicle start ns s) (hstart : start.Begins)
    (hfresh : s.world.Fresh) : s.record? s.world.nextId = none := by
  cases he : s.record? s.world.nextId with
  | none => rfl
  | some e =>
      obtain ⟨k, hk, hid⟩ := h.drawn hstart _ e he
      exact absurd hid (hfresh k hk)

end Chronicle

/-! ## What is refused -/

namespace Run

variable {w v : World} {id : Uuid}

/-- The call is carried out. -/
def Accepts (w : World) (c : Call α) : Prop := ∃ v a, w.advance c.run = (v, .ended (.ok a))

/-- The call is refused, and this is the world then. -/
def Refuses (w : World) (c : Call α) (v : World) : Prop :=
  ∃ fault, w.advance c.run = (v, .ended (.error fault))

lemma accepts_cancel_iff : Accepts w (cancel id)
    ↔ ∃ e, w.store.logbook.record? id = some e ∧ (e.status = .pending ∨ e.status = .running) := by
  rcases advance_cancel_cases w id with ⟨e, v, he, hstatus, hv, -⟩ | ⟨hnone, fault, hv⟩
  · exact iff_of_true ⟨v, _, hv⟩ ⟨e, he, hstatus⟩
  · refine iff_of_false ?_ hnone
    rintro ⟨u, a, hu⟩
    rw [hv] at hu
    cases hu

/-- A request is accepted if the catalog admits it and an identifier is free. -/
lemma accepts_create_iff {r : Request} (hfresh : w.store.logbook.record? w.nextId = none) :
    Accepts w (create r) ↔ (∃ p, w.store.catalog.project? r.project = some p)
      ∧ ∀ id, r.suite = some id →
        ∃ s, w.store.catalog.suite? id = some s ∧ s.project = r.project := by
  rw [← admission_eq_ok_iff, Accepts, advance_create_eq]
  cases admission w.store.catalog r with
  | error fault =>
      refine iff_of_false ?_ ?_
      · rintro ⟨v, a, hv⟩
        cases hv
      · rintro ⟨⟩
  | ok _ => exact iff_of_true ⟨_, _, advance_enroll r hfresh⟩ rfl

lemma refuses_create {r : Request} (h : Refuses w (create r) v) :
    v = { w with drawn := v.drawn } := by
  obtain ⟨fault, hv⟩ := h
  rcases advance_create w r with ⟨drawn, fault', hrefused⟩ | ⟨u, id, haccepted, -⟩
  · rw [hrefused] at hv
    cases hv
    rfl
  · rw [haccepted] at hv
    cases hv

lemma refuses_cancel (h : Refuses w (cancel id) v) : v = w := by
  obtain ⟨fault, hv⟩ := h
  rcases advance_cancel_cases w id with ⟨e, u, -, -, haccepted, -⟩ | ⟨-, fault', hrefused⟩
  · rw [haccepted] at hv
    cases hv
  · rw [hrefused] at hv
    cases hv
    rfl

/-- The second half of a run is accepted. -/
lemma accepts_finish [Libraries] {e : Execution} (h : w.store.logbook.record? id = some e)
    (place : Except Refusal Path) (result : Except Error (Runner.Outcome × List Suite)) :
    Accepts w (finish id place result) := by
  obtain ⟨v, -, hv, -⟩ := advance_finish h place result
  exact ⟨v, _, hv⟩

/-- A run is refused only if it has not begun. -/
lemma refuses_run [Libraries] {settings : RunSettings} (h : Refuses w (run settings id) v) :
    v = w := by
  obtain ⟨fault, hv⟩ := h
  have hstarts := starts settings w id
  rw [hv] at hstarts
  generalize hx : (v, World.Rest.ended (Except.error fault)) = x at hstarts
  cases hstarts with
  | @fails e he hpending tree cause =>
      have hrunning : ({ begun w id e with tree := tree } : World).store.logbook.record? id
          = some (running w e) := record?_begun w id e
      obtain ⟨u, a, hu⟩ := accepts_finish hrunning (placeOf settings w id) (.error cause)
      rw [hu] at hx
      cases hx
  | waits => cases hx
  | refused =>
      cases hx
      rfl
  | declined => cases hx

end Run

namespace Scene

/-- A run whose runner has replied is not refused. -/
lemma Sound.accepts_reply [Libraries] {s : Scene} (hs : s.Sound) {f : Flight} (hf : f ∈ s.flights)
    (r : Reply) : Run.Accepts s.world (f.next r : Call Execution) := by
  obtain ⟨e, he, -, -, place, settings, suites, hclose⟩ := hs.due hf
  rw [hclose]
  exact Run.accepts_finish he place _

end Scene

namespace Chronicle

variable {start s : Scene} {ns : List Note}

/-- **Refused calls have no effect**, whatever has happened before.  The world is as it was, but for
an identifier that a request may have used up, and a run whose runner is at work is not refused any
more.  A cancellation is accepted just when its execution has not ended, and a request just when its
project is there and its suite, if it has one, is one of it. -/
theorem refused_without_effect [Libraries] (h : Chronicle start ns s) (hstart : start.Begins) :
    (∀ r v, Run.Refuses s.world (Run.create r) v → v = { s.world with drawn := v.drawn })
      ∧ (∀ id v, Run.Refuses s.world (Run.cancel id) v → v = s.world)
      ∧ (∀ settings id v, Run.Refuses s.world (Run.run settings id) v → v = s.world)
      ∧ (∀ f ∈ s.flights, ∀ r : Reply, Run.Accepts s.world (f.next r : Call Execution))
      ∧ (∀ id, Run.Accepts s.world (Run.cancel id)
        ↔ ∃ e, s.record? id = some e ∧ (e.status = .pending ∨ e.status = .running))
      ∧ (s.world.Fresh → ∀ r, Run.Accepts s.world (Run.create r)
        ↔ (∃ p, s.world.store.catalog.project? r.project = some p)
          ∧ ∀ id, r.suite = some id →
            ∃ x, s.world.store.catalog.suite? id = some x ∧ x.project = r.project) := by
  refine ⟨fun r v => Run.refuses_create, fun id v => Run.refuses_cancel,
    fun settings id v => Run.refuses_run, fun f hf r => ?_, fun id => Run.accepts_cancel_iff,
    fun hfresh r => ?_⟩
  · exact (h.sound hstart.1).accepts_reply hf r
  · exact Run.accepts_create_iff (h.free hstart hfresh)

section

open scoped Libraries.Lenient

/-- A second cancellation is refused, and a second request is not. -/
theorem refused_without_effect_cancelled :
    ∃ ns s, Chronicle ⟨Run.demoWorld, []⟩ ns s
      ∧ Run.Refuses s.world (Run.cancel ⟨1⟩) s.world
      ∧ Run.Accepts s.world (Run.create (.forProject ⟨5⟩)) := by
  let created : World := (Run.demoWorld.advance (Run.create (.forProject ⟨5⟩)).run).1
  let cancelled : Scene := ⟨(created.advance (Run.cancel ⟨1⟩).run).1, []⟩
  have hchronicle : Chronicle ⟨Run.demoWorld, []⟩ _ cancelled :=
    .next (.next .start (.create Run.demoWorld [] (.forProject ⟨5⟩))) (.cancel created [] ⟨1⟩)
  obtain ⟨-, hcancel, -, -, -, hcreate⟩ :=
    hchronicle.refused_without_effect ⟨⟨rfl, rfl⟩, rfl⟩
  obtain ⟨v, hrefused⟩ : ∃ v, Run.Refuses cancelled.world (Run.cancel ⟨1⟩) v := ⟨_, _, rfl⟩
  have hsame := hcancel ⟨1⟩ v hrefused
  have hfresh : cancelled.world.Fresh := by
    have hdrawn : cancelled.world.drawn = 1 := rfl
    have hids : cancelled.world.ids = Uuid.inOrder := rfl
    rw [World.Fresh, World.nextId, hdrawn, hids]
    decide
  have hproject : cancelled.world.store.catalog.project? ⟨5⟩ = some Run.demoProject := rfl
  have haccepted : Run.Accepts cancelled.world (Run.create (.forProject ⟨5⟩)) := by
    refine (hcreate hfresh _).mpr ⟨⟨_, hproject⟩, fun id hid => ?_⟩
    cases hid
  rw [hsame] at hrefused
  exact ⟨_, cancelled, hchronicle, hrefused, haccepted⟩

end

end Chronicle

end Rehearsal
