import Mathlib
import Rehearsal.Proofs.Ending
import Rehearsal.Proofs.Cancellation.Record
import Rehearsal.Proofs.Cancellation.Token

/-!
# No cancellation is lost

An execution may be cancelled by any number of callers while one caller runs it, in any order of
their single operations.  A cancellation writes the record first and fires the token afterwards;
the run may write over it in between.  It is the token that decides.

* `Caller.phase_of_returned`: a cancellation that returned an execution has fired a token, or found
  none; `Caller.phase_of_employs`: who employs a token holds it.
* `Caller.ComesToNothing`: a run that has done nothing and will do nothing.
* `Crowd.no_cancellation_lost`: what the invariants of the token and of the record come to for
  callers.
-/

namespace Rehearsal

open Runner (Job Reply Token)
open Relation (ReflTransGen)

/-! ## Callers -/

namespace Phase

/-- A run that has at most found the execution cancelled. -/
def looking : Phase → Bool
  | toRun | leaving _ | left _ => true
  | _ => false

lemma looking_of_bows {e : Execution} {p : Phase} (hp : p.Bows e) (hrun : p.isRun = true) :
    p.looking = true := by
  cases p <;> first | rfl | exact False.elim hp | cases hrun

/-- Reading and releasing. -/
def Looks : Touch → Prop
  | .read _ | .release => True
  | _ => False

lemma looking_of_after {p q : Phase} {t : Touch} (h : p.after t = some q)
    (hq : q.looking = true) : p.looking = true ∧ Looks t := by
  revert h
  fun_cases after p t <;> rintro ⟨⟩ <;> first | exact ⟨rfl, trivial⟩ | cases hq

end Phase

/-- A run that has at most found the execution cancelled has done nothing else to it. -/
lemma Part.looks {c : Part} {p : Phase} (h : c.phase? = some p) (hp : p.looking = true) :
    ∀ t ∈ c.touches, Phase.Looks t := by
  obtain ⟨errand, ts⟩ := c
  refine phase_induction (motive := fun ts p => p.looking = true → ∀ t ∈ ts, Phase.Looks t)
    (fun _ t ht => by cases ht) (fun ts p t q hts hq hlooking => ?_) h hp
  obtain ⟨hpLooking, ht⟩ := Phase.looking_of_after hq hlooking
  simp only [List.forall_mem_append, List.forall_mem_singleton]
  exact ⟨hts hpLooking, ht⟩

/-- A run that has not read the record has done nothing to the execution at all. -/
lemma Part.unread {c : Part} {p : Phase} (h : c.phase? = some p)
    (hread : c.errand.IsRun → ∀ x, .read x ∉ c.touches) : p.unread = true := by
  have hrun := Part.isRun_eq h
  by_cases herrand : c.errand.IsRun
  · obtain ⟨errand, ts⟩ := c
    have hstart : Phase.start errand = .toRun := by
      cases errand with
      | run settings => rfl
      | cancel => cases herrand
    have hfirst : p = .toRun ∨ ∃ x, .read x ∈ ts := by
      refine phase_induction (motive := fun ts p => p = .toRun ∨ ∃ x, .read x ∈ ts) (.inl hstart)
        (fun ts p t q hts hq => .inr ?_) h
      rcases hts with rfl | ⟨x, hx⟩
      · cases t with
        | read x => exact ⟨x, by simp⟩
        | _ => cases hq
      · exact ⟨x, List.mem_append_left _ hx⟩
    rcases hfirst with rfl | ⟨x, hx⟩
    · rfl
    · exact absurd hx (hread herrand x)
  · rw [decide_eq_false herrand] at hrun
    cases p <;> first | rfl | cases hrun

namespace Caller

variable {id : Uuid} {c : Caller}

/-- The caller has read the record. -/
def HasRead (id : Uuid) (c : Caller) : Prop :=
  ∃ found, .act (.record id) found ∈ c.deeds

lemma hasRead_of_touch {x : Option Execution} (h : .read x ∈ (c.part id).touches) :
    c.HasRead id := by
  obtain ⟨d, hd, htouch⟩ := List.mem_filterMap.mp h
  cases d with
  | spawn job token => cases htouch
  | reply r => cases htouch
  | act operation answer =>
      cases operation with
      | record k =>
          rw [Deed.touch?] at htouch
          split_ifs at htouch with hk
          exact ⟨_, hk ▸ hd⟩
      | createRecord _ | updateRecord _ _ | claimToken _ | findToken _ | releaseToken _ =>
          rw [Deed.touch?] at htouch
          split_ifs at htouch
          cases htouch
      | _ => cases htouch

/-- A cancellation that has returned an execution has written, and has fired a token or found
none. -/
lemma phase_of_returned (h : c.Conducted id) (hcancel : c.errand = .cancel) {d : Execution}
    (hd : c.Returned (.ok d)) :
    ∃ p, (c.part id).phase? = some p ∧ ((∃ t, p = .fired d t) ∨ p = .missed d) := by
  obtain ⟨p, hp, hfollows⟩ := h
  rw [Returned] at hd
  rw [hd] at hfollows
  have hrun : p.isRun = decide c.errand.IsRun := Part.isRun_eq hp
  rw [hcancel] at hrun
  refine ⟨p, hp, ?_⟩
  cases p with
  | fired d' t =>
      cases hfollows
      exact .inl ⟨t, rfl⟩
  | missed d' =>
      cases hfollows
      exact .inr rfl
  | refused =>
      obtain ⟨fault, hfault⟩ := hfollows
      cases hfault
  | left _ | done => cases hrun
  | _ => cases hfollows

/-- Whoever employs a token holds it. -/
lemma phase_of_employs (h : c.Conducted id) {token : Token} (hc : c.Employs token) :
    ∃ p, (c.part id).phase? = some p ∧ p.Underway token := by
  obtain ⟨p, hp, hfollows⟩ := h
  refine ⟨p, hp, ?_⟩
  rcases hc with ⟨next, hstage⟩ | ⟨job, next, hstage⟩
  · rw [hstage] at hfollows
    exact .inr hfollows.1
  · rw [hstage] at hfollows
    obtain ⟨q, hq, -⟩ := hfollows
    exact .inl (Phase.after_spawn hq).1

end Caller

namespace Phase

/-- A run that will return the execution, given what can be seen now. -/
def Returns (d : Execution) (v : View) : Phase → Prop
  | toRun => v.record = some d ∧ d.status = .cancelled
  | leaving e | left e => e = d
  | _ => False

lemma Returns.after {d : Execution} {v u : View} {p q : Phase} {t : Touch} (hp : p.Returns d v)
    (hq : p.after t = some q) (h : v.Turns t u) : q.Returns d u ∧ u.record = v.record := by
  cases p with
  | toRun =>
      obtain ⟨hd, hcancelled⟩ := hp
      cases h with
      | read =>
          rw [hd] at hq
          cases (if_pos hcancelled).symm.trans hq
          exact ⟨rfl, rfl⟩
      | _ => cases hq
  | leaving e =>
      cases h with
      | release =>
          cases hq
          exact ⟨hp, rfl⟩
      | _ => cases hq
  | left e => cases hq
  | _ => cases hp

end Phase

/-- Left to itself, such a run returns the execution, and the record stays as it is. -/
lemma Obeys.returns {id : Uuid} {d : Execution} {rest : Procedure (Except Error Execution)}
    {p : Phase} {w : World} (h : Obeys id Phase.Ends rest p) (hp : p.Returns d (w.view id)) :
    ∃ v, w.advance rest = (v, .ended (.ok d)) ∧ (v.view id).record = (w.view id).record := by
  induction rest generalizing p w with
  | done x =>
      cases p with
      | left e =>
          cases hp
          cases h
          exact ⟨w, rfl, rfl⟩
      | toRun | leaving _ => cases h
      | _ => cases hp
  | act operation next ih =>
      obtain ⟨q, hq, hnext⟩ := h (w.perform operation).2
      have hview := w.view_perform id operation
      rw [Phase.next?] at hq
      cases ht : (Deed.act operation (w.perform operation).2).touch? id with
      | none =>
          rw [ht] at hq hview
          cases hq
          have hsame : (w.perform operation).1.view id = w.view id := hview
          obtain ⟨v, hv, hrecord⟩ := ih _ hnext (hsame ▸ hp)
          exact ⟨v, hv, hrecord.trans (congrArg View.record hsame)⟩
      | some t =>
          rw [ht] at hq hview
          obtain ⟨hreturns, hsame⟩ := hp.after hq hview
          obtain ⟨v, hv, hrecord⟩ := ih _ hnext hreturns
          exact ⟨v, hv, hrecord.trans hsame⟩
  | spawn job token next ih =>
      obtain ⟨q, hq, -⟩ := h
      obtain ⟨rfl, -⟩ := Phase.after_spawn hq
      cases hp

/-- A run that comes to nothing: it has had no runner and written nothing, and left to itself it
returns the execution as it is, cancelled. -/
structure Caller.ComesToNothing (id : Uuid) (e : Execution) (w : World) (c : Caller) : Prop where
  jobless : ∀ job token, Deed.spawn job token ∉ c.deeds
  writeless : ∀ update result, .act (.updateRecord id update) result ∉ c.deeds
  returns : ∃ rest v d, c.stage = .going rest ∧ w.advance rest = (v, .ended (.ok d))
    ∧ (∃ now, d = e.apply now { status := some .cancelled })
    ∧ v.store.logbook.record? id = w.store.logbook.record? id

namespace Crowd

variable {id : Uuid} {w : World} {errands : List Errand}

section

variable [Libraries]

lemma plot_start (w : World) (id : Uuid) (errands : List Errand) :
    (start w id errands).plot id = ⟨w.view id, errands.map fun errand => ⟨errand, []⟩⟩ := by
  simp [plot, start, Caller.part, Caller.idle]

lemma guarded_start {token : Token} (htoken : w.tokens.get? id = some token)
    (hone : errands.countP (fun errand => errand.IsRun) ≤ 1) :
    ((start w id errands).plot id).Guarded token := by
  have hactive : ∀ errand, (Part.mk errand []).active = decide errand.IsRun := by
    rintro (settings | _) <;> rfl
  rw [plot_start]
  constructor
  case single =>
    rw [List.countP_map]
    refine le_of_eq_of_le (List.countP_congr fun errand _ => ?_) hone
    rw [Function.comp_apply, hactive]
  case held =>
    refine .inr ⟨htoken, fun c hc p hp => ?_⟩
    obtain ⟨errand, -, rfl⟩ := List.mem_map.mp hc
    cases hp
    cases errand <;> trivial

lemma awaited_start {e : Execution} (hrecord : w.store.logbook.record? id = some e) :
    ((start w id errands).plot id).Awaited e := by
  rw [plot_start]
  refine ⟨fun _ => ⟨e, hrecord, .inl rfl⟩, fun _ c hc p hp hwritten => ?_⟩
  obtain ⟨errand, -, rfl⟩ := List.mem_map.mp hc
  cases hp
  cases errand <;> cases hwritten

end

/-- Where everything is settled, runs come to nothing. -/
lemma comesToNothing_of_settled {e : Execution} {t : Crowd} (hconducted : t.Conducted id)
    (hsettled : (t.plot id).Settled e) {c : Caller} (hc : c ∈ t.callers)
    (hrun : c.errand.IsRun) : c.ComesToNothing id e t.world := by
  obtain ⟨p, hp, hfollows⟩ := hconducted c hc
  have hbows : p.Bows e := hsettled.bows _ (List.mem_map_of_mem hc) p hp
  have hlooking : p.looking = true :=
    Phase.looking_of_bows hbows ((Part.isRun_eq hp).trans (decide_eq_true hrun))
  have hlooks := Part.looks hp hlooking
  obtain ⟨d, hd, hmarked⟩ := hsettled.record
  have hreturns : ∃ d, p.Returns d (t.world.view id) ∧ Marked e d := by
    cases p with
    | toRun => exact ⟨d, ⟨hd, hmarked.status⟩, hmarked⟩
    | leaving c => exact ⟨c, rfl, hbows⟩
    | left c => exact ⟨c, rfl, hbows⟩
    | _ => cases hlooking
  constructor
  case jobless =>
    intro job token hmem
    exact hlooks (.spawn token) (List.mem_filterMap.mpr ⟨_, hmem, rfl⟩)
  case writeless =>
    intro update result hmem
    exact hlooks (.write update result) (List.mem_filterMap.mpr ⟨_, hmem, if_pos rfl⟩)
  case returns =>
    obtain ⟨d, hreturns, hmarked⟩ := hreturns
    obtain ⟨errand, deeds, stage⟩ := c
    cases stage with
    | waiting token next =>
        obtain ⟨rfl, -⟩ := hfollows
        cases hlooking
    | going rest =>
        obtain ⟨v, hv, hrecord⟩ := hfollows.returns hreturns
        exact ⟨rest, v, d, rfl, hv, hmarked, hrecord⟩

section returned

variable {s : Crowd} {c : Caller} {d : Execution}

/-- Once a cancellation has returned, whoever employs a token employs one that has fired. -/
lemma hasFired_of_employs {token : Token} (hconducted : s.Conducted id)
    (hguarded : (s.plot id).Guarded token) (hc : c ∈ s.callers) (hcancel : c.errand = .cancel)
    (hreturned : c.Returned (.ok d)) {b : Caller} (hb : b ∈ s.callers) {held : Token}
    (hemploys : b.Employs held) : s.world.hasFired held = true := by
  obtain ⟨p, hp, hphase⟩ := Caller.phase_of_returned (hconducted c hc) hcancel hreturned
  obtain ⟨q, hq, hunderway⟩ := Caller.phase_of_employs (hconducted b hb) hemploys
  have hcmem := List.mem_map_of_mem (f := Caller.part id) hc
  have hbmem := List.mem_map_of_mem (f := Caller.part id) hb
  rcases hguarded.held with hidle | ⟨-, hfits⟩
  · have hdone := hidle _ hbmem
    rw [Part.active_iff hq] at hdone
    rcases hunderway with rfl | rfl <;> cases hdone
  · have hsame : held = token := by
      rcases hunderway with rfl | rfl <;> exact hfits _ hbmem _ hq
    have hfired := hfits _ hcmem p hp
    rcases hphase with ⟨fired, rfl⟩ | rfl
    · rw [hsame]
      exact hfired
    · exact False.elim hfired

/-- A cancellation that returns before any run has read the record settles it. -/
lemma settled_of_returned {e : Execution} (hconducted : s.Conducted id)
    (hawaited : (s.plot id).Awaited e) (hc : c ∈ s.callers) (hcancel : c.errand = .cancel)
    (hreturned : c.Returned (.ok d))
    (hunread : ∀ b ∈ s.callers, b.errand.IsRun → ¬b.HasRead id) : (s.plot id).Settled e := by
  obtain ⟨p, hp, hphase⟩ := Caller.phase_of_returned (hconducted c hc) hcancel hreturned
  have hwritten : p.hasWritten = true := by
    rcases hphase with ⟨fired, rfl⟩ | rfl <;> rfl
  have hnobody : (s.plot id).Unread := by
    intro b hb q hq
    obtain ⟨b', hb', rfl⟩ := List.mem_map.mp hb
    exact Part.unread hq fun hrun x hx => hunread b' hb' hrun (Caller.hasRead_of_touch hx)
  exact ⟨hawaited.written hnobody _ (List.mem_map_of_mem hc) p hp hwritten,
    fun b hb q hq => Phase.bows_of_unread (hnobody b hb q hq)⟩

end returned

/-- **No cancellation is lost.**  Let any number of callers cancel an execution and one at most
run it, in any order of their single operations.  Once a cancellation has returned, no runner is
at work on the execution, or will be, whose token has not fired.  And if the run had not read the
record by then, it comes to nothing, and the execution stays cancelled. -/
theorem no_cancellation_lost [Libraries] {before : World} {r : Request} {e : Execution}
    (hcreate : before.result? (Run.create r) = (w, some (.ok e)))
    (hone : errands.countP (fun errand => errand.IsRun) ≤ 1) {s : Crowd}
    (hs : Steps e.id (start w e.id errands) s) {c : Caller} (hc : c ∈ s.callers)
    (hcancel : c.errand = .cancel) {d : Execution} (hreturned : c.Returned (.ok d)) :
    (∀ t, Steps e.id s t → ∀ b ∈ t.callers, ∀ token, b.Employs token →
      t.world.hasFired token = true) ∧
    ((∀ b ∈ s.callers, b.errand.IsRun → ¬b.HasRead e.id) → ∀ t, Steps e.id s t →
      (∃ now, t.world.store.logbook.record? e.id
        = some (e.apply now { status := some .cancelled })) ∧
      ∀ b ∈ t.callers, b.errand.IsRun → b.ComesToNothing e.id e t.world) := by
  obtain ⟨token, htoken⟩ := Run.token_of_create hcreate
  have hrecord : w.store.logbook.record? e.id = some e := by
    rw [(Run.create_eq_ok hcreate).2.2, Logbook.record?_put, if_pos rfl]
  obtain ⟨hconducted, hplot⟩ := hs.plot (conducted_start w e.id errands)
  constructor
  · intro t ht b hb held hemploys
    obtain ⟨hconducted', hplot'⟩ := ht.plot hconducted
    have hguarded := (guarded_start htoken hone).steps (hplot.trans hplot')
    exact hasFired_of_employs hconducted' hguarded (ht.returned hc hreturned) hcancel hreturned hb
      hemploys
  · intro hunread t ht
    have hawaited := (awaited_start hrecord).steps hplot
    have hsettled := settled_of_returned hconducted hawaited hc hcancel hreturned hunread
    obtain ⟨hconducted', hplot'⟩ := ht.plot hconducted
    have hsettled' := hsettled.steps hplot'
    refine ⟨?_, fun b hb hrun => comesToNothing_of_settled hconducted' hsettled' hb hrun⟩
    obtain ⟨d', hd', now, rfl⟩ := hsettled'.record
    exact ⟨now, hd'⟩

section

open scoped Libraries.Lenient

/-- The execution of a project without suites, just recorded. -/
def recorded : Execution := (Request.forProject ⟨5⟩).toExecution ⟨1⟩ default

/-- It is cancelled before a run of it looks. -/
theorem no_cancellation_lost_before_run :
    ∃ s c d, Steps ⟨1⟩ (start (Run.demoWorld.result? (Run.create (.forProject ⟨5⟩))).1 ⟨1⟩
        [.run ⟨⟨"/work"⟩, 1000, .standard⟩, .cancel]) s
      ∧ c ∈ s.callers ∧ c.Returned (.ok d)
      ∧ ∀ t, Steps ⟨1⟩ s t → ∀ b ∈ t.callers, b.errand.IsRun →
        b.ComesToNothing ⟨1⟩ recorded t.world := by
  let idle := Caller.idle ⟨1⟩ (.run ⟨⟨"/work"⟩, 1000, .standard⟩)
  have hcreate : Run.demoWorld.result? (Run.create (.forProject ⟨5⟩))
      = ((Run.demoWorld.result? (Run.create (.forProject ⟨5⟩))).1, some (.ok recorded)) := rfl
  generalize (Run.demoWorld.result? (Run.create (.forProject ⟨5⟩))).1 = w at hcreate ⊢
  have hrecord : w.store.logbook.record? ⟨1⟩ = some recorded := by
    rw [(Run.create_eq_ok hcreate).2.2]
    exact (Logbook.record?_put ..).trans (if_pos rfl)
  obtain ⟨v, hv, -⟩ := Run.advance_cancel hrecord rfl
  obtain ⟨deeds, hmoves⟩ := moves_of_advance w [idle] [] .cancel [] (Run.cancel ⟨1⟩).run
  rw [hv] at hmoves
  have hs : Steps recorded.id
      (start w recorded.id [.run ⟨⟨"/work"⟩, 1000, .standard⟩, .cancel]) _ :=
    steps_of_moves _ hmoves
  have hlost := no_cancellation_lost hcreate (by decide) hs
    (List.mem_append_right _ (List.mem_singleton_self _)) rfl rfl
  refine ⟨_, _, _, hs, List.mem_append_right _ (List.mem_singleton_self _), rfl, fun t ht => ?_⟩
  refine (hlost.2 (fun b hb hrun => ?_) t ht).2
  rcases List.mem_cons.mp hb with rfl | hb
  · rintro ⟨found, hfound⟩
    cases hfound
  · obtain rfl := List.mem_singleton.mp hb
    cases hrun

end

end Crowd

end Rehearsal
