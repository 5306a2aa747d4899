import Mathlib
import Rehearsal.Proofs.Conduct

/-!
# The plot of a crowd

Of a crowd, only two things matter to an execution: what can be seen of it, and what each caller
has done to it so far.  Both together are the plot of the crowd.

* `Part.phase?`: what a caller has done tells the phase it is in.
* `Plot.Step`: a single step, in which **one caller touches the execution as its phase allows**.
* `Crowd.Steps.plot`: the steps of a crowd are steps of its plot, so what holds of all plots holds
  of all crowds.
-/

namespace Rehearsal

open Runner (Job Reply Token)
open Relation (ReflTransGen)

/-! ## Plots -/

/-- What a caller is there for, and what it has done to the execution. -/
structure Part where
  errand : Errand
  touches : List Touch

namespace Part

/-- One more touch. -/
def add (c : Part) (t : Touch) : Part := { c with touches := c.touches ++ [t] }

/-- The phase that the touches lead to, if all of them are allowed. -/
def phase? (c : Part) : Option Phase :=
  c.touches.foldl (fun p t => p.bind (·.after t)) (some (.start c.errand))

lemma phase?_add (c : Part) (t : Touch) : (c.add t).phase? = c.phase?.bind (·.after t) := by
  simp [phase?, add]

lemma phase?_add_of_after {c : Part} {p q : Phase} {t : Touch} (hp : c.phase? = some p)
    (hq : p.after t = some q) : (c.add t).phase? = some q := by
  rw [phase?_add, hp]
  exact hq

/-- What holds before the first touch and is kept by each of them holds of the phase that they
lead to. -/
lemma phase_induction {errand : Errand} {motive : List Touch → Phase → Prop}
    (start : motive [] (.start errand))
    (after : ∀ ts p t q, motive ts p → p.after t = some q → motive (ts ++ [t]) q)
    {ts : List Touch} {p : Phase} (h : (Part.mk errand ts).phase? = some p) : motive ts p := by
  induction ts using List.reverseRecOn generalizing p with
  | nil =>
      cases h
      exact start
  | append_singleton ts t ih =>
      rw [show Part.mk errand (ts ++ [t]) = (Part.mk errand ts).add t from rfl, phase?_add,
        Option.bind_eq_some_iff] at h
      obtain ⟨q, hq, hp⟩ := h
      exact after ts q t p (ih hq) hp

/-- Runs are in phases of runs, and cancellations are not. -/
lemma isRun_eq {c : Part} {p : Phase} (h : c.phase? = some p) :
    p.isRun = decide c.errand.IsRun := by
  obtain ⟨errand, ts⟩ := c
  refine phase_induction (motive := fun _ p => p.isRun = decide errand.IsRun) ?_ ?_ h
  · cases errand <;> rfl
  · exact fun ts p t q hp hq => (Phase.isRun_of_after hq).trans hp

end Part

/-- What can be seen of an execution, and what each caller has done to it. -/
structure Plot where
  view : View
  parts : List Part

namespace Plot

/-- A single step. -/
inductive Step : Plot → Plot → Prop
  | touch {v u : View} {c : Part} {p q : Phase} {t : Touch} (before after : List Part)
      (hp : c.phase? = some p) (hq : p.after t = some q) (h : v.Turns t u) :
      Step ⟨v, before ++ c :: after⟩ ⟨u, before ++ c.add t :: after⟩
  /-- Anything else that spares the execution. -/
  | other {v u : View} (parts : List Part) (h : v.Spared u) : Step ⟨v, parts⟩ ⟨u, parts⟩

/-- What steps lead to. -/
abbrev Steps : Plot → Plot → Prop := ReflTransGen Step

/-- What each step keeps, all steps keep. -/
lemma Steps.keep {motive : Plot → Prop} (hstep : ∀ s u, motive s → Step s u → motive u)
    {s u : Plot} (h : Steps s u) (hs : motive s) : motive u := by
  induction h with
  | refl => exact hs
  | tail _ hlast ih => exact hstep _ _ ih hlast

/-- A touch is a matter of one caller: what is known of the phases of all is still known of the
others, so the next phase of this one remains to be looked at. -/
lemma forall_touch {before after : List Part} {c : Part} {p q : Phase} {t : Touch}
    (hp : c.phase? = some p) (hq : p.after t = some q) {holds holdsLater : Phase → Prop}
    (h : ∀ b ∈ before ++ c :: after, ∀ r, b.phase? = some r → holds r)
    (hothers : ∀ r, holds r → holdsLater r) (hown : holds p → holdsLater q) :
    ∀ b ∈ before ++ c.add t :: after, ∀ r, b.phase? = some r → holdsLater r := by
  simp only [List.forall_mem_append, List.forall_mem_cons] at h ⊢
  obtain ⟨hbefore, hc, hafter⟩ := h
  refine ⟨fun b hb r hr => hothers r (hbefore b hb r hr), fun r hr => ?_,
    fun b hb r hr => hothers r (hafter b hb r hr)⟩
  cases (Part.phase?_add_of_after hp hq).symm.trans hr
  exact hown (hc p hp)

end Plot

/-- What a caller has done to the execution. -/
def Caller.part (id : Uuid) (c : Caller) : Part := ⟨c.errand, c.deeds.filterMap (Deed.touch? id)⟩

/-- What a crowd looks like from the execution. -/
def Crowd.plot (id : Uuid) (s : Crowd) : Plot := ⟨s.world.view id, s.callers.map (Caller.part id)⟩

namespace Caller

variable {id : Uuid} {w v : World} {c c' : Caller} {d : Deed}

/-- What a caller still has to do keeps to the phase that it has come to. -/
def Follows (id : Uuid) (p : Phase) : Stage → Prop
  | .going rest => Obeys id Phase.Ends rest p
  | .waiting token next => p = .launched token ∧ ∀ reply, Obeys id Phase.Ends (next reply) p

/-- A caller that has kept to the phases, and will. -/
def Conducted (id : Uuid) (c : Caller) : Prop :=
  ∃ p, (c.part id).phase? = some p ∧ Follows id p c.stage

lemma conducted_idle [Libraries] (id : Uuid) (errand : Errand) : (idle id errand).Conducted id :=
  ⟨.start errand, rfl, obeys_call id errand⟩

lemma Moves.deeds_eq (h : c.Moves w d v c') : c'.deeds = c.deeds ++ [d] := by
  cases h <;> rfl

/-- A deed adds its touch, if it has one. -/
lemma Moves.part_eq (h : c.Moves w d v c') (id : Uuid) :
    c'.part id = (d.touch? id).elim (c.part id) (c.part id).add := by
  rw [part, part, h.errand_eq, h.deeds_eq, List.filterMap_append]
  cases ht : d.touch? id with
  | none => simp [ht]
  | some t => simp [ht, Part.add]

/-- A move leads to the next phase, and what is still to be done keeps to that. -/
lemma Moves.follows (h : c.Moves w d v c') {p : Phase} (hp : Follows id p c.stage) :
    ∃ q, p.next? id d = some q ∧ Follows id q c'.stage := by
  cases h with
  | act errand deeds operation next => exact hp _
  | spawn errand deeds job token next =>
      obtain ⟨q, hq, hnext⟩ := hp
      refine ⟨q, hq, ?_, hnext⟩
      -- A job is allowed in one phase only, with one token.
      cases p with
      | begun t =>
          have hspawn : (if token = t then some (Phase.launched t) else none) = some q := hq
          split_ifs at hspawn with htoken
          cases hspawn
          rw [htoken]
      | _ => cases hq
  | reply errand deeds token next r => exact ⟨p, rfl, hp.2 r⟩

lemma Moves.conducted (h : c.Moves w d v c') (hc : c.Conducted id) : c'.Conducted id := by
  obtain ⟨p, hp, hfollows⟩ := hc
  obtain ⟨q, hq, hnext⟩ := h.follows hfollows
  refine ⟨q, ?_, hnext⟩
  rw [h.part_eq]
  rw [Phase.next?] at hq
  cases ht : d.touch? id with
  | none =>
      rw [ht] at hq
      exact hp.trans hq
  | some t =>
      rw [ht] at hq
      rw [Option.elim_some, Part.phase?_add, hp]
      exact hq

end Caller

namespace Crowd

variable {id : Uuid} {s t : Crowd}

/-- Every caller keeps to the phases. -/
def Conducted (id : Uuid) (s : Crowd) : Prop := ∀ c ∈ s.callers, c.Conducted id

lemma conducted_start [Libraries] (w : World) (id : Uuid) (errands : List Errand) :
    (start w id errands).Conducted id := by
  intro c hc
  obtain ⟨errand, -, rfl⟩ := List.mem_map.mp hc
  exact Caller.conducted_idle id errand

/-- A step of a crowd is a step of its plot. -/
lemma Step.plot (h : Step id s t) (hs : s.Conducted id) :
    t.Conducted id ∧ Plot.Step (s.plot id) (t.plot id) := by
  cases h with
  | other w v callers hspared => exact ⟨hs, .other _ hspared⟩
  | move hmove =>
      obtain @⟨w, v, c, c', d, before, after, hmove⟩ := hmove
      have hc : c.Conducted id := hs c (by simp)
      have hothers : ∀ b ∈ before ++ c' :: after, b.Conducted id := by
        intro b hb
        rcases List.mem_append.mp hb with hb | hb
        · exact hs b (List.mem_append_left _ hb)
        · rcases List.mem_cons.mp hb with rfl | hb
          · exact hmove.conducted hc
          · exact hs b (List.mem_append_right _ (List.mem_cons_of_mem _ hb))
      refine ⟨hothers, ?_⟩
      have hview := hmove.turns id
      have hpart := hmove.part_eq id
      obtain ⟨p, hp, hfollows⟩ := hc
      obtain ⟨q, hq, -⟩ := hmove.follows hfollows
      rw [Phase.next?] at hq
      simp only [plot, List.map_append, List.map_cons, hpart]
      cases ht : d.touch? id with
      | none =>
          rw [ht] at hview
          rw [show v.view id = w.view id from hview]
          exact .other _ (.refl _)
      | some touch =>
          rw [ht] at hview hq
          exact .touch _ _ hp hq hview

/-- **The steps of a crowd are steps of its plot.** -/
theorem Steps.plot (h : Steps id s t) (hs : s.Conducted id) :
    t.Conducted id ∧ Plot.Steps (s.plot id) (t.plot id) := by
  induction h with
  | refl => exact ⟨hs, .refl⟩
  | tail _ hstep ih =>
      obtain ⟨hconducted, hsteps⟩ := ih
      obtain ⟨hlater, hlast⟩ := hstep.plot hconducted
      exact ⟨hlater, hsteps.tail hlast⟩

end Crowd

end Rehearsal
