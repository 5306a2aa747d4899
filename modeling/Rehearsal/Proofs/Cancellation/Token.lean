import Mathlib
import Rehearsal.Proofs.Plot

/-!
# The token of an execution with one run

The run gets hold of the token that was there at first, and so does every cancellation, until the
run is done and releases it.

* `Plot.Guarded`: the invariant.  Either the run is done, or **the token that was there at first is
  still there**, and everybody who holds a token holds this one.
-/

namespace Rehearsal

open Runner (Token)

/-! ## Who holds the token -/

namespace Phase

/-- A run that is not done. -/
def active : Phase → Bool
  | toRun | leaving _ | found | holding _ | begun _ | launched _ => true
  | _ => false

/-- What is done stays done. -/
lemma active_of_after {p q : Phase} {t : Touch} (h : p.after t = some q) (hq : q.active = true) :
    p.active = true := by
  revert h
  fun_cases after p t <;> rintro ⟨⟩ <;> first | rfl | cases hq

/-- Releasing the token is the last thing that a run does to it. -/
lemma active_of_release {p q : Phase} (h : p.after .release = some q) :
    p.active = true ∧ q.active = false := by
  rcases after_release h with ⟨e, rfl, rfl⟩ | ⟨t, rfl | rfl, rfl⟩ <;> exact ⟨rfl, rfl⟩

/-- A caller in this phase holds no other token than the given one, and if it has fired one, this
one has fired. -/
def Fits (token : Token) (v : View) : Phase → Prop
  | holding t | begun t | launched t | facing _ t => t = token
  | fired _ _ => v.fired token = true
  | missed _ => False
  | _ => True

/-- Firings are not taken back. -/
lemma Fits.mono {token : Token} {v u : View} {p : Phase} (h : p.Fits token v)
    (hfired : v.fired token = true → u.fired token = true) : p.Fits token u := by
  cases p with
  | fired d t => exact hfired h
  | _ => exact h

end Phase

/-- Before it is released, the token stays, and no firing is taken back. -/
lemma View.Turns.keeps {v u : View} {t : Touch} {token : Token} (h : v.Turns t u)
    (htoken : v.token = some token) (hcreate : t ≠ .create) (hrelease : t ≠ .release) :
    u.token = some token ∧ (v.fired token = true → u.fired token = true) := by
  cases h with
  | create => exact absurd rfl hcreate
  | issue t hnone => cases hnone.symm.trans htoken
  | release => exact absurd rfl hrelease
  | fire t => exact ⟨htoken, fun hf => by simp [hf]⟩
  | _ => exact ⟨htoken, id⟩

/-- Whatever a caller does to the execution, it gets hold of no other token. -/
lemma Phase.Fits.after {v u : View} {p q : Phase} {t : Touch} {token : Token}
    (hp : p.Fits token v) (hq : p.after t = some q) (h : v.Turns t u)
    (htoken : v.token = some token) (hrelease : t ≠ .release) : q.Fits token u := by
  cases h with
  | create => exact absurd rfl (ne_create hq)
  | read =>
      cases hr : v.record with
      | none =>
          rw [hr] at hq
          rcases after_read_none hq with ⟨-, rfl⟩ | ⟨-, rfl⟩ <;> trivial
      | some e =>
          rw [hr] at hq
          rcases after_read_some hq with ⟨-, -, rfl⟩ | ⟨-, -, rfl⟩ | ⟨-, -, -, rfl⟩
            | ⟨-, rfl | rfl⟩ <;> trivial
  | write update now he =>
      rcases after_write_ok hq with ⟨t, rfl, -, rfl⟩ | ⟨t, -, -, rfl⟩ | ⟨-, -, rfl⟩
      · exact hp
      · exact hp.mono id
      · trivial
  | lose update fault hnone =>
      rcases after_write_error hq with ⟨t, -, rfl⟩ | ⟨t, -, rfl⟩ | ⟨-, rfl⟩
      · trivial
      · exact hp
      · trivial
  | claim ht =>
      obtain ⟨-, rfl⟩ := after_claim hq
      exact Option.some.inj (ht.symm.trans htoken)
  | issue t hnone => cases hnone.symm.trans htoken
  | find =>
      obtain ⟨d, -, rfl⟩ := after_find hq
      rw [htoken]
      rfl
  | release => exact absurd rfl hrelease
  | fire t =>
      obtain ⟨d, rfl, rfl⟩ := after_fire hq
      have htt : t = token := hp
      simp [Fits, htt]
  | spawn t =>
      obtain ⟨rfl, rfl⟩ := after_spawn hq
      exact hp

/-- A run that is not done. -/
def Part.active (c : Part) : Bool := c.phase?.any Phase.active

lemma Part.active_iff {c : Part} {p : Phase} (h : c.phase? = some p) :
    c.active = p.active := by
  rw [active, h]
  rfl

/-- A touch brings no run back to work. -/
lemma Part.active_of_add {c : Part} {p q : Phase} {t : Touch} (hp : c.phase? = some p)
    (hq : p.after t = some q) (h : (c.add t).active = true) : c.active = true := by
  rw [active_iff (phase?_add_of_after hp hq)] at h
  rw [active_iff hp]
  exact Phase.active_of_after hq h

/-! ## The invariant -/

namespace Plot

/-- The invariant: there is one run at most; if it is not done, the token is there, and everybody
who holds one holds this one. -/
structure Guarded (token : Token) (s : Plot) : Prop where
  single : s.parts.countP Part.active ≤ 1
  held : (∀ c ∈ s.parts, c.active = false)
    ∨ s.view.token = some token ∧ ∀ c ∈ s.parts, ∀ p, c.phase? = some p → p.Fits token s.view

variable {token : Token} {s u : Plot}

/-- Whoever else may be there, only one run is not done. -/
lemma Guarded.alone {v : View} {before after : List Part} {c : Part}
    (hs : Guarded token ⟨v, before ++ c :: after⟩) (hc : c.active = true) :
    ∀ b ∈ before ++ after, b.active = false := by
  have hsingle := hs.single
  simp only [List.countP_append, List.countP_cons, hc, if_true] at hsingle
  have hnone : (before ++ after).countP Part.active = 0 := by
    rw [List.countP_append]
    omega
  intro b hb
  simpa using List.countP_eq_zero.mp hnone b hb

section touch

variable {before after : List Part} {c : Part} {p q : Phase} {t : Touch}

/-- No more runs are at work after a touch than before. -/
lemma countP_active_touch (hp : c.phase? = some p) (hq : p.after t = some q) :
    (before ++ c.add t :: after).countP Part.active
      ≤ (before ++ c :: after).countP Part.active := by
  simp only [List.countP_append, List.countP_cons]
  by_cases hc : (c.add t).active = true
  · simp only [hc, Part.active_of_add hp hq hc, if_true, le_refl]
  · simp only [hc, Bool.false_eq_true, if_false]
    omega

/-- Where all runs are done, they stay so. -/
lemma idle_touch (hp : c.phase? = some p) (hq : p.after t = some q)
    (hidle : ∀ b ∈ before ++ c :: after, b.active = false) :
    ∀ b ∈ before ++ c.add t :: after, b.active = false := by
  simp only [List.forall_mem_append, List.forall_mem_cons] at hidle ⊢
  obtain ⟨hbefore, hc, hafter⟩ := hidle
  refine ⟨hbefore, Bool.eq_false_iff.mpr fun hadd => ?_, hafter⟩
  cases hc.symm.trans (Part.active_of_add hp hq hadd)

end touch

lemma Guarded.step (hs : s.Guarded token) (h : Step s u) : u.Guarded token := by
  cases h with
  | other parts hspared =>
      refine ⟨hs.single, hs.held.imp_right fun ⟨htoken, hfits⟩ => ⟨hspared.token.trans htoken, ?_⟩⟩
      exact fun c hc p hp => (hfits c hc p hp).mono (hspared.fired token)
  | @touch v u c p q t before after hp hq hturns =>
      refine ⟨(countP_active_touch hp hq).trans hs.single, ?_⟩
      rcases hs.held with hidle | ⟨htoken, hfits⟩
      · exact .inl (idle_touch hp hq hidle)
      · by_cases hrelease : t = .release
        · -- The one run that is not done releases the token, and is done.
          subst hrelease
          obtain ⟨hpActive, hqActive⟩ := Phase.active_of_release hq
          have halone := hs.alone ((Part.active_iff hp).trans hpActive)
          have hadd := Part.phase?_add_of_after hp hq
          simp only [List.forall_mem_append, List.forall_mem_cons] at halone ⊢
          exact .inl ⟨halone.1, (Part.active_iff hadd).trans hqActive, halone.2⟩
        · obtain ⟨htoken', hfired⟩ := hturns.keeps htoken (Phase.ne_create hq) hrelease
          exact .inr ⟨htoken', forall_touch hp hq hfits (fun r hr => hr.mono hfired)
            fun hr => hr.after hq hturns htoken hrelease⟩

lemma Guarded.steps (hs : s.Guarded token) (h : Steps s u) : u.Guarded token :=
  h.keep (fun _ _ => Guarded.step) hs

end Plot

end Rehearsal
