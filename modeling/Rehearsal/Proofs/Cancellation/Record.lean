import Mathlib
import Rehearsal.Proofs.Plot

/-!
# The record of an execution that no run has looked at

* `Plot.Awaited`: as long as no run has looked at the record, **nothing is written but that the
  execution is cancelled**.
* `Plot.Settled`: once that is written and no run has looked, no run will do more than look, and the
  execution **stays cancelled**.
-/

namespace Rehearsal

/-! ## Before a run looks -/

/-- The record of the execution as it was, but for being cancelled at some time. -/
def Marked (e d : Execution) : Prop := ∃ now, d = e.apply now { status := some .cancelled }

lemma Marked.status {e d : Execution} (h : Marked e d) : d.status = .cancelled := by
  obtain ⟨now, rfl⟩ := h
  rfl

/-- To cancel again changes no more than the time. -/
lemma Marked.again {e d : Execution} (h : d = e ∨ Marked e d) (now : Instant) :
    Marked e (d.apply now { status := some .cancelled }) := by
  rcases h with rfl | ⟨before, rfl⟩
  · exact ⟨now, rfl⟩
  · exact ⟨now, rfl⟩

/-- What is no writing leaves the record as it is. -/
lemma View.Turns.record_eq {v u : View} {t : Touch} (h : v.Turns t u) (hcreate : t ≠ .create)
    (hwrite : ∀ update x, t ≠ .write update x) : u.record = v.record := by
  cases h with
  | create => exact absurd rfl hcreate
  | write update now he => exact absurd rfl (hwrite _ _)
  | lose update fault hnone => exact absurd rfl (hwrite _ _)
  | _ => rfl

namespace Phase

/-- No run, or one that has not looked at the record. -/
def unread : Phase → Bool
  | leaving _ | left _ | found | holding _ | begun _ | launched _ | done => false
  | _ => true

lemma unread_of_after {p q : Phase} {t : Touch} (h : p.after t = some q) (hq : q.unread = true) :
    p.unread = true := by
  revert h
  fun_cases after p t <;> rintro ⟨⟩ <;> first | rfl | cases hq

/-- A cancellation that has written. -/
def hasWritten : Phase → Bool
  | written _ | facing _ _ | fired _ _ | missed _ => true
  | _ => false

lemma hasWritten_of_after {p q : Phase} {t : Touch} (h : p.after t = some q)
    (hq : q.hasWritten = true) (hwrite : ∀ update x, t ≠ .write update x) :
    p.hasWritten = true := by
  revert h
  fun_cases after p t <;> rintro ⟨⟩ <;> first | rfl | exact absurd rfl (hwrite _ _) | cases hq

/-- Among callers none of whom is a run that has looked, only cancellations write. -/
lemma cancels_of_unread {p q : Phase} {u : Update} {d : Execution} (hp : p.unread = true)
    (h : p.after (.write u (.ok d)) = some q) :
    u = { status := some .cancelled } ∧ q = written d := by
  rcases after_write_ok h with ⟨t, rfl, -⟩ | ⟨t, rfl | rfl, -⟩ | ⟨-, hu, hq⟩
  · cases hp
  · cases hp
  · cases hp
  · exact ⟨hu, hq⟩

end Phase

namespace Plot

variable {e : Execution} {s u : Plot}

/-- No run has looked at the record. -/
def Unread (s : Plot) : Prop := ∀ c ∈ s.parts, ∀ p, c.phase? = some p → p.unread = true

/-- As long as no run has looked, the record is what it was or cancelled; and it is cancelled, if
a cancellation has written. -/
structure Awaited (e : Execution) (s : Plot) : Prop where
  record : s.Unread → ∃ d, s.view.record = some d ∧ (d = e ∨ Marked e d)
  written : s.Unread → ∀ c ∈ s.parts, ∀ p, c.phase? = some p → p.hasWritten = true →
    ∃ d, s.view.record = some d ∧ Marked e d

section touch

variable {v w : View} {before after : List Part} {c : Part} {p q : Phase} {t : Touch}

/-- Where no run has looked, none had looked before. -/
lemma Unread.of_touch (h : Unread ⟨w, before ++ c.add t :: after⟩) (hp : c.phase? = some p)
    (hq : p.after t = some q) : Unread ⟨v, before ++ c :: after⟩ := by
  simp only [Unread, List.forall_mem_append, List.forall_mem_cons] at h ⊢
  obtain ⟨hbefore, hc, hafter⟩ := h
  refine ⟨hbefore, fun r hr => ?_, hafter⟩
  cases hp.symm.trans hr
  exact Phase.unread_of_after hq (hc q (Part.phase?_add_of_after hp hq))

/-- Whoever writes while no run has looked is a cancellation, so the record is cancelled then. -/
lemma Awaited.marked_of_write {update : Update} {x : Except Error Execution}
    (hs : Awaited e ⟨v, before ++ c :: after⟩) (hunread : Unread ⟨v, before ++ c :: after⟩)
    (hp : c.phase? = some p) (hq : p.after (.write update x) = some q)
    (hturns : v.Turns (.write update x) w) : ∃ d, w.record = some d ∧ Marked e d := by
  obtain ⟨d, hd, hde⟩ := hs.record hunread
  have hpUnread : p.unread = true := hunread c (by simp) p hp
  cases hturns with
  | lose update fault hnone => cases hnone.symm.trans hd
  | write update now he =>
      cases he.symm.trans hd
      obtain ⟨rfl, -⟩ := Phase.cancels_of_unread hpUnread hq
      exact ⟨_, rfl, .again hde now⟩

end touch

lemma Awaited.step (hs : s.Awaited e) (h : Step s u) : u.Awaited e := by
  cases h with
  | @other v u parts hspared =>
      constructor
      case record =>
        rw [hspared.record]
        exact hs.record
      case written =>
        rw [hspared.record]
        exact hs.written
  | @touch v u c p q t before after hp hq hturns =>
      have hback : Unread ⟨u, before ++ c.add t :: after⟩ → Unread ⟨v, before ++ c :: after⟩ :=
        fun hunread => hunread.of_touch hp hq
      by_cases hwrite : ∃ update x, t = .write update x
      · obtain ⟨update, x, rfl⟩ := hwrite
        have hmarked : Unread ⟨u, before ++ c.add (.write update x) :: after⟩ →
            ∃ d, u.record = some d ∧ Marked e d := fun hunread =>
          hs.marked_of_write (hback hunread) hp hq hturns
        exact ⟨fun hunread => (hmarked hunread).imp fun d hd => ⟨hd.1, .inr hd.2⟩,
          fun hunread _ _ _ _ _ => hmarked hunread⟩
      · have hwrite : ∀ update x, t ≠ .write update x := fun update x ht => hwrite ⟨update, x, ht⟩
        have hrecord := hturns.record_eq (Phase.ne_create hq) hwrite
        constructor
        case record =>
          rw [hrecord]
          exact fun hunread => hs.record (hback hunread)
        case written =>
          rw [hrecord]
          exact fun hunread => forall_touch hp hq (hs.written (hback hunread)) (fun _ hr => hr)
            fun hr hwritten => hr (Phase.hasWritten_of_after hq hwritten hwrite)

lemma Awaited.steps (hs : s.Awaited e) (h : Steps s u) : u.Awaited e :=
  h.keep (fun _ _ => Awaited.step) hs

end Plot

/-! ## Once it is written that the execution is cancelled -/

namespace Phase

/-- No run, or one that found the execution cancelled or will find it so. -/
def Bows (e : Execution) : Phase → Prop
  | leaving d | left d => Marked e d
  | found | holding _ | begun _ | launched _ | done => False
  | _ => True

lemma bows_of_unread {e : Execution} {p : Phase} (h : p.unread = true) : p.Bows e := by
  cases p <;> trivial

/-- While the record is cancelled, runs find it so. -/
lemma Bows.after {e d : Execution} {v u : View} {p q : Phase} {t : Touch} (hp : p.Bows e)
    (hq : p.after t = some q) (h : v.Turns t u) (hd : v.record = some d) (hmarked : Marked e d) :
    q.Bows e := by
  cases h with
  | create => exact absurd rfl (ne_create hq)
  | read =>
      rw [hd] at hq
      rcases after_read_some hq with ⟨rfl, -, rfl⟩ | ⟨rfl, hpending, -⟩ | ⟨rfl, -, hne, -⟩
        | ⟨-, rfl | rfl⟩
      · exact hmarked
      · cases hmarked.status.symm.trans hpending
      · exact absurd hmarked.status hne
      · trivial
      · trivial
  | write update now he =>
      rcases after_write_ok hq with ⟨t, rfl, -⟩ | ⟨t, -, -, rfl⟩ | ⟨-, -, rfl⟩
      · cases hp
      · exact hp
      · trivial
  | lose update fault hnone => cases hnone.symm.trans hd
  | claim ht =>
      obtain ⟨rfl, -⟩ := after_claim hq
      cases hp
  | issue t hnone =>
      obtain ⟨rfl, -⟩ := after_claim hq
      cases hp
  | find =>
      obtain ⟨c, -, rfl⟩ := after_find hq
      cases v.token <;> trivial
  | release =>
      rcases after_release hq with ⟨c, rfl, rfl⟩ | ⟨t, rfl | rfl, -⟩
      · exact hp
      · cases hp
      · cases hp
  | fire t =>
      obtain ⟨c, -, rfl⟩ := after_fire hq
      trivial
  | spawn t =>
      obtain ⟨rfl, -⟩ := after_spawn hq
      cases hp

end Phase

/-- Where no run goes further than to look, a cancelled record stays so. -/
lemma View.Turns.marked {e d : Execution} {v u : View} {p q : Phase} {t : Touch} (h : v.Turns t u)
    (hp : p.Bows e) (hq : p.after t = some q) (hd : v.record = some d) (hmarked : Marked e d) :
    ∃ d', u.record = some d' ∧ Marked e d' := by
  cases h with
  | create => exact absurd rfl (Phase.ne_create hq)
  | write update now he =>
      cases he.symm.trans hd
      rcases Phase.after_write_ok hq with ⟨t, rfl, -⟩ | ⟨t, rfl | rfl, -⟩ | ⟨-, rfl, -⟩
      · cases hp
      · cases hp
      · cases hp
      · exact ⟨_, rfl, .again (.inr hmarked) now⟩
  | _ => exact ⟨d, hd, hmarked⟩

namespace Plot

variable {e : Execution} {s u : Plot}

/-- The execution is cancelled, and no run will do more than look at it. -/
structure Settled (e : Execution) (s : Plot) : Prop where
  record : ∃ d, s.view.record = some d ∧ Marked e d
  bows : ∀ c ∈ s.parts, ∀ p, c.phase? = some p → p.Bows e

lemma Settled.step (hs : s.Settled e) (h : Step s u) : u.Settled e := by
  obtain ⟨d, hd, hmarked⟩ := hs.record
  cases h with
  | other parts hspared => exact ⟨⟨d, hspared.record.trans hd, hmarked⟩, hs.bows⟩
  | @touch v u c p q t before after hp hq hturns =>
      have hpBows : p.Bows e := hs.bows c (by simp) p hp
      exact ⟨hturns.marked hpBows hq hd hmarked, forall_touch hp hq hs.bows (fun _ hr => hr)
        fun hr => hr.after hq hturns hd hmarked⟩

lemma Settled.steps (hs : s.Settled e) (h : Steps s u) : u.Settled e :=
  h.keep (fun _ _ => Settled.step) hs

end Plot

end Rehearsal
