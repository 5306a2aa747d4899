import Mathlib
import Rehearsal.Error
import Rehearsal.Proofs.Fallible

/-!
# Checks

Planning is a chain of checks.  Each one decides a condition on what is stored, and what it
reports when the condition fails is a fault of what is stored, never one of carrying a plan out.

* `Checks x P`: the computation `x` **succeeds just when `P` holds**; its faults are not of the
  class `Category.execution`.
* `Checks.bind`: a chain of checks decides the conjunction.
-/

namespace Rehearsal

variable {α β : Type} {P Q : Prop} {x : Except Error α}

/-- A computation that decides a condition, with faults that are no faults of carrying out. -/
structure Checks (x : Except Error α) (P : Prop) : Prop where
  ok_iff : (∃ a, x = .ok a) ↔ P
  fault : ∀ e, x = .error e → e.category ≠ .execution

namespace Checks

lemma ok {a : α} (hP : P) : Checks (.ok a) P :=
  ⟨iff_of_true ⟨a, rfl⟩ hP, fun _ he => by cases he⟩

lemma error {e : Error} (he : e.category ≠ .execution) (hP : ¬P) :
    Checks (.error e : Except Error α) P :=
  ⟨iff_of_false (fun ⟨_, ha⟩ => by cases ha) hP, fun d hd => by cases hd; exact he⟩

/-- The condition may be put in other words. -/
lemma congr (hx : Checks x P) (h : P ↔ Q) : Checks x Q :=
  ⟨hx.ok_iff.trans h, hx.fault⟩

lemma bind {f : α → Except Error β} (hx : Checks x P)
    (hf : ∀ a, x = .ok a → Checks (f a) Q) : Checks (x >>= f) (P ∧ Q) := by
  cases x with
  | ok a =>
      have hP : P := hx.ok_iff.mp ⟨a, rfl⟩
      exact (hf a rfl).congr (and_iff_right hP).symm
  | error e =>
      have hP : ¬P := fun h => by
        obtain ⟨a, ha⟩ := hx.ok_iff.mpr h
        cases ha
      exact error (hx.fault e rfl) fun h => hP h.1

/-- What is made of the result does not matter. -/
lemma bind_ok {f : α → β} (hx : Checks x P) : Checks (x >>= fun a => .ok (f a)) P :=
  (hx.bind fun _ _ => ok trivial).congr (and_iff_left trivial)

lemma map {f : α → β} (hx : Checks x P) : Checks (x.map f) P := by
  refine ⟨Iff.trans ?_ hx.ok_iff, fun e he => hx.fault e (map_eq_error_iff.mp he)⟩
  simp [map_eq_ok_iff]

/-- A fault may be put in other words, as long as it stays out of its class. -/
lemma mapError {g : Error → Error} (hx : Checks x P)
    (hg : ∀ e : Error, e.category ≠ .execution → (g e).category ≠ .execution) :
    Checks (x.mapError g) P := by
  refine ⟨Iff.trans ?_ hx.ok_iff, fun d hd => ?_⟩
  · simp [mapError_eq_ok_iff]
  · obtain ⟨e, he, rfl⟩ := mapError_eq_error_iff.mp hd
    exact hg e (hx.fault e he)

/-- A condition that is tested first. -/
lemma ite {c : Prop} [Decidable c] {e : Error} (he : e.category ≠ .execution)
    (hx : ¬c → Checks x P) : Checks (if c then .error e else x) (¬c ∧ P) := by
  by_cases hc : c
  · rw [if_pos hc]
    exact error he fun h => h.1 hc
  · rw [if_neg hc]
    exact (hx hc).congr (and_iff_right hc).symm

end Checks

end Rehearsal
