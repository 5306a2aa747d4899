import Mathlib
import Rehearsal.Proofs.Check
import Rehearsal.Proofs.Configuration.Merge

/-!
# Which settings are accepted

* `Configuration.WellTyped`: what may stand under a key.  A key that is not recognised may hold
  anything.
* `Configuration.wellTyped_iff`: that is, the value says something there.
* `Configuration.checks_merged`: bags are accepted **just when every setting in every one of them
  is well-typed**, whether a later bag replaces it or not.
-/

namespace Rehearsal

open Json (Value Bag)

/-! ## Single settings -/

/-- A reporter is a name, or a list of a name, perhaps its options, and whatever follows them. -/
inductive Reporter.WellTyped : Value → Prop
  | name (s : String) : WellTyped (.str s)
  | alone (s : String) : WellTyped (.arr [.str s])
  | options (s : String) (options : Bag) (rest : List Value) :
      WellTyped (.arr (.str s :: .obj options :: rest))

namespace Configuration

/-- What may stand under a key. -/
def WellTyped (key : String) (v : Value) : Prop :=
  if key = "timeout" then ∃ n : Nat, v = .num (.int n)
  else if key = "retries" then ∃ n : Nat, n < 0x100000000 ∧ v = .num (.int n)
  else if key = "headless" then ∃ b, v = .bool b
  else if key = "viewport" then ∃ p, v.decode Viewport.reader = some p
  else if key = "screenshot" then ∃ s ∈ ["off", "on", "only-on-failure"], v = .str s
  else if key = "reporter" then ∃ items, v = .arr items ∧ ∀ i ∈ items, Reporter.WellTyped i
  else if key = "browsers" then
    ∃ b bs, v.decode (Json.Reader.list Browser.reader) = some (b :: bs)
  else if key = "workers" then ∃ n : Nat, n < 0x100000000 ∧ v = .num (.int n)
  else True

end Configuration

lemma Reporter.wellTyped_iff {v : Value} : WellTyped v ↔ ∃ r, Says v r := by
  constructor
  · rintro (s | s | ⟨s, options, rest⟩)
    · exact ⟨_, .name s⟩
    · exact ⟨_, .alone s⟩
    · exact ⟨_, .options s options rest⟩
  · rintro ⟨_, s | s | ⟨s, options, rest⟩⟩
    · exact .name s
    · exact .alone s
    · exact .options s options rest

lemma Reporter.forall_wellTyped_iff {items : List Value} :
    (∀ i ∈ items, WellTyped i) ↔ ∃ rs, List.Forall₂ Says items rs := by
  simp only [wellTyped_iff]
  induction items with
  | nil => simp
  | cons i items ih =>
      rw [List.forall_mem_cons, ih]
      constructor
      · rintro ⟨⟨r, hr⟩, rs, hrs⟩
        exact ⟨r :: rs, .cons hr hrs⟩
      · rintro ⟨_, _ | ⟨hr, hrs⟩⟩
        exact ⟨⟨_, hr⟩, _, hrs⟩

namespace Configuration

/-- A value is well-typed under a key just when it says something there. -/
lemma wellTyped_name_iff {k : Key} {v : Value} : WellTyped k.name v ↔ ∃ x, k.Says v x := by
  cases k with
  | timeout => exact Iff.rfl
  | retries => exact Iff.rfl
  | headless => exact Iff.rfl
  | viewport => exact exists_congr fun _ => decode_viewport_iff
  | screenshot =>
      constructor
      · rintro ⟨s, hs, rfl⟩
        simp only [List.mem_cons, List.not_mem_nil, or_false] at hs
        rcases hs with rfl | rfl | rfl
        · exact ⟨.off, rfl⟩
        · exact ⟨.on, rfl⟩
        · exact ⟨.onlyOnFailure, rfl⟩
      · rintro ⟨m, rfl⟩
        refine ⟨m.name, ?_, rfl⟩
        cases m <;> decide
  | reporter =>
      constructor
      · rintro ⟨items, rfl, hitems⟩
        obtain ⟨rs, hrs⟩ := Reporter.forall_wellTyped_iff.mp hitems
        exact ⟨rs, items, rfl, hrs⟩
      · rintro ⟨rs, items, rfl, hrs⟩
        exact ⟨items, rfl, Reporter.forall_wellTyped_iff.mpr ⟨rs, hrs⟩⟩
  | browsers =>
      constructor
      · rintro ⟨b, bs, h⟩
        exact ⟨b :: bs, List.cons_ne_nil b bs, decode_browsers_iff.mp h⟩
      · rintro ⟨bs, hne, h⟩
        obtain ⟨b, bs, rfl⟩ := List.exists_cons_of_ne_nil hne
        exact ⟨b, bs, decode_browsers_iff.mpr h⟩
  | workers =>
      constructor
      · rintro ⟨n, hn⟩
        exact ⟨some n, n, rfl, hn⟩
      · rintro ⟨_, n, rfl, hn⟩
        exact ⟨n, hn⟩

lemma wellTyped_iff {m : String × Value} : WellTyped m.1 m.2 ↔ WellSet m := by
  obtain ⟨key, v⟩ := m
  by_cases hkey : key ∈ Key.names
  · obtain ⟨k, rfl⟩ := Key.mem_names_iff.mp hkey
    exact wellTyped_name_iff.trans wellSet_name.symm
  · refine iff_of_true ?_ fun k hk => absurd (Key.mem_names_iff.mpr ⟨k, hk⟩) hkey
    simp only [Key.names, List.mem_cons, List.not_mem_nil, or_false, not_or] at hkey
    simp only [WellTyped, hkey, if_false]

/-! ## Bags -/

lemma Refused32.category {key : String} {v : Value} {e : Error} (h : Refused32 key v e) :
    e.category = .validation := by
  cases h <;> rfl

/-- What is refused is not valid. -/
lemma Key.Refuses.category {k : Key} {v : Value} {e : Error} (h : k.Refuses v e) :
    e.category = .validation := by
  cases h with
  | retries _ _ h => exact h.category
  | workers _ _ h => exact h.category
  | reporter _ _ h =>
      obtain ⟨_, _, _, _, _, hitem⟩ := h
      cases hitem <;> rfl
  | _ => rfl

/-- Bags are accepted just when all settings in them are well-typed. -/
theorem checks_merged (bags : List Bag) :
    Checks (merged bags) (∀ bag ∈ bags, ∀ e ∈ bag, WellTyped e.1 e.2) := by
  constructor
  · simp only [wellTyped_iff]
    exact overlayAll_ok_iff
  · intro e he
    obtain ⟨_, bag, _, _, _, _, m, _, _, _, k, _, hrefused⟩ := overlayAll_eq_error_iff.mp he
    simp [hrefused.category]

end Configuration

end Rehearsal
