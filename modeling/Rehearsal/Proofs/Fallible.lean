import Mathlib

/-!
# Taking fallible computations apart

A computation that may fail is a chain of parts, and the first part that fails decides.  These
equivalences take such a chain apart, one part at a time, for a result and for a fault.

* `First`: in a list of parts, **what is wrong with the first of them that is not fine**.
* `bind_ok_iff_of`, `bind_eq_error_iff_of`: a chain succeeds if both its first part and the rest of
  it do, and fails in the one or in the other.
-/

namespace Rehearsal

variable {ε δ α β : Type}

lemma bind_eq_ok_iff {x : Except ε α} {f : α → Except ε β} {b : β} :
    x >>= f = .ok b ↔ ∃ a, x = .ok a ∧ f a = .ok b := by
  cases x <;> simp [bind, Except.bind]

lemma bind_eq_error_iff {x : Except ε α} {f : α → Except ε β} {e : ε} :
    x >>= f = .error e ↔ x = .error e ∨ ∃ a, x = .ok a ∧ f a = .error e := by
  cases x <;> simp [bind, Except.bind]

/-- A chain fails in its first part, or that part is fine and the rest of the chain fails. -/
lemma bind_eq_error_iff_of {x : Except ε α} {f : α → Except ε β} {e : ε} {W P Q : Prop}
    (herror : x = .error e ↔ W) (hok : (∃ a, x = .ok a) ↔ P)
    (hf : ∀ a, x = .ok a → (f a = .error e ↔ Q)) : x >>= f = .error e ↔ W ∨ P ∧ Q := by
  rw [bind_eq_error_iff, herror, ← hok]
  refine or_congr_right ⟨?_, ?_⟩
  · rintro ⟨a, ha, he⟩
    exact ⟨⟨a, ha⟩, (hf a ha).mp he⟩
  · rintro ⟨⟨a, ha⟩, hQ⟩
    exact ⟨a, ha, (hf a ha).mpr hQ⟩

/-- A chain succeeds if its first part does and the rest of it does. -/
lemma bind_ok_iff_of {x : Except ε α} {f : α → Except ε β} {P Q : Prop}
    (hok : (∃ a, x = .ok a) ↔ P) (hf : ∀ a, (∃ b, f a = .ok b) ↔ Q) :
    (∃ b, x >>= f = .ok b) ↔ P ∧ Q := by
  simp only [bind_eq_ok_iff, ← hok]
  constructor
  · rintro ⟨b, a, ha, hb⟩
    exact ⟨⟨a, ha⟩, (hf a).mp ⟨b, hb⟩⟩
  · rintro ⟨⟨a, ha⟩, hQ⟩
    obtain ⟨b, hb⟩ := (hf a).mpr hQ
    exact ⟨b, a, ha, hb⟩

/-- What is made of the result does not make it fail. -/
lemma bind_ok_eq_error_iff {x : Except ε α} {f : α → β} {e : ε} :
    x >>= (fun a => .ok (f a)) = .error e ↔ x = .error e := by
  cases x <;> simp [bind, Except.bind]

/-- A computation with a single fault fails with it where it has no result. -/
lemma eq_error_iff_of_only {x : Except ε α} {P : α → Prop} {d e : ε} (hok : ∀ a, x = .ok a ↔ P a)
    (honly : ∀ e, x = .error e → d = e) : x = .error e ↔ (∀ a, ¬P a) ∧ d = e := by
  simp only [← hok]
  cases x with
  | ok a => simp
  | error c => simp [honly c rfl]

/-- A computation that does not succeed fails. -/
lemma exists_error_iff {x : Except ε α} {P : Prop} (hok : (∃ a, x = .ok a) ↔ P) :
    (∃ e, x = .error e) ↔ ¬P := by
  rw [← hok]
  cases x <;> simp

lemma map_eq_ok_iff {x : Except ε α} {f : α → β} {b : β} :
    x.map f = .ok b ↔ ∃ a, x = .ok a ∧ f a = b := by
  cases x <;> simp [Except.map]

lemma map_eq_error_iff {x : Except ε α} {f : α → β} {e : ε} :
    x.map f = .error e ↔ x = .error e := by
  cases x <;> simp [Except.map]

lemma mapError_eq_ok_iff {x : Except ε α} {f : ε → δ} {a : α} :
    x.mapError f = .ok a ↔ x = .ok a := by
  cases x <;> simp [Except.mapError]

lemma mapError_eq_error_iff {x : Except ε α} {f : ε → δ} {d : δ} :
    x.mapError f = .error d ↔ ∃ e, x = .error e ∧ f e = d := by
  cases x <;> simp [Except.mapError]

/-! ## The first that is wrong -/

/-- Something in the list is wrong, and all that stands before it is fine. -/
def First (fine wrong : α → Prop) (as : List α) : Prop :=
  ∃ before a after, as = before ++ a :: after ∧ (∀ b ∈ before, fine b) ∧ wrong a

section first

variable {fine wrong : α → Prop} {as : List α}

lemma not_first_nil : ¬First fine wrong [] := by
  rintro ⟨before, a, after, h, -⟩
  simp at h

lemma first_cons {a : α} : First fine wrong (a :: as) ↔ wrong a ∨ fine a ∧ First fine wrong as := by
  constructor
  · rintro ⟨before, b, after, h, hfine, hwrong⟩
    cases before with
    | nil =>
        obtain ⟨rfl, -⟩ := List.cons.inj h
        exact .inl hwrong
    | cons c before =>
        obtain ⟨rfl, rfl⟩ := List.cons.inj h
        obtain ⟨hc, hbefore⟩ := List.forall_mem_cons.mp hfine
        exact .inr ⟨hc, before, b, after, rfl, hbefore, hwrong⟩
  · rintro (hwrong | ⟨hfine, before, b, after, rfl, hbefore, hwrong⟩)
    · exact ⟨[], a, as, rfl, by simp, hwrong⟩
    · exact ⟨a :: before, b, after, rfl, List.forall_mem_cons.mpr ⟨hfine, hbefore⟩, hwrong⟩

lemma first_congr {fine' wrong' : α → Prop} (hfine : ∀ a ∈ as, fine a ↔ fine' a)
    (hwrong : ∀ a ∈ as, wrong a ↔ wrong' a) : First fine wrong as ↔ First fine' wrong' as := by
  induction as with
  | nil => simp only [not_first_nil]
  | cons a as ih =>
      obtain ⟨hfine, hmore⟩ := List.forall_mem_cons.mp hfine
      obtain ⟨hwrong, hmore'⟩ := List.forall_mem_cons.mp hwrong
      rw [first_cons, first_cons, hfine, hwrong, ih hmore hmore']

lemma first_map (fine wrong : α → Prop) (f : β → α) (bs : List β) :
    First fine wrong (bs.map f) ↔ First (fun b => fine (f b)) (fun b => wrong (f b)) bs := by
  induction bs with
  | nil => simp only [List.map_nil, not_first_nil]
  | cons b bs ih => rw [List.map_cons, first_cons, first_cons, ih]

lemma exists_and_first_iff {P : ε → Prop} {faults : ε → α → Prop} :
    (∃ e, First fine (faults e) as ∧ P e) ↔ First fine (fun a => ∃ e, faults e a ∧ P e) as := by
  constructor
  · rintro ⟨e, ⟨before, a, after, has, hfine, hwrong⟩, hP⟩
    exact ⟨before, a, after, has, hfine, e, hwrong, hP⟩
  · rintro ⟨before, a, after, has, hfine, e, hwrong, hP⟩
    exact ⟨e, ⟨before, a, after, has, hfine, hwrong⟩, hP⟩

/-- What is found first is found in the first place where there is something to find. -/
lemma findSome?_eq_some_iff_first {f : α → Option β} {b : β} :
    as.findSome? f = some b ↔ First (f · = none) (f · = some b) as := by
  rw [List.findSome?_eq_some_iff, First]
  simp only [and_comm]

/-- A place that is passed over counts as one where there is nothing to find. -/
lemma findSome?_filter_eq_some_iff {p : α → Bool} {f : α → Option β} {b : β} :
    (as.filter p).findSome? f = some b
      ↔ First (fun a => p a → f a = none) (fun a => p a ∧ f a = some b) as := by
  rw [findSome?_eq_some_iff_first]
  induction as with
  | nil => simp only [List.filter_nil, not_first_nil]
  | cons a as ih =>
      rw [first_cons, ← ih]
      by_cases ha : p a
      · rw [List.filter_cons_of_pos ha, first_cons]
        simp only [ha, true_and, true_imp_iff]
      · rw [List.filter_cons_of_neg ha]
        simp only [ha, false_and, false_imp_iff, true_and, false_or, Bool.false_eq_true]

/-- Where there is something wrong, there is a first of it. -/
lemma exists_first_iff {faults : ε → α → Prop} (h : ∀ a ∈ as, (∃ e, faults e a) ↔ ¬fine a) :
    (∃ e, First fine (faults e) as) ↔ ¬∀ a ∈ as, fine a := by
  induction as with
  | nil => simp [not_first_nil]
  | cons a as ih =>
      obtain ⟨ha, hmore⟩ := List.forall_mem_cons.mp h
      simp only [first_cons, exists_or, exists_and_left, ha, ih hmore, List.forall_mem_cons]
      tauto

end first

end Rehearsal
