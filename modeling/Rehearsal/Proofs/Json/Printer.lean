import Mathlib
import Rehearsal.Json.Printer
import Rehearsal.Proofs.Text.Line

/-!
# A compact document is one line

Strings are quoted and everything else is made of printable characters, so the compact text of
a value never holds a line feed (`oneLine_compact`).  The induction is on the value together
with the lists of its items and members.
-/

namespace Rehearsal.Json

open Text

/-! ## Numbers -/

/-- What numbers are written with. -/
def Numeric (c : Char) : Prop := c.isDigit = true ∨ c ∈ ['.', 'e', '-', '+']

instance : DecidablePred Numeric := fun c =>
  inferInstanceAs (Decidable (c.isDigit = true ∨ c ∈ ['.', 'e', '-', '+']))

/-- A text of nothing but what numbers are written with. -/
def Spelled (s : String) : Prop := ∀ c ∈ s.toList, Numeric c

instance (s : String) : Decidable (Spelled s) := List.decidableBAll Numeric s.toList

@[simp] lemma spelled_append {s t : String} : Spelled (s ++ t) ↔ Spelled s ∧ Spelled t := by
  simp only [Spelled, String.toList_append, List.forall_mem_append]

lemma spelled_ofList {cs : List Char} :
    Spelled (String.ofList cs) ↔ ∀ c ∈ cs, Numeric c := by
  rw [Spelled, String.toList_ofList]

lemma spelled_toDigits (n : Nat) : Spelled (String.ofList (Nat.toDigits 10 n)) :=
  spelled_ofList.mpr fun _ hc => .inl (Nat.isDigit_of_mem_toDigits (by decide) (by decide) hc)

@[simp] lemma spelled_digits (n : Nat) : Spelled (Number.digits n) := spelled_toDigits n

@[simp] lemma spelled_zeros (n : Nat) : Spelled (Number.zeros n) := by
  refine spelled_ofList.mpr fun c hc => ?_
  rw [List.eq_of_mem_replicate hc]
  decide

lemma spelled_layout {ds : List Char} (h : Spelled (String.ofList ds)) (lead : Int) :
    Spelled (Number.layout ds lead) := by
  have hall := spelled_ofList.mp h
  have htake : ∀ k, Spelled (String.ofList (ds.take k)) :=
    fun k => spelled_ofList.mpr fun c hc => hall c (List.mem_of_mem_take hc)
  have hdrop : ∀ k, Spelled (String.ofList (ds.drop k)) :=
    fun k => spelled_ofList.mpr fun c hc => hall c (List.mem_of_mem_drop hc)
  have hfixed : Spelled "." ∧ Spelled "0." ∧ Spelled ".0" ∧ Spelled "e" ∧ Spelled "-"
      ∧ Spelled "+" ∧ Spelled "" := by decide +kernel
  obtain ⟨hpoint, hlead, htail, he, hminus, hplus, hnone⟩ := hfixed
  simp only [Number.layout]
  split_ifs <;>
    simp only [spelled_append, spelled_zeros, spelled_digits, h, htake, hdrop, hpoint, hlead,
      htail, he, hminus, hplus, hnone, and_self]

lemma spelled_text (n : Number) : Spelled n.text := by
  have hminus : Spelled "-" := by decide
  cases n with
  | int n =>
      simp only [Number.text, Number.intText]
      split_ifs <;> simp only [spelled_append, hminus, spelled_digits, and_self]
  | real x =>
      have hzero : Spelled "0.0" := by decide
      simp only [Number.text, Number.realText]
      split_ifs <;>
        simp only [spelled_append, hminus, hzero, spelled_layout (spelled_toDigits _), and_self]

lemma Spelled.unbroken {s : String} (h : Spelled s) : Unbroken s := by
  intro c hc
  have hnumeric := h c hc
  constructor <;> rintro rfl <;> exact absurd hnumeric (by decide)

lemma Spelled.oneLine {s : String} (h : Spelled s) : OneLine s := h.unbroken.oneLine

@[simp] lemma unbroken_digits (n : Nat) : Unbroken (Number.digits n) := (spelled_digits n).unbroken

@[simp] lemma oneLine_digits (n : Nat) : OneLine (Number.digits n) := (spelled_digits n).oneLine

lemma digits_inj {m n : Nat} : Number.digits m = Number.digits n ↔ m = n := by
  rw [Number.digits, Number.digits, ← Nat.repr_eq_ofList_toDigits, ← Nat.repr_eq_ofList_toDigits]
  exact ⟨fun h => Nat.repr_injective h, congrArg Nat.repr⟩

/-! ## Values -/

lemma oneLine_joinWith {separator : String} (hs : OneLine separator) :
    ∀ {ts : List String}, (∀ t ∈ ts, OneLine t) → OneLine (joinWith separator ts)
  | [], _ => by simp [joinWith, OneLine]
  | [t], h => h t (by simp)
  | t :: u :: ts, h => by
      rw [joinWith, oneLine_append, oneLine_append]
      · exact ⟨⟨h t (by simp), hs⟩, oneLine_joinWith hs fun v hv => h v (by simp [hv])⟩
      · simp

/-- The comma between items and members. -/
lemma oneLine_comma : OneLine "," := by
  decide

mutual

/-- **The compact text of a value is one line.** -/
lemma oneLine_compact : ∀ v : Value, OneLine v.compact
  | .null => by simp only [Value.compact]; decide
  | .bool b => by cases b <;> simp only [Value.compact] <;> decide
  | .num n => by simpa only [Value.compact] using (spelled_text n).oneLine
  | .str s => by simp only [Value.compact, oneLine_quote]
  | .arr items => by
      have h := oneLine_joinWith oneLine_comma (oneLine_itemTexts items)
      simp only [Value.compact, oneLine_append, h, and_true]
      decide
  | .obj members => by
      have h := oneLine_joinWith oneLine_comma (oneLine_memberTexts members)
      simp only [Value.compact, oneLine_append, h, and_true]
      decide

lemma oneLine_itemTexts : ∀ vs : List Value, ∀ t ∈ itemTexts vs, OneLine t
  | [], t, h => by simp [itemTexts] at h
  | v :: vs, t, h => by
      rcases List.mem_cons.mp h with rfl | h
      · exact oneLine_compact v
      · exact oneLine_itemTexts vs t h

lemma oneLine_memberTexts : ∀ ms : List (String × Value), ∀ t ∈ memberTexts ms, OneLine t
  | [], t, h => by simp [memberTexts] at h
  | (name, v) :: ms, t, h => by
      rcases List.mem_cons.mp h with rfl | h
      · have hcolon : OneLine ":" := by decide
        simp [hcolon, oneLine_compact v]
      · exact oneLine_memberTexts ms t h

end

end Rehearsal.Json
