import Mathlib
import Rehearsal.Text.Blank
import Rehearsal.Proofs.Text.Literal

/-!
# Texts that stay on one line

A generated file is read line by line, so what matters about a text inside it is whether it can
end its line.

* `OneLine`: the text holds no line feed.  Literals and texts that went through `singleLine` are
  of that kind, whatever they were made from.
* `Unbroken`: it holds no carriage return either.
* `Printable`: it holds nothing below the space.
* `mem_singleLineFrom`: `singleLine` writes spaces and characters that are not blank, nothing
  else.
-/

namespace Rehearsal.Text

/-- A text that does not end its line. -/
def OneLine (s : String) : Prop := '\n' ∉ s.toList

instance (s : String) : Decidable (OneLine s) := inferInstanceAs (Decidable ('\n' ∉ s.toList))

@[simp] lemma oneLine_append {s t : String} : OneLine (s ++ t) ↔ OneLine s ∧ OneLine t := by
  simp [OneLine, not_or]

/-- What stands in front of the first occurrence of a character is found. -/
lemma append_cons_inj {x : Char} : ∀ {a b r s : List Char}, x ∉ a → x ∉ b →
    a ++ x :: r = b ++ x :: s → a = b ∧ r = s
  | [], [], _, _, _, _, h => by simpa using h
  | [], c :: b, _, _, _, hb, h => by
      obtain ⟨rfl, -⟩ := List.cons.inj h
      simp at hb
  | c :: a, [], _, _, ha, _, h => by
      obtain ⟨rfl, -⟩ := List.cons.inj h
      simp at ha
  | c :: a, d :: b, _, _, ha, hb, h => by
      obtain ⟨rfl, hrest⟩ := List.cons.inj h
      obtain ⟨rfl, hrs⟩ := append_cons_inj (List.not_mem_of_not_mem_cons ha)
        (List.not_mem_of_not_mem_cons hb) hrest
      exact ⟨rfl, hrs⟩

/-- What `singleLine` writes: spaces between words, and the words. -/
lemma mem_singleLineFrom {c : Char} :
    ∀ {cs : List Char} {started gap : Bool}, c ∈ singleLineFrom started gap cs →
      c = ' ' ∨ isBlank c = false
  | [], _, _, h => by simp [singleLineFrom] at h
  | d :: cs, started, gap, h => by
      rw [singleLineFrom] at h
      split_ifs at h with hd hg
      · exact mem_singleLineFrom h
      · rcases List.mem_cons.mp h with rfl | h
        · exact Or.inl rfl
        · rcases List.mem_cons.mp h with rfl | h
          · exact Or.inr (by simpa using hd)
          · exact mem_singleLineFrom h
      · rcases List.mem_cons.mp h with rfl | h
        · exact Or.inr (by simpa using hd)
        · exact mem_singleLineFrom h

/-! ## No carriage returns -/

/-- A text without line feeds and carriage returns. -/
def Unbroken (s : String) : Prop := ∀ c ∈ s.toList, c ≠ '\n' ∧ c ≠ '\r'

instance (s : String) : Decidable (Unbroken s) :=
  List.decidableBAll (fun c => c ≠ '\n' ∧ c ≠ '\r') s.toList

lemma Unbroken.oneLine {s : String} (h : Unbroken s) : OneLine s := fun hmem => (h _ hmem).1 rfl

@[simp] lemma unbroken_append {s t : String} : Unbroken (s ++ t) ↔ Unbroken s ∧ Unbroken t := by
  simp only [Unbroken, String.toList_append, List.forall_mem_append]

lemma unbroken_ofList {cs : List Char} :
    Unbroken (String.ofList cs) ↔ ∀ c ∈ cs, c ≠ '\n' ∧ c ≠ '\r' := by
  rw [Unbroken, String.toList_ofList]

/-! ## No control characters -/

/-- A text that holds nothing below the space. -/
def Printable (s : String) : Prop := ∀ c ∈ s.toList, 0x20 ≤ c.toNat

instance (s : String) : Decidable (Printable s) :=
  List.decidableBAll (fun c : Char => 0x20 ≤ c.toNat) s.toList

lemma Printable.unbroken {s : String} (h : Printable s) : Unbroken s := by
  intro c hc
  have hspace := h c hc
  constructor <;> rintro rfl <;> exact absurd hspace (by decide)

@[simp] lemma printable_append {s t : String} :
    Printable (s ++ t) ↔ Printable s ∧ Printable t := by
  simp only [Printable, String.toList_append, List.forall_mem_append]

/-! ## Literals and lines of text -/

@[simp] lemma printable_quote (s : String) : Printable (quote s) := by
  rw [Printable, quote, String.toList_ofList]
  exact fun c => le_toNat_of_mem_quoteChars

@[simp] lemma unbroken_quote (s : String) : Unbroken (quote s) := (printable_quote s).unbroken

@[simp] lemma oneLine_quote (s : String) : OneLine (quote s) := (unbroken_quote s).oneLine

@[simp] lemma unbroken_singleLine (s : String) : Unbroken (singleLine s) := by
  rw [singleLine, unbroken_ofList]
  intro c hc
  rcases mem_singleLineFrom hc with rfl | hblank
  · decide
  · constructor <;> rintro rfl <;> exact absurd hblank (by decide)

@[simp] lemma oneLine_singleLine (s : String) : OneLine (singleLine s) :=
  (unbroken_singleLine s).oneLine

end Rehearsal.Text
