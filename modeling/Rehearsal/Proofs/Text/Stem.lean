import Mathlib
import Rehearsal.Proofs.Text.Name

/-!
# Stems of file names

The stem of a file is made of a text in one pass, with a flag that remembers a run of blanks.  It
is the outcome of two passes that remember nothing.

* `joinBlanks`: one underscore for **each maximal run of blanks**, everything else in lower case.
* `fileStemFrom_eq_joinBlanks`: the pass with the flag, on any text, is `joinBlanks` of what is
  kept of the text.  When the flag is set, the blanks in front belong to a run that was written
  already.
* `IsStemChar`: what stems are made of.  A text made of it **is its own stem**
  (`fileStemFrom_eq_self`).
-/

namespace Rehearsal.Text

/-! ## Two passes -/

/-- The characters that leave a trace in a stem: blanks, letters, digits and underscores. -/
def isKept (c : Char) : Bool := isBlank c || isAlnum c || c == '_'

/-- One underscore for each maximal run of blanks, and all else in lower case. -/
def joinBlanks : List Char → List Char
  | [] => []
  | c :: cs =>
    if isBlank c then '_' :: joinBlanks (cs.dropWhile isBlank)
    else c.toLower :: joinBlanks cs
termination_by cs => cs.length
decreasing_by
  · exact Nat.lt_succ_of_le (List.dropWhile_suffix isBlank).length_le
  · exact Nat.lt_succ_self _

lemma joinBlanks_blank {c : Char} (h : isBlank c = true) (cs : List Char) :
    joinBlanks (c :: cs) = '_' :: joinBlanks (cs.dropWhile isBlank) := by
  rw [joinBlanks, if_pos h]

lemma joinBlanks_other {c : Char} (h : isBlank c = false) (cs : List Char) :
    joinBlanks (c :: cs) = c.toLower :: joinBlanks cs := by
  rw [joinBlanks, if_neg (Bool.eq_false_iff.mp h)]

/-- **One pass does the work of two.**  A run that was begun goes on with the blanks in front. -/
lemma fileStemFrom_eq_joinBlanks (cs : List Char) :
    fileStemFrom false cs = joinBlanks (cs.filter isKept)
      ∧ fileStemFrom true cs = joinBlanks ((cs.filter isKept).dropWhile isBlank) := by
  induction cs with
  | nil => simp [fileStemFrom, joinBlanks]
  | cons c cs ih =>
      obtain ⟨hfresh, hrun⟩ := ih
      by_cases hblank : isBlank c = true
      · have hkept : isKept c = true := by simp [isKept, hblank]
        rw [List.filter_cons_of_pos hkept, joinBlanks_blank hblank,
          List.dropWhile_cons_of_pos hblank, ← hrun]
        constructor <;> rw [fileStemFrom, if_pos hblank]
        · exact if_neg Bool.false_ne_true
        · exact if_pos rfl
      · by_cases hother : (isAlnum c || c == '_') = true
        · -- whatever came before, a run ends here
          have hkept : isKept c = true := by rw [isKept, Bool.or_assoc, hother, Bool.or_true]
          rw [List.filter_cons_of_pos hkept, List.dropWhile_cons_of_neg hblank,
            joinBlanks_other (Bool.eq_false_iff.mpr hblank), ← hfresh]
          constructor <;> rw [fileStemFrom, if_neg hblank, if_pos hother]
        · -- a symbol vanishes, and the flag stays as it is
          have hdropped : ¬isKept c = true := by
            rw [isKept, Bool.or_assoc, Bool.or_eq_true]
            exact not_or.mpr ⟨hblank, hother⟩
          rw [List.filter_cons_of_neg hdropped, ← hfresh, ← hrun]
          constructor <;> rw [fileStemFrom, if_neg hblank, if_neg hother]

/-! ## What stems are made of -/

/-- A lower-case letter, a digit or an underscore. -/
def IsStemChar (c : Char) : Prop := c.isLower = true ∨ c.isDigit = true ∨ c = '_'

lemma not_isUpper_of_isDigit {c : Char} (h : c.isDigit = true) : ¬c.isUpper = true := by
  intro hupper
  simp only [Char.isUpper, Char.isDigit, Bool.and_eq_true, decide_eq_true_eq,
    UInt32.le_iff_toNat_le] at h hupper
  have hnine : '9'.val.toNat = 57 := rfl
  have hbig : 'A'.val.toNat = 65 := rfl
  omega

lemma isStemChar_toLower {c : Char} (h : (isAlnum c || c == '_') = true) :
    IsStemChar c.toLower := by
  simp only [isAlnum, Char.isAlphanum, Bool.or_eq_true, beq_iff_eq] at h
  rcases h with (halpha | hdigit) | rfl
  · exact .inl (by rw [Char.isLower_toLower_eq_isAlpha, halpha])
  · have hlower : c.toLower = c := Char.toLower_eq_of_not_isUpper (not_isUpper_of_isDigit hdigit)
    exact .inr (.inl (by rw [hlower, hdigit]))
  · exact .inr (.inr rfl)

lemma isStemChar_of_mem_fileStemFrom {d : Char} {cs : List Char} {gap : Bool}
    (h : d ∈ fileStemFrom gap cs) : IsStemChar d := by
  induction cs generalizing gap with
  | nil => cases h
  | cons c cs ih =>
      rw [fileStemFrom] at h
      split_ifs at h with hblank hgap hkept
      · exact ih h
      · rcases List.mem_cons.mp h with rfl | h
        · exact .inr (.inr rfl)
        · exact ih h
      · rcases List.mem_cons.mp h with rfl | h
        · exact isStemChar_toLower hkept
        · exact ih h
      · exact ih h

namespace IsStemChar

variable {c : Char}

lemma kept (h : IsStemChar c) : (isAlnum c || c == '_') = true := by
  simp only [isAlnum, Char.isAlphanum, Char.isAlpha, Bool.or_eq_true, beq_iff_eq]
  rcases h with hlower | hdigit | rfl
  · exact .inl (.inl (.inr hlower))
  · exact .inl (.inr hdigit)
  · exact .inr rfl

lemma not_isBlank (h : IsStemChar c) : isBlank c = false := by
  rcases Bool.or_eq_true_iff.mp h.kept with halnum | hunderscore
  · refine Bool.eq_false_iff.mpr fun hblank => ?_
    rw [not_isAlnum_of_isBlank hblank] at halnum
    cases halnum
  · rw [beq_iff_eq.mp hunderscore]
    rfl

lemma toLower_eq (h : IsStemChar c) : c.toLower = c := by
  refine Char.toLower_eq_of_not_isUpper fun hupper => ?_
  rcases h with hlower | hdigit | rfl
  · exact Char.not_isUpper_of_isLower hlower hupper
  · exact not_isUpper_of_isDigit hdigit hupper
  · exact absurd hupper (by decide)

end IsStemChar

/-- What is made of such characters stays as it is. -/
lemma fileStemFrom_eq_self {cs : List Char} (h : ∀ c ∈ cs, IsStemChar c) (gap : Bool) :
    fileStemFrom gap cs = cs := by
  induction cs generalizing gap with
  | nil => rfl
  | cons c cs ih =>
      obtain ⟨hc, hcs⟩ := List.forall_mem_cons.mp h
      rw [fileStemFrom, if_neg (Bool.eq_false_iff.mp hc.not_isBlank), if_pos hc.kept,
        hc.toLower_eq, ih hcs]

/-- **The stem of a file is a text with its symbols dropped and then its runs of blanks joined**,
in lower case.  It is made of lower-case letters, digits and underscores; it is of use just when
the text has a letter or a digit, and so a class name; and it is its own stem. -/
theorem fileStem_of_two_passes (s : String) :
    fileStem s = String.ofList (joinBlanks (s.toList.filter isKept))
      ∧ (∀ c ∈ (fileStem s).toList, IsStemChar c)
      ∧ (hasAlnum (fileStem s) = true ↔ hasAlnum s = true)
      ∧ (hasAlnum s = true ↔ className s ≠ "")
      ∧ fileStem (fileStem s) = fileStem s := by
  have hmade : ∀ c ∈ fileStemFrom false s.toList, IsStemChar c :=
    fun _ => isStemChar_of_mem_fileStemFrom
  refine ⟨?_, ?_, ?_, ?_, ?_⟩
  · rw [fileStem, (fileStemFrom_eq_joinBlanks s.toList).1]
  · rwa [fileStem, String.toList_ofList]
  · rw [hasAlnum_fileStem]
  · rw [Ne, className_eq_empty_iff, Bool.not_eq_false]
  · rw [fileStem, fileStem, String.toList_ofList, fileStemFrom_eq_self hmade]

end Rehearsal.Text
