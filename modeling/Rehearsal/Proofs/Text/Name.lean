import Mathlib
import Rehearsal.Text.Name

/-!
# Names from free text

Classes and files are named after free text, by two functions that treat it differently.  They
agree on which texts are of any use.

* `className_eq_empty_iff`, `accessorName_eq_empty_iff`: there is no class name, and no name of a
  member, **just when** the text has no ASCII letter or digit.
* `hasAlnum_fileStem`: the stem of a file has a letter or digit **just when** the text has one.
* `slash_notMem_fileStem`: a stem stays within one segment of a path.

A name in code has a shape of its own (`IsIdentifier`).  The name of a member always has it, in the
form of `IsMemberName`; the name of a class begins with the first letter or digit of the text, so it
has it **just when that is a letter** (`isIdentifier_className_iff`).
-/

namespace Rehearsal.Text

/-! ## Classes -/

lemma classNameFrom_eq_nil_iff (cs : List Char) (atStart : Bool) :
    classNameFrom atStart cs = [] ↔ cs.any isAlnum = false := by
  induction cs generalizing atStart with
  | nil => simp [classNameFrom]
  | cons c cs ih =>
      rw [classNameFrom]
      by_cases hc : isAlnum c
      · simp [hc]
      · simp only [hc, Bool.false_eq_true, if_false, List.any_cons, Bool.false_or]
        exact ih true

/-- No class name comes of a text without letters and digits, and of no other. -/
theorem className_eq_empty_iff (s : String) : className s = "" ↔ hasAlnum s = false := by
  rw [className, String.ofList_eq_empty_iff]
  exact classNameFrom_eq_nil_iff s.toList true

/-! ## Identifiers -/

/-- A letter or an underscore, and letters and digits behind it. -/
def IsIdentifier (name : String) : Prop :=
  ∃ c cs, name.toList = c :: cs ∧ (c.isAlpha = true ∨ c = '_') ∧ ∀ d ∈ cs, isAlnum d = true

lemma isAlnum_toUpper (c : Char) : isAlnum c.toUpper = isAlnum c := by
  simp only [isAlnum, Char.isAlphanum]
  rw [Char.isAlpha_toUpper_eq_isAlpha]
  by_cases hc : c.isAlpha
  · simp [hc]
  · have hlower : ¬ c.isLower := fun h => hc (by simp [Char.isAlpha, h])
    rw [Char.toUpper_eq_of_not_isLower hlower]

/-- Class names are made of letters and digits. -/
lemma isAlnum_of_mem_classNameFrom {d : Char} {cs : List Char} {atStart : Bool}
    (h : d ∈ classNameFrom atStart cs) : isAlnum d = true := by
  induction cs generalizing atStart with
  | nil => cases h
  | cons c cs ih =>
      rw [classNameFrom] at h
      split_ifs at h with hc hstart
      · rcases List.mem_cons.mp h with rfl | h
        · rw [isAlnum_toUpper, hc]
        · exact ih h
      · rcases List.mem_cons.mp h with rfl | h
        · exact hc
        · exact ih h
      · exact ih h

/-- The first letter or digit of a text decides how its class name begins. -/
lemma head?_classNameFrom (cs : List Char) :
    (classNameFrom true cs).head? = (cs.find? isAlnum).map Char.toUpper := by
  induction cs with
  | nil => rfl
  | cons c cs ih =>
      rw [classNameFrom]
      by_cases hc : isAlnum c = true
      · rw [if_pos hc, if_pos rfl, List.find?_cons_of_pos hc]
        rfl
      · rw [if_neg hc, ih, List.find?_cons_of_neg hc]

lemma isAlpha_of_isAlnum {c : Char} (h : isAlnum c = true) (hdigit : c.isDigit = false) :
    c.isAlpha = true := by
  rw [isAlnum, Char.isAlphanum, hdigit, Bool.or_false] at h
  exact h

/-- The form of a member's name: a small letter, or an underscore and a digit, and letters and
digits behind. -/
inductive IsMemberName : List Char → Prop where
  | letter {c : Char} {cs : List Char} (small : c.isLower = true)
      (behind : ∀ d ∈ cs, isAlnum d = true) : IsMemberName (c :: cs)
  | digit {c : Char} {cs : List Char} (digit : c.isDigit = true)
      (behind : ∀ d ∈ cs, isAlnum d = true) : IsMemberName ('_' :: c :: cs)

lemma isMemberName_asMember {cs : List Char} (h : ∀ c ∈ cs, isAlnum c = true) (hne : cs ≠ []) :
    IsMemberName (asMember cs) := by
  cases cs with
  | nil => exact absurd rfl hne
  | cons c cs =>
      obtain ⟨hc, hcs⟩ := List.forall_mem_cons.mp h
      rw [asMember]
      split_ifs with hdigit
      · exact .digit hdigit hcs
      · refine .letter ?_ hcs
        rw [Char.isLower_toLower_eq_isAlpha]
        exact isAlpha_of_isAlnum hc (by simpa using hdigit)

lemma IsMemberName.isIdentifier {name : String} (h : IsMemberName name.toList) :
    IsIdentifier name := by
  rw [IsIdentifier]
  generalize name.toList = cs at h ⊢
  cases h with
  | letter small behind => exact ⟨_, _, rfl, .inl (by simp [Char.isAlpha, small]), behind⟩
  | digit digit behind =>
      refine ⟨_, _, rfl, .inr rfl, List.forall_mem_cons.mpr ⟨?_, behind⟩⟩
      simp [isAlnum, Char.isAlphanum, digit]

lemma asMember_eq_nil_iff (cs : List Char) : asMember cs = [] ↔ cs = [] := by
  cases cs with
  | nil => simp [asMember]
  | cons c cs => rw [asMember]; split_ifs <;> simp

/-- No member name comes of a text without letters and digits, and of no other. -/
theorem accessorName_eq_empty_iff (s : String) : accessorName s = "" ↔ hasAlnum s = false := by
  rw [accessorName, String.ofList_eq_empty_iff, asMember_eq_nil_iff]
  exact classNameFrom_eq_nil_iff s.toList true

/-- Whatever a member is named after, its name has that form, if there is one. -/
lemma isMemberName_accessorName {s : String} (h : accessorName s ≠ "") :
    IsMemberName (accessorName s).toList := by
  rw [accessorName, Ne, String.ofList_eq_empty_iff, asMember_eq_nil_iff] at h
  rw [accessorName, String.toList_ofList]
  exact isMemberName_asMember (fun _ => isAlnum_of_mem_classNameFrom) h

/-- **Whatever a member is named after, its name is an identifier**, if there is one. -/
theorem isIdentifier_accessorName {s : String} (h : accessorName s ≠ "") :
    IsIdentifier (accessorName s) :=
  (isMemberName_accessorName h).isIdentifier

/-- **The name of a class is an identifier just when the first letter or digit of the text is a
letter.** -/
theorem isIdentifier_className_iff (s : String) :
    IsIdentifier (className s) ↔ ∃ c, s.toList.find? isAlnum = some c ∧ c.isAlpha = true := by
  have hhead := head?_classNameFrom s.toList
  rw [IsIdentifier, className, String.toList_ofList]
  constructor
  · rintro ⟨c, cs, hname, hc | rfl, -⟩
    · rw [hname, List.head?_cons, eq_comm, Option.map_eq_some_iff] at hhead
      obtain ⟨d, hd, rfl⟩ := hhead
      exact ⟨d, hd, by rwa [Char.isAlpha_toUpper_eq_isAlpha] at hc⟩
    · have hunderscore := isAlnum_of_mem_classNameFrom (hname ▸ List.mem_cons_self)
      exact absurd hunderscore (by decide)
  · rintro ⟨d, hd, halpha⟩
    rw [hd, Option.map_some] at hhead
    obtain ⟨cs, hname⟩ := List.head?_eq_some_iff.mp hhead
    refine ⟨d.toUpper, cs, hname, Or.inl ?_, fun e he => ?_⟩
    · rw [Char.isAlpha_toUpper_eq_isAlpha, halpha]
    · exact isAlnum_of_mem_classNameFrom (hname ▸ List.mem_cons_of_mem _ he)

/-! ## Files -/

/-- Letters and digits stay such in lower case, and nothing else becomes one. -/
lemma isAlnum_toLower (c : Char) : isAlnum c.toLower = isAlnum c := by
  simp only [isAlnum, Char.isAlphanum]
  rw [Char.isAlpha_toLower_eq_isAlpha]
  by_cases hc : c.isAlpha
  · simp [hc]
  · have hupper : ¬ c.isUpper := fun h => hc (by simp [Char.isAlpha, h])
    rw [Char.toLower_eq_of_not_isUpper hupper]

lemma isAlnum_iff (c : Char) : isAlnum c = true ↔
    ((65 ≤ c.toNat ∧ c.toNat ≤ 90) ∨ (97 ≤ c.toNat ∧ c.toNat ≤ 122))
      ∨ (48 ≤ c.toNat ∧ c.toNat ≤ 57) := by
  simp only [isAlnum, Char.isAlphanum, Char.isAlpha, Char.isUpper, Char.isLower, Char.isDigit,
    Bool.or_eq_true, Bool.and_eq_true, decide_eq_true_eq, UInt32.le_iff_toNat_le, ge_iff_le]
  exact Iff.rfl

lemma not_isAlnum_of_isBlank {c : Char} (h : isBlank c = true) : isAlnum c = false := by
  simp only [isBlank, Bool.or_eq_true, Bool.and_eq_true, decide_eq_true_eq, beq_iff_eq] at h
  refine Bool.eq_false_iff.mpr fun hc => ?_
  have hrange := (isAlnum_iff c).mp hc
  omega

lemma any_fileStemFrom (cs : List Char) (gap : Bool) :
    (fileStemFrom gap cs).any isAlnum = cs.any isAlnum := by
  have hunderscore : isAlnum '_' = false := by decide
  induction cs generalizing gap with
  | nil => rfl
  | cons c cs ih =>
      rw [fileStemFrom]
      split_ifs with hblank hgap hkept
      · rw [ih, List.any_cons, not_isAlnum_of_isBlank hblank, Bool.false_or]
      · rw [List.any_cons, ih, hunderscore, List.any_cons, not_isAlnum_of_isBlank hblank]
      · rw [List.any_cons, ih, isAlnum_toLower, List.any_cons]
      · have hc : isAlnum c = false := by
          simp only [Bool.or_eq_true, not_or, Bool.not_eq_true] at hkept
          exact hkept.1
        rw [ih, List.any_cons, hc, Bool.false_or]

/-- A stem is usable just when the text that it comes from has a letter or a digit. -/
theorem hasAlnum_fileStem (s : String) : hasAlnum (fileStem s) = hasAlnum s := by
  rw [hasAlnum, fileStem, String.toList_ofList]
  exact any_fileStemFrom s.toList false

lemma slash_notMem_fileStemFrom (cs : List Char) (gap : Bool) : '/' ∉ fileStemFrom gap cs := by
  have hslash : isAlnum '/' = false := by decide
  induction cs generalizing gap with
  | nil => simp [fileStemFrom]
  | cons c cs ih =>
      rw [fileStemFrom]
      split_ifs with hblank hgap hkept
      · exact ih true
      · simpa using ih true
      · refine List.not_mem_cons_of_ne_of_not_mem (fun h => ?_) (ih false)
        rcases Bool.or_eq_true_iff.mp hkept with hc | hc
        · rw [← isAlnum_toLower, ← h, hslash] at hc
          cases hc
        · rw [beq_iff_eq.mp hc] at h
          revert h
          decide
      · exact ih gap

/-- A stem stays within one segment of a path. -/
theorem slash_notMem_fileStem (s : String) : '/' ∉ (fileStem s).toList := by
  rw [fileStem, String.toList_ofList]
  exact slash_notMem_fileStemFrom s.toList false

end Rehearsal.Text
