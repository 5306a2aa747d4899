import Mathlib
import Rehearsal.Text.Comment
import Rehearsal.Proofs.Text.Line

/-!
# A documentation comment ends where it should

The first end mark behind the opening of a comment ends it, whatever was meant by it.  A guarded
text holds none, not even together with the space that stands behind it.

* `afterEnd`: what follows the first end mark.
* `afterEnd_docComment`: behind a guarded text, that is what follows **its own** end mark.
* `Seamless`: a text that ends no line of a script, and there are four characters that do.
* `singleLine_singleLine`, `docComment_docComment`: what was made fit for a comment **stays as it
  is**.
* `Closes`: a comment whose first end mark is its last two characters.
-/

namespace Rehearsal.Text

/-- What follows the first end mark of a comment. -/
def afterEnd : List Char → Option (List Char)
  | '*' :: '/' :: rest => some rest
  | _ :: rest => afterEnd rest
  | [] => none

lemma afterEnd_cons {c : Char} (hc : c ≠ '*') (cs : List Char) :
    afterEnd (c :: cs) = afterEnd cs :=
  afterEnd.eq_2 c cs fun _ h => absurd h hc

lemma afterEnd_star {cs : List Char} (h : cs.head? ≠ some '/') :
    afterEnd ('*' :: cs) = afterEnd cs :=
  afterEnd.eq_2 '*' cs fun rest _ hcs => h (by rw [hcs, List.head?_cons])

/-- What holds no star cannot end a comment. -/
lemma afterEnd_append {cs : List Char} (h : '*' ∉ cs) (rest : List Char) :
    afterEnd (cs ++ rest) = afterEnd rest := by
  induction cs with
  | nil => rfl
  | cons c cs ih =>
      rw [List.cons_append, afterEnd_cons (Ne.symm (List.ne_of_not_mem_cons h))]
      exact ih (List.not_mem_of_not_mem_cons h)

/-- Guarding keeps what a text begins with. -/
lemma head?_guardEndMark (cs : List Char) : (guardEndMark cs).head? = cs.head? := by
  fun_cases guardEndMark cs <;> rfl

/-- A guarded text ends no comment, as long as what follows it does not begin with a slash. -/
lemma afterEnd_guardEndMark (cs : List Char) {rest : List Char} (h : rest.head? ≠ some '/') :
    afterEnd (guardEndMark cs ++ rest) = afterEnd rest := by
  induction cs using guardEndMark.induct with
  | case1 cs ih =>
      rw [guardEndMark, List.cons_append, List.cons_append, List.cons_append,
        afterEnd_star (by simp), afterEnd_cons (by decide), afterEnd_cons (by decide), ih]
  | case2 c cs hmark ih =>
      rw [guardEndMark.eq_2 c cs hmark, List.cons_append]
      by_cases hc : c = '*'
      · subst hc
        rw [afterEnd_star ?_, ih]
        cases cs with
        | nil => exact h
        | cons d cs =>
            have hd : d ≠ '/' := fun hd => hmark cs rfl (by rw [hd])
            rw [List.head?_append, head?_guardEndMark]
            simpa using hd
      · rw [afterEnd_cons hc, ih]
  | case3 => rfl

/-- **The first end mark behind a guarded text is its own.** -/
theorem afterEnd_docComment (s : String) (rest : List Char) :
    afterEnd ((docComment s).toList ++ (' ' :: '*' :: '/' :: rest)) = some rest := by
  rw [docComment, String.toList_ofList, afterEnd_guardEndMark _ (by simp),
    afterEnd_cons (by decide)]
  rfl

/-! ## Lines -/

lemma mem_guardEndMark {c : Char} {cs : List Char} (h : c ∈ guardEndMark cs) :
    c = '\\' ∨ c ∈ cs := by
  induction cs using guardEndMark.induct with
  | case1 cs ih =>
      simp only [guardEndMark, List.mem_cons] at h ih ⊢
      tauto
  | case2 d cs hmark ih =>
      rw [guardEndMark.eq_2 d cs hmark, List.mem_cons] at h
      rw [List.mem_cons]
      tauto
  | case3 => cases h

/-- A guarded text stays on its line. -/
@[simp] lemma unbroken_docComment (s : String) : Unbroken (docComment s) := by
  rw [docComment, unbroken_ofList]
  intro c hc
  rcases mem_guardEndMark hc with rfl | hc
  · decide
  · exact unbroken_singleLine s c hc

/-! ## What ends a line of a script -/

/-- The characters that end a line of a script. -/
def isLineEnd (c : Char) : Bool := c == '\n' || c == '\r' || c == '\u2028' || c == '\u2029'

/-- A text that ends no line, in whichever way lines may end. -/
def Seamless (s : String) : Prop := ∀ c ∈ s.toList, isLineEnd c = false

instance (s : String) : Decidable (Seamless s) :=
  List.decidableBAll (fun c => isLineEnd c = false) s.toList

@[simp] lemma seamless_append {s t : String} : Seamless (s ++ t) ↔ Seamless s ∧ Seamless t := by
  simp only [Seamless, String.toList_append, List.forall_mem_append]

lemma isBlank_of_isLineEnd {c : Char} (h : isLineEnd c = true) : isBlank c = true := by
  simp only [isLineEnd, Bool.or_eq_true, beq_iff_eq] at h
  rcases h with ((rfl | rfl) | rfl) | rfl <;> decide

lemma isLineEnd_of_mem_singleLine {s : String} {c : Char} (h : c ∈ (singleLine s).toList) :
    isLineEnd c = false := by
  rw [singleLine, String.toList_ofList] at h
  rcases mem_singleLineFrom h with rfl | hblank
  · decide
  · by_contra hend
    rw [Bool.not_eq_false] at hend
    cases hblank.symm.trans (isBlank_of_isLineEnd hend)

@[simp] lemma seamless_singleLine (s : String) : Seamless (singleLine s) :=
  fun _ => isLineEnd_of_mem_singleLine

@[simp] lemma seamless_docComment (s : String) : Seamless (docComment s) := by
  intro c hc
  rw [docComment, String.toList_ofList] at hc
  rcases mem_guardEndMark hc with rfl | hc
  · decide
  · exact isLineEnd_of_mem_singleLine hc

lemma head?_ne_of_not_mark {c : Char} {cs : List Char}
    (h : ∀ rest, c = '*' → cs = '/' :: rest → False) (hc : c = '*') : cs.head? ≠ some '/' := by
  intro hhead
  obtain ⟨rest, hrest⟩ := List.head?_eq_some_iff.mp hhead
  exact h rest hc hrest

/-! ## Twice is once -/

lemma singleLineFrom_blank {c : Char} (hc : isBlank c = true) (started gap : Bool)
    (cs : List Char) : singleLineFrom started gap (c :: cs) = singleLineFrom started true cs := by
  rw [singleLineFrom, if_pos hc]

/-- A space comes before the first character of a word, if a word and a gap came before. -/
lemma singleLineFrom_word {c : Char} (hc : isBlank c = false) (started gap : Bool)
    (cs : List Char) : singleLineFrom started gap (c :: cs)
      = (if started && gap then [' '] else []) ++ c :: singleLineFrom true false cs := by
  rw [singleLineFrom, hc, if_neg Bool.false_ne_true]
  split_ifs <;> rfl

/-- Behind a word, single spaces stay as they are. -/
lemma singleLineFrom_started (gap : Bool) (cs : List Char) :
    singleLineFrom true false (singleLineFrom true gap cs) = singleLineFrom true gap cs := by
  have hspace : isBlank ' ' = true := by
    decide
  induction cs generalizing gap with
  | nil => rfl
  | cons c cs ih =>
      cases hc : isBlank c with
      | true => rw [singleLineFrom_blank hc, ih]
      | false =>
          rw [singleLineFrom_word hc]
          cases gap with
          | false =>
              rw [Bool.and_false, if_neg Bool.false_ne_true, List.nil_append,
                singleLineFrom_word hc, ih]
              rfl
          | true =>
              rw [Bool.and_true, if_pos rfl, List.singleton_append, singleLineFrom_blank hspace,
                singleLineFrom_word hc, ih]
              rfl

/-- Before the first word, no space is left to be dropped. -/
lemma singleLineFrom_singleLineFrom (gap gap' : Bool) (cs : List Char) :
    singleLineFrom false gap' (singleLineFrom false gap cs) = singleLineFrom false gap cs := by
  induction cs generalizing gap with
  | nil => rfl
  | cons c cs ih =>
      cases hc : isBlank c with
      | true => rw [singleLineFrom_blank hc, ih]
      | false =>
          rw [singleLineFrom_word hc, Bool.false_and, if_neg Bool.false_ne_true, List.nil_append,
            singleLineFrom_word hc, singleLineFrom_started]
          rfl

/-- **A text on one line stays as it is.** -/
theorem singleLine_singleLine (s : String) : singleLine (singleLine s) = singleLine s := by
  rw [singleLine, singleLine, String.toList_ofList, singleLineFrom_singleLineFrom]

/-- Behind a word and a gap, there is a space or nothing. -/
lemma head?_singleLineFrom_gap (cs : List Char) :
    (singleLineFrom true true cs).head? ≠ some '/' := by
  induction cs with
  | nil => simp [singleLineFrom]
  | cons c cs ih =>
      cases hc : isBlank c with
      | true => rwa [singleLineFrom_blank hc]
      | false =>
          rw [singleLineFrom_word hc]
          simp

/-- A slash that follows a word followed it before. -/
lemma head?_singleLineFrom {cs : List Char} (h : cs.head? ≠ some '/') :
    (singleLineFrom true false cs).head? ≠ some '/' := by
  cases cs with
  | nil => exact h
  | cons c cs =>
      cases hc : isBlank c with
      | true =>
          rw [singleLineFrom_blank hc]
          exact head?_singleLineFrom_gap cs
      | false =>
          rw [singleLineFrom_word hc]
          exact h

lemma guardEndMark_cons {c : Char} {cs : List Char} (h : c = '*' → cs.head? ≠ some '/') :
    guardEndMark (c :: cs) = c :: guardEndMark cs := by
  refine guardEndMark.eq_2 c cs fun rest hc hcs => h hc ?_
  rw [hcs, List.head?_cons]

lemma guardEndMark_space (gap : Bool) (cs : List Char) :
    guardEndMark ((if gap then [' '] else []) ++ cs)
      = (if gap then [' '] else []) ++ guardEndMark cs := by
  cases gap with
  | false => rfl
  | true => exact guardEndMark_cons fun h => absurd h (by decide)

/-- It is all one whether a text is guarded before or after it is put on one line. -/
lemma singleLineFrom_guardEndMark (started gap : Bool) (cs : List Char) :
    singleLineFrom started gap (guardEndMark cs)
      = guardEndMark (singleLineFrom started gap cs) := by
  induction cs using guardEndMark.induct generalizing started gap with
  | case1 cs ih =>
      have hstar : isBlank '*' = false := by
        decide
      have hslash : isBlank '/' = false := by
        decide
      have hguard : isBlank '\\' = false := by
        decide
      rw [guardEndMark, singleLineFrom_word hstar, singleLineFrom_word hguard,
        singleLineFrom_word hslash, ih, singleLineFrom_word hstar, singleLineFrom_word hslash,
        guardEndMark_space]
      rfl
  | case2 c cs hmark ih =>
      rw [guardEndMark.eq_2 c cs hmark]
      cases hc : isBlank c with
      | true => rw [singleLineFrom_blank hc, singleLineFrom_blank hc, ih]
      | false =>
          have hkeep : c = '*' → (singleLineFrom true false cs).head? ≠ some '/' :=
            fun hc => head?_singleLineFrom (head?_ne_of_not_mark hmark hc)
          rw [singleLineFrom_word hc, singleLineFrom_word hc, guardEndMark_space,
            guardEndMark_cons hkeep, ih]
  | case3 => rfl

/-! ## End marks -/

/-- The mark that ends a comment. -/
def endMark : List Char := ['*', '/']

/-- Only a star with a slash behind it begins an end mark. -/
lemma infix_cons_iff {c : Char} {cs : List Char} (h : c = '*' → cs.head? ≠ some '/') :
    endMark <:+: c :: cs ↔ endMark <:+: cs := by
  refine ⟨fun hmark => ?_, fun hmark => hmark.trans (List.suffix_cons c cs).isInfix⟩
  refine (List.infix_cons_iff.mp hmark).resolve_left ?_
  rintro ⟨rest, hrest⟩
  obtain ⟨hc, hcs⟩ := List.cons.inj hrest
  refine h hc.symm ?_
  rw [← hcs]
  rfl

lemma afterEnd_eq_none_iff {cs : List Char} : afterEnd cs = none ↔ ¬endMark <:+: cs := by
  induction cs using afterEnd.induct with
  | case1 rest => exact iff_of_false (by simp [afterEnd]) (not_not_intro ⟨[], rest, rfl⟩)
  | case2 c cs hmark ih =>
      rw [afterEnd.eq_2 c cs hmark, ih, infix_cons_iff (head?_ne_of_not_mark hmark)]
  | case3 => exact iff_of_true rfl (by simp [endMark])

/-- The text ends with an end mark, and holds none before. -/
def Closes (cs : List Char) : Prop :=
  ∃ text, cs = text ++ endMark ∧ ¬endMark <:+: text ++ ['*']

/-- What follows the first end mark is what follows the first end mark. -/
lemma closes_of_afterEnd {cs : List Char} (h : afterEnd cs = some []) : Closes cs := by
  induction cs using afterEnd.induct with
  | case1 rest =>
      obtain rfl : rest = [] := Option.some.inj h
      exact ⟨[], rfl, by decide⟩
  | case2 c cs hmark ih =>
      rw [afterEnd.eq_2 c cs hmark] at h
      obtain ⟨text, rfl, hfree⟩ := ih h
      refine ⟨c :: text, rfl, ?_⟩
      rw [List.cons_append, infix_cons_iff]
      · exact hfree
      · intro hc hhead
        refine head?_ne_of_not_mark hmark hc ?_
        cases text with
        | nil => cases hhead
        | cons d text => exact hhead
  | case3 => cases h

/-- **A guarded text holds no end mark.** -/
lemma not_infix_docComment (s : String) : ¬endMark <:+: (docComment s).toList := by
  have hfree : afterEnd (guardEndMark (singleLine s).toList ++ []) = afterEnd [] :=
    afterEnd_guardEndMark (singleLine s).toList (by simp)
  rw [List.append_nil] at hfree
  rw [docComment, String.toList_ofList]
  exact afterEnd_eq_none_iff.mp hfree

/-- What holds no end mark needs no guard. -/
lemma guardEndMark_eq_self {cs : List Char} (h : ¬endMark <:+: cs) : guardEndMark cs = cs := by
  induction cs using guardEndMark.induct with
  | case1 cs ih => exact absurd ⟨[], cs, rfl⟩ h
  | case2 c cs hmark ih =>
      have hcs : ¬endMark <:+: cs := fun hmore => h (hmore.trans (List.suffix_cons c cs).isInfix)
      rw [guardEndMark.eq_2 c cs hmark, ih hcs]
  | case3 => rfl

/-- **A text that was guarded stays as it is.** -/
theorem docComment_docComment (s : String) : docComment (docComment s) = docComment s := by
  have hfree := not_infix_docComment s
  have hline : (singleLine (docComment s)).toList = (docComment s).toList := by
    rw [singleLine, docComment, String.toList_ofList, String.toList_ofList,
      singleLineFrom_guardEndMark, singleLine, String.toList_ofList,
      singleLineFrom_singleLineFrom]
  rw [docComment, hline, guardEndMark_eq_self hfree, String.ofList_toList]

end Rehearsal.Text
