import Mathlib
import Rehearsal.Proofs.Text.Name

/-!
# What names keep of a text

The name of a class is made of the words of a text, and the name of a member differs from it at
the start only.  Both keep the letters and digits of the text, and nothing else of it.

* `runs`: the words of a text, its **maximal runs of letters and digits**.  A class name is these
  runs put together, each with an upper-case start (`className_of_runs`).
* `map_toLower_classNameFrom`: without regard to case, a class name **spells the letters and digits
  of the text**, all of them and in order.
* `classNameFrom_asMember`: the underscore in front of a digit belongs to no run, and a start in
  lower case is raised again.  So the name of a member **names the same class** as the text does.
-/

namespace Rehearsal.Text

/-! ## Runs of letters and digits -/

/-- A text without its separators, which are neither letters nor digits.  A stretch may be empty. -/
def stretches (cs : List Char) : List (List Char) := cs.splitOnP fun c => !isAlnum c

/-- The maximal runs of letters and digits. -/
def runs (cs : List Char) : List (List Char) := (stretches cs).filter fun run => !run.isEmpty

/-- A run with an upper-case start. -/
def capitalize : List Char → List Char
  | [] => []
  | c :: cs => c.toUpper :: cs

lemma exists_stretches (cs : List Char) : ∃ stretch others, stretches cs = stretch :: others :=
  List.exists_cons_of_ne_nil (List.splitOnP_ne_nil _ cs)

lemma stretches_of_isAlnum {cs : List Char} (h : ∀ c ∈ cs, isAlnum c = true) :
    stretches cs = [cs] :=
  List.splitOnP_eq_singleton fun c hc => by rw [h c hc, Bool.not_true]

lemma stretches_separator {c : Char} (h : ¬isAlnum c = true) (cs : List Char) :
    stretches (c :: cs) = [] :: stretches cs := by
  rw [stretches, List.splitOnP_cons_eq_if_modifyHead, if_pos (by simp [h]), stretches]

lemma stretches_alnum {c : Char} {cs stretch : List Char} {others : List (List Char)}
    (h : isAlnum c = true) (hcs : stretches cs = stretch :: others) :
    stretches (c :: cs) = (c :: stretch) :: others := by
  rw [stretches] at hcs
  rw [stretches, List.splitOnP_cons_eq_if_modifyHead, if_neg (by simp [h]), hcs,
    List.modifyHead_cons]

lemma map_toLower_capitalize (cs : List Char) :
    (capitalize cs).map Char.toLower = cs.map Char.toLower := by
  cases cs with
  | nil => rfl
  | cons c cs => rw [capitalize, List.map_cons, Char.toLower_toUpper_eq_toLower, List.map_cons]

/-- An empty stretch, as between two separators side by side, comes to nothing. -/
lemma flatMap_capitalize_filter (css : List (List Char)) :
    (css.filter fun run => !run.isEmpty).flatMap capitalize = css.flatMap capitalize := by
  induction css with
  | nil => rfl
  | cons cs css ih =>
      rw [List.flatMap_cons, ← ih]
      cases cs with
      | nil => rw [List.filter_cons_of_neg (by simp), capitalize, List.nil_append]
      | cons c cs => rw [List.filter_cons_of_pos (by simp), List.flatMap_cons]

/-- The pass with a flag, against the stretches.  The flag tells whether the first of them stands at
a start or goes on with a run that was begun. -/
lemma classNameFrom_eq_stretches {cs stretch : List Char} {others : List (List Char)}
    (h : stretches cs = stretch :: others) :
    classNameFrom true cs = capitalize stretch ++ others.flatMap capitalize
      ∧ classNameFrom false cs = stretch ++ others.flatMap capitalize := by
  induction cs generalizing stretch others with
  | nil =>
      obtain ⟨rfl, rfl⟩ := List.cons_eq_cons.mp h
      exact ⟨rfl, rfl⟩
  | cons c cs ih =>
      obtain ⟨first, rest, hcs⟩ := exists_stretches cs
      obtain ⟨hfresh, hbegun⟩ := ih hcs
      by_cases hc : isAlnum c = true
      · rw [stretches_alnum hc hcs] at h
        obtain ⟨rfl, rfl⟩ := List.cons_eq_cons.mp h
        rw [classNameFrom, if_pos hc, classNameFrom, if_pos hc, hbegun]
        exact ⟨rfl, rfl⟩
      · rw [stretches_separator hc, hcs] at h
        obtain ⟨rfl, rfl⟩ := List.cons_eq_cons.mp h
        rw [classNameFrom, if_neg hc, classNameFrom, if_neg hc, hfresh]
        exact ⟨rfl, rfl⟩

lemma classNameFrom_eq_runs (cs : List Char) :
    classNameFrom true cs = (runs cs).flatMap capitalize := by
  obtain ⟨stretch, others, h⟩ := exists_stretches cs
  rw [runs, flatMap_capitalize_filter, h, List.flatMap_cons, (classNameFrom_eq_stretches h).1]

/-- **A class name is made of the runs of letters and digits**, each with an upper-case start. -/
theorem className_of_runs (s : String) :
    className s = String.ofList ((runs s.toList).flatMap capitalize) := by
  rw [className, classNameFrom_eq_runs]

/-! ## What is spelled -/

/-- The runs are the letters and digits of the text: none is lost, and none changes its place. -/
lemma flatten_runs (cs : List Char) : (runs cs).flatten = cs.filter isAlnum := by
  rw [runs, List.flatten_filter_not_isEmpty]
  induction cs with
  | nil => rfl
  | cons c cs ih =>
      by_cases hc : isAlnum c = true
      · obtain ⟨stretch, others, hcs⟩ := exists_stretches cs
        rw [stretches_alnum hc hcs, List.filter_cons_of_pos hc, ← ih, hcs]
        rfl
      · rw [stretches_separator hc, List.filter_cons_of_neg hc, ← ih]
        rfl

/-- Without regard to case, a class name spells the letters and digits of the text. -/
lemma map_toLower_classNameFrom (cs : List Char) :
    (classNameFrom true cs).map Char.toLower = (cs.filter isAlnum).map Char.toLower := by
  calc (classNameFrom true cs).map Char.toLower
      = (runs cs).flatMap fun run => (capitalize run).map Char.toLower := by
        rw [classNameFrom_eq_runs, List.map_flatMap]
    _ = (runs cs).flatMap fun run => run.map Char.toLower := by
        simp only [map_toLower_capitalize]
    _ = (runs cs).flatten.map Char.toLower := by rw [List.map_flatten, List.flatMap_def]
    _ = (cs.filter isAlnum).map Char.toLower := by rw [flatten_runs]

/-! ## Names of names -/

/-- Letters and digits alone are one run. -/
lemma classNameFrom_of_isAlnum {cs : List Char} (h : ∀ c ∈ cs, isAlnum c = true) :
    classNameFrom true cs = capitalize cs := by
  rw [(classNameFrom_eq_stretches (stretches_of_isAlnum h)).1, List.flatMap_nil, List.append_nil]

/-- A class name has its upper-case start. -/
lemma capitalize_classNameFrom (cs : List Char) :
    capitalize (classNameFrom true cs) = classNameFrom true cs := by
  induction cs with
  | nil => rfl
  | cons c cs ih =>
      rw [classNameFrom]
      by_cases hc : isAlnum c = true
      · rw [if_pos hc, if_pos rfl, capitalize, Char.toUpper_toUpper_eq_toUpper]
      · rw [if_neg hc, ih]

/-- A class name is its own class name. -/
lemma classNameFrom_classNameFrom (cs : List Char) :
    classNameFrom true (classNameFrom true cs) = classNameFrom true cs := by
  rw [classNameFrom_of_isAlnum fun _ => isAlnum_of_mem_classNameFrom, capitalize_classNameFrom]

/-- How the name of a member begins leaves no trace in the class name. -/
lemma classNameFrom_asMember {cs : List Char} (h : ∀ c ∈ cs, isAlnum c = true) :
    classNameFrom true (asMember cs) = classNameFrom true cs := by
  cases cs with
  | nil => rfl
  | cons c cs =>
      obtain ⟨hc, hcs⟩ := List.forall_mem_cons.mp h
      have hunderscore : ¬isAlnum '_' = true := by decide
      rw [asMember]
      split_ifs with hdigit
      · -- the underscore separates, and what follows is at a start again
        rw [classNameFrom, if_neg hunderscore]
      · have hlower : ∀ d ∈ c.toLower :: cs, isAlnum d = true :=
          List.forall_mem_cons.mpr ⟨by rw [isAlnum_toLower, hc], hcs⟩
        rw [classNameFrom_of_isAlnum h, classNameFrom_of_isAlnum hlower, capitalize, capitalize,
          Char.toUpper_toLower_eq_toUpper]

/-- **The name of a member names the same class** as the text that it comes from. -/
lemma className_accessorName (s : String) : className (accessorName s) = className s := by
  rw [className, accessorName, String.toList_ofList,
    classNameFrom_asMember fun _ => isAlnum_of_mem_classNameFrom, classNameFrom_classNameFrom,
    className]

example : accessorName "2fa code" = "_2faCode" ∧ className "_2faCode" = "2faCode" := by decide

lemma accessorName_eq_asMember (s : String) :
    accessorName s = String.ofList (asMember (className s).toList) := by
  rw [accessorName, className, String.toList_ofList]

/-- **Both names are normal forms of a text.**  A class name is its own class name; it is made of
ASCII letters and digits and spells those of the text, in order and without regard to case.  The
name of a member is its own member name; it is empty just when the text has no letter or digit, and
has the form of such names just when the text has one.  It names the same class as the text.  So two
texts have one name as members **just when** they have one name as classes. -/
theorem names_are_normal_forms (s t : String) :
    (className (className s) = className s
        ∧ (className s).toList.all isAlnum = true
        ∧ (className s).toList.map Char.toLower = (s.toList.filter isAlnum).map Char.toLower)
      ∧ (accessorName (accessorName s) = accessorName s
        ∧ (accessorName s = "" ↔ hasAlnum s = false)
        ∧ (hasAlnum s = true ↔ IsMemberName (accessorName s).toList))
      ∧ className (accessorName s) = className s
      ∧ (accessorName s = accessorName t ↔ className s = className t) := by
  refine ⟨⟨?_, ?_, ?_⟩, ⟨?_, accessorName_eq_empty_iff s, ?_⟩, className_accessorName s, ?_⟩
  · rw [className, className, String.toList_ofList, classNameFrom_classNameFrom]
  · rw [className, String.toList_ofList, List.all_eq_true]
    exact fun _ => isAlnum_of_mem_classNameFrom
  · rw [className, String.toList_ofList, map_toLower_classNameFrom]
  · rw [accessorName_eq_asMember, className_accessorName, ← accessorName_eq_asMember]
  · rw [← Bool.not_eq_false, ← accessorName_eq_empty_iff]
    exact ⟨isMemberName_accessorName, fun h hempty => by rw [hempty] at h; cases h⟩
  · constructor
    · intro h
      rw [← className_accessorName s, h, className_accessorName]
    · intro h
      rw [accessorName_eq_asMember, h, ← accessorName_eq_asMember]

end Rehearsal.Text
