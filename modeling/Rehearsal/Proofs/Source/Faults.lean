import Mathlib
import Rehearsal.Proofs.Source.Checks

/-!
# What is wrong with a suite that has no test file

A suite is gone through case by case, and a case section by section: the steps before, the steps
after, the steps.  In a section all steps are checked before any page is looked up.

* `StoredStep.Fault`: what is wrong with a step that is not good.
* `SectionFault`: what is wrong with a section.  **The first step that is not good counts, even if
  a page is missing on an earlier one.**
* `testFile_faults`: there is no file just when a step is not good or a page is missing, and what is
  reported is the fault of the first section that has one.
-/

namespace Rehearsal

/-! ## Steps -/

/-- What is wrong with a step that is not good: an action outside the six comes first, then a
value that is missing, then a missing element. -/
inductive StoredStep.Fault (s : StoredStep) : Error → Prop
  | action (h : s.action ∉ ["click", "type", "select", "hover", "wait", "assert"]) :
      Fault s (.unknownAction s.action)
  | text (h : s.action = "type") (hvalue : ¬∃ v, s.value = some v ∧ v ≠ "") :
      Fault s (.missingText s.selector)
  | option (h : s.action = "select") (hvalue : ¬∃ v, s.value = some v ∧ v ≠ "") :
      Fault s (.missingOption s.selector)
  | selector (haction : s.action ∈ ["click", "type", "select", "hover", "wait", "assert"])
      (hvalue : s.action ∈ ["type", "select"] → ∃ v, s.value = some v ∧ v ≠ "")
      (h : s.selector = "") : Fault s (.missingSelector s.action)

namespace StoredStep

lemma givenValue?_eq_none_iff {s : StoredStep} :
    s.givenValue? = none ↔ ¬∃ v, s.value = some v ∧ v ≠ "" := by
  simp only [← givenValue?_eq_some_iff, Option.eq_none_iff_forall_ne_some, not_exists, ne_eq]

lemma action?_eq_error_iff {s : StoredStep} {e : Error} : s.action? = .error e
    ↔ s.action ∉ ["click", "type", "select", "hover", "wait", "assert"]
          ∧ .unknownAction s.action = e
      ∨ s.action = "type" ∧ (¬∃ v, s.value = some v ∧ v ≠ "") ∧ .missingText s.selector = e
      ∨ s.action = "select" ∧ (¬∃ v, s.value = some v ∧ v ≠ "")
          ∧ .missingOption s.selector = e := by
  rw [action?, ← givenValue?_eq_none_iff]
  split_ifs with h₁ h₂ h₃ h₄ h₅ h₆
  · simp [h₁]
  · cases s.givenValue? <;> simp [h₂]
  · cases s.givenValue? <;> simp [h₃]
  · simp [h₄]
  · simp [h₅]
  · simp [h₆]
  · simp [*]

lemma check_eq_error_iff {s : StoredStep} {e : Error} : s.check = .error e ↔ s.Fault e := by
  have hselector : ∀ a, s.action? = .ok a →
      ((if s.selector = "" then .error (.missingSelector s.action)
        else .ok (Step.mk a s.selector s.description s.page) : Except Error Step) = .error e
        ↔ s.selector = "" ∧ .missingSelector s.action = e) := by
    intro a _
    split_ifs with h <;> simp [h]
  rw [check, bind_eq_error_iff_of action?_eq_error_iff s.checks_action?.ok_iff hselector]
  constructor
  · rintro ((⟨h, rfl⟩ | ⟨h, hvalue, rfl⟩ | ⟨h, hvalue, rfl⟩) | ⟨⟨haction, hvalue⟩, h, rfl⟩)
    · exact .action h
    · exact .text h hvalue
    · exact .option h hvalue
    · exact .selector haction hvalue h
  · rintro (h | ⟨h, hvalue⟩ | ⟨h, hvalue⟩ | ⟨haction, hvalue, h⟩)
    · exact .inl (.inl ⟨h, rfl⟩)
    · exact .inl (.inr (.inl ⟨h, hvalue, rfl⟩))
    · exact .inl (.inr (.inr ⟨h, hvalue, rfl⟩))
    · exact .inr ⟨⟨haction, hvalue⟩, h, rfl⟩

/-- The first step that is not good is reported. -/
lemma checkAll_eq_error_iff {ss : List StoredStep} {e : Error} :
    checkAll ss = .error e ↔ First Good (Fault · e) ss := by
  induction ss with
  | nil => simp [checkAll, not_first_nil]
  | cons s ss ih =>
      rw [first_cons]
      exact bind_eq_error_iff_of check_eq_error_iff s.checks_check.ok_iff fun _ _ =>
        bind_ok_eq_error_iff.trans ih

/-- An action outside the six is reported as such, whatever else is wrong with the step. -/
lemma Fault.report {s : StoredStep} {e : Error} (h : s.Fault e) :
    (s.action ∉ ["click", "type", "select", "hover", "wait", "assert"] →
        e = .unknownAction s.action)
      ∧ (s.action ∈ ["click", "type", "select", "hover", "wait", "assert"] →
        ∃ detail, e = .invalidStep detail) := by
  cases h with
  | action hunknown => exact ⟨fun _ => rfl, fun hknown => absurd hknown hunknown⟩
  | text htype => exact ⟨fun hunknown => absurd (by simp [htype]) hunknown, fun _ => ⟨_, rfl⟩⟩
  | option hselect =>
      exact ⟨fun hunknown => absurd (by simp [hselect]) hunknown, fun _ => ⟨_, rfl⟩⟩
  | selector hknown => exact ⟨fun hunknown => absurd hknown hunknown, fun _ => ⟨_, rfl⟩⟩

/-- A fault of a step is of one of two kinds. -/
lemma Fault.kind {s : StoredStep} {e : Error} (h : s.Fault e) :
    (∃ action, e = .unknownAction action) ∨ ∃ detail, e = .invalidStep detail := by
  by_cases hknown : s.action ∈ ["click", "type", "select", "hover", "wait", "assert"]
  · exact .inr (h.report.2 hknown)
  · exact .inl ⟨_, h.report.1 hknown⟩

end StoredStep

/-- The sections of a case, in the order in which they are gone through. -/
def Case.sections (c : Case) : List (List StoredStep) :=
  [c.beforeEach.getD [], c.afterEach.getD [], c.steps]

namespace Source

/-! ## Sections -/

/-- The page is referred to and not at hand. -/
def Pages.Misses (pages : Pages) (page : Option Uuid) (id : Uuid) : Prop :=
  page = some id ∧ pages id = none

lemma Pages.exists_misses_iff {pages : Pages} {page : Option Uuid} :
    (∃ id, pages.Misses page id) ↔ ¬pages.Has page := by
  simp only [Misses, Has, not_forall, ← Option.ne_none_iff_exists', ne_eq, not_not, exists_prop]

/-- All steps are good, and their pages are at hand. -/
def SectionSound (pages : Pages) (ss : List StoredStep) : Prop :=
  ∀ s ∈ ss, s.Good ∧ pages.Has s.page

/-- What is wrong with a section of a case of a suite. -/
inductive SectionFault (pages : Pages) (case suite : String) (ss : List StoredStep) : Error → Prop
  /-- The first step that is not good counts, whatever page is missing. -/
  | step {e : Error} (h : First StoredStep.Good (·.Fault e) ss) : SectionFault pages case suite ss e
  /-- If all steps are good, the first missing page counts. -/
  | page {id : Uuid} (hgood : ∀ s ∈ ss, s.Good)
      (h : First (fun s => pages.Has s.page) (fun s => pages.Misses s.page id) ss) :
      SectionFault pages case suite ss (.compilation ("Test case " ++ Error.quoted case
        ++ " in suite " ++ Error.quoted suite ++ ": " ++ ("Page " ++ id.text ++ " not found")))

lemma resolve_eq_error_iff {pages : Pages} {s : Step} {e : Error} :
    resolve pages s = .error e ↔ ∃ id, pages.Misses s.page id ∧ .unknownPage id = e := by
  cases hpage : s.page with
  | none => simp [resolve, Pages.Misses, hpage]
  | some id =>
      cases hp : pages id with
      | none => simp [resolve, Pages.Misses, hpage, hp]
      | some p =>
          simp only [resolve, Pages.Misses, hpage, hp]
          split <;> simp [hp]

lemma resolve_ok_iff {pages : Pages} {s : Step} :
    (∃ t, resolve pages s = .ok t) ↔ pages.Has s.page := by
  refine ⟨?_, fun h => (checks_resolve h).ok_iff.mpr trivial⟩
  rintro ⟨t, ht⟩
  by_contra hmiss
  obtain ⟨id, hid⟩ := Pages.exists_misses_iff.mpr hmiss
  rw [resolve_eq_error_iff.mpr ⟨id, hid, rfl⟩] at ht
  cases ht

/-- The first missing page is reported. -/
lemma checkedStepLines_eq_error_iff {style : Style} {pages : Pages} {ts : List Step} {e : Error} :
    checkedStepLines style pages ts = .error e
      ↔ First (fun t => pages.Has t.page)
          (fun t => ∃ id, pages.Misses t.page id ∧ .unknownPage id = e) ts := by
  induction ts with
  | nil => simp [checkedStepLines, not_first_nil]
  | cons t ts ih =>
      rw [first_cons]
      exact bind_eq_error_iff_of resolve_eq_error_iff resolve_ok_iff fun _ _ =>
        bind_ok_eq_error_iff.trans ih

lemma checkedStepLines_ok_iff {style : Style} {pages : Pages} {ts : List Step} :
    (∃ ls, checkedStepLines style pages ts = .ok ls) ↔ ∀ t ∈ ts, pages.Has t.page := by
  have hmisses : ∀ t ∈ ts, (∃ e, ∃ id, pages.Misses t.page id ∧ Error.unknownPage id = e)
      ↔ ¬pages.Has t.page := by
    intro t _
    rw [exists_comm, ← Pages.exists_misses_iff]
    simp
  refine not_iff_not.mp ?_
  rw [← exists_error_iff Iff.rfl, ← exists_first_iff hmisses]
  exact exists_congr fun _ => checkedStepLines_eq_error_iff

/-- Looking pages up for checked steps is looking them up for the stored ones. -/
lemma first_missing_iff {pages : Pages} {ss : List StoredStep} {ts : List Step}
    (h : StoredStep.checkAll ss = .ok ts) {e : Error} :
    First (fun t => pages.Has t.page)
        (fun t => ∃ id, pages.Misses t.page id ∧ .unknownPage id = e) ts
      ↔ First (fun s => pages.Has s.page)
        (fun s => ∃ id, pages.Misses s.page id ∧ .unknownPage id = e) ss := by
  rw [← first_map pages.Has (fun page => ∃ id, pages.Misses page id ∧ .unknownPage id = e)
    Step.page, StoredStep.pages_of_checkAll h, first_map]

lemma stepLines_eq_error_iff {style : Style} {pages : Pages} {ss : List StoredStep} {e : Error} :
    stepLines style pages ss = .error e
      ↔ First StoredStep.Good (·.Fault e) ss
        ∨ (∀ s ∈ ss, s.Good) ∧ First (fun s => pages.Has s.page)
            (fun s => ∃ id, pages.Misses s.page id ∧ .unknownPage id = e) ss :=
  bind_eq_error_iff_of StoredStep.checkAll_eq_error_iff (StoredStep.checks_checkAll ss).ok_iff
    fun _ hts => checkedStepLines_eq_error_iff.trans (first_missing_iff hts)

lemma stepLines_ok_iff {style : Style} {pages : Pages} {ss : List StoredStep} :
    (∃ ls, stepLines style pages ss = .ok ls) ↔ SectionSound pages ss := by
  constructor
  · rintro ⟨ls, hls⟩
    obtain ⟨ts, hts, hls⟩ := bind_eq_ok_iff.mp hls
    have hgood := (StoredStep.checks_checkAll ss).ok_iff.mp ⟨ts, hts⟩
    have hpages := checkedStepLines_ok_iff.mp ⟨ls, hls⟩
    rw [← List.forall_mem_map (P := pages.Has), StoredStep.pages_of_checkAll hts,
      List.forall_mem_map] at hpages
    exact fun s hs => ⟨hgood s hs, hpages s hs⟩
  · intro h
    exact (checks_stepLines style fun s hs => (h s hs).2).ok_iff.mpr fun s hs => (h s hs).1

/-- A fault of a step keeps its wording, and a missing page is told with the case and the suite. -/
lemma exists_locate_iff {style : Style} {pages : Pages} {c : Case} {suite : Suite}
    {ss : List StoredStep} {e : Error} :
    (∃ d, stepLines style pages ss = .error d ∧ locate c suite d = e)
      ↔ SectionFault pages c.name suite.name ss e := by
  have hkeep : ∀ d, First StoredStep.Good (·.Fault d) ss → locate c suite d = d := by
    rintro d ⟨before, s, after, -, -, hfault⟩
    obtain ⟨action, rfl⟩ | ⟨detail, rfl⟩ := hfault.kind <;> simp [locate]
  constructor
  · rintro ⟨d, hd, rfl⟩
    rcases stepLines_eq_error_iff.mp hd
      with hstep | ⟨hgood, before, s, after, hss, hhas, id, hid, rfl⟩
    · rw [hkeep d hstep]
      exact .step hstep
    · exact .page hgood ⟨before, s, after, hss, hhas, hid⟩
  · rintro (hstep | ⟨hgood, before, s, after, hss, hhas, hid⟩)
    · exact ⟨e, stepLines_eq_error_iff.mpr (.inl hstep), hkeep e hstep⟩
    · exact ⟨_, stepLines_eq_error_iff.mpr
        (.inr ⟨hgood, before, s, after, hss, hhas, _, hid, rfl⟩), rfl⟩

/-! ## Cases and suites -/

/-- All sections of a case are sound. -/
def CaseSound (pages : Pages) (c : Case) : Prop := ∀ ss ∈ c.sections, SectionSound pages ss

/-- What is wrong with a case: what is wrong with the first of its sections that is not sound. -/
def CaseFault (pages : Pages) (suite : String) (c : Case) (e : Error) : Prop :=
  First (SectionSound pages) (SectionFault pages c.name suite · e) c.sections

/-- A section that is left out is an empty one. -/
lemma hookLines_eq_error_iff {style : Style} {pages : Pages} {hook : String}
    {steps : Option (List StoredStep)} {e : Error} :
    hookLines style pages hook steps = .error e
      ↔ stepLines style pages (steps.getD []) = .error e := by
  match steps with
  | none => simp [hookLines, stepLines_eq_error_iff, not_first_nil]
  | some [] => simp [hookLines, stepLines_eq_error_iff, not_first_nil]
  | some (s :: rest) => exact bind_ok_eq_error_iff

lemma hookLines_ok_iff {style : Style} {pages : Pages} {hook : String}
    {steps : Option (List StoredStep)} :
    (∃ ls, hookLines style pages hook steps = .ok ls) ↔ SectionSound pages (steps.getD []) := by
  have hfails : (∃ e, hookLines style pages hook steps = .error e)
      ↔ ∃ e, stepLines style pages (steps.getD []) = .error e :=
    exists_congr fun _ => hookLines_eq_error_iff
  refine not_iff_not.mp ?_
  rw [← exists_error_iff Iff.rfl, hfails, exists_error_iff stepLines_ok_iff]

lemma caseLines_eq_error_iff {style : Style} {pages : Pages} {c : Case} {e : Error} :
    caseLines style pages c = .error e
      ↔ First (SectionSound pages) (fun ss => stepLines style pages ss = .error e) c.sections := by
  simp only [Case.sections, first_cons, not_first_nil, and_false, or_false]
  exact bind_eq_error_iff_of hookLines_eq_error_iff hookLines_ok_iff fun _ _ =>
    bind_eq_error_iff_of hookLines_eq_error_iff hookLines_ok_iff fun _ _ => bind_ok_eq_error_iff

lemma locatedCaseLines_eq_error_iff {style : Style} {pages : Pages} {suite : Suite} {c : Case}
    {e : Error} :
    locatedCaseLines style pages suite c = .error e ↔ CaseFault pages suite.name c e := by
  simp only [locatedCaseLines, mapError_eq_error_iff, caseLines_eq_error_iff,
    exists_and_first_iff, exists_locate_iff, CaseFault]

lemma caseLines_ok_iff {style : Style} {pages : Pages} {c : Case} :
    (∃ ls, caseLines style pages c = .ok ls) ↔ CaseSound pages c := by
  have hsections : ∀ ss ∈ c.sections, (∃ e, stepLines style pages ss = .error e)
      ↔ ¬SectionSound pages ss := fun ss _ => exists_error_iff stepLines_ok_iff
  refine not_iff_not.mp ?_
  rw [← exists_error_iff Iff.rfl, CaseSound, ← exists_first_iff hsections]
  exact exists_congr fun _ => caseLines_eq_error_iff

lemma locatedCaseLines_ok_iff {style : Style} {pages : Pages} {suite : Suite} {c : Case} :
    (∃ ls, locatedCaseLines style pages suite c = .ok ls) ↔ CaseSound pages c := by
  simp only [locatedCaseLines, mapError_eq_ok_iff, caseLines_ok_iff]

lemma casesLines_eq_error_iff {style : Style} {pages : Pages} {suite : Suite} {e : Error} :
    ∀ {cs : List Case}, casesLines style pages suite cs = .error e
      ↔ First (CaseSound pages) (CaseFault pages suite.name · e) cs
  | [] => by simp [casesLines, not_first_nil]
  | [c] => by
      simp only [casesLines, first_cons, not_first_nil, and_false, or_false]
      exact locatedCaseLines_eq_error_iff
  | c :: d :: cs => by
      rw [first_cons]
      exact bind_eq_error_iff_of locatedCaseLines_eq_error_iff locatedCaseLines_ok_iff fun _ _ =>
        bind_ok_eq_error_iff.trans casesLines_eq_error_iff

lemma testFile_eq_error_iff {style : Style} {pages : Pages} {suite : Suite} {e : Error} :
    testFile style pages suite = .error e
      ↔ First (CaseSound pages) (CaseFault pages suite.name · e) suite.cases :=
  map_eq_error_iff.trans (bind_ok_eq_error_iff.trans casesLines_eq_error_iff)

/-- **What is reported of a suite that has no test file.**  There is none just when a step of some
section is not good or refers to a page that is missing.  What is reported is the fault of the
first section that has one, of the first case that has one.  Whether cases are enabled makes no
difference. -/
theorem testFile_faults (style : Style) (pages : Pages) (suite : Suite) :
    ((∃ e, testFile style pages suite = .error e)
      ↔ ∃ c ∈ suite.cases, ∃ ss ∈ c.sections, ∃ s ∈ ss,
          ¬s.Good ∨ ∃ id, s.page = some id ∧ pages id = none)
    ∧ (∀ e, testFile style pages suite = .error e
      ↔ First (CaseSound pages) (CaseFault pages suite.name · e) suite.cases)
    ∧ ∀ (enabled : Case → Bool) (e : Error),
      testFile style pages
          { suite with cases := suite.cases.map fun c => { c with enabled := enabled c } }
          = .error e
        ↔ testFile style pages suite = .error e := by
  have hcases : ∀ c ∈ suite.cases, (∃ e, CaseFault pages suite.name c e) ↔ ¬CaseSound pages c := by
    intro c _
    have hfails : (∃ e, locatedCaseLines style pages suite c = .error e) ↔ ¬CaseSound pages c :=
      exists_error_iff locatedCaseLines_ok_iff
    exact (exists_congr fun _ => locatedCaseLines_eq_error_iff.symm).trans hfails
  refine ⟨?_, fun _ => testFile_eq_error_iff, fun enabled e => ?_⟩
  · simp only [testFile_eq_error_iff, exists_first_iff hcases, CaseSound, SectionSound, not_forall,
      not_and_or, ← Pages.exists_misses_iff, Pages.Misses, exists_prop]
  · rw [testFile_eq_error_iff, testFile_eq_error_iff, first_map]
    exact Iff.rfl

/-- A step that is not good comes before a page that is missing, although it stands behind. -/
example : testFile .standard (fun _ => none) (.make ⟨1⟩ ⟨2⟩ "Shop" [.make ⟨3⟩ "pays"
    [{ StoredStep.make "click" "go" with page := some ⟨7⟩ }, .make "drag" "#b"]])
    = .error (.unknownAction "drag") := by
  rfl

end Source

end Rehearsal
