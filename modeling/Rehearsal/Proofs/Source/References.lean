import Mathlib
import Rehearsal.Proofs.Plan

/-!
# The pages that a test file is made from

The pages of a suite are collected by going through all its steps, and the file is made by going
through them again, in another order and with another purpose.

* `testFile_congr`: **pages that no step refers to make no difference**, and of the others only the
  selectors count.
* `pairwise_idxOf_distinctFrom`: what is kept of a list stands in the order in which it first
  occurs there.
* `collected_pages_suffice`: the pages that are collected are those that are needed, each once, in
  the order of the first reference.
-/

namespace Rehearsal

namespace Source

/-! ## What a file is made from -/

/-- A page is at hand here and there with the same selectors, or missing here and there. -/
def Pages.Agree (pages pages' : Pages) (id : Uuid) : Prop :=
  (pages id).map Page.selectors = (pages' id).map Page.selectors

variable (style : Style) {pages pages' : Pages}

lemma resolve_congr {s : Step} (h : ∀ id, s.page = some id → pages.Agree pages' id) :
    resolve pages s = resolve pages' s := by
  cases hpage : s.page with
  | none => simp only [resolve, hpage]
  | some id =>
      have hid : (pages id).map Page.selectors = (pages' id).map Page.selectors := h id hpage
      simp only [resolve, hpage]
      cases hp : pages id with
      | none =>
          rw [hp, Option.map_none, eq_comm, Option.map_eq_none_iff] at hid
          simp only [hid]
      | some p =>
          rw [hp, Option.map_some, eq_comm, Option.map_eq_some_iff] at hid
          obtain ⟨q, hq, hselectors⟩ := hid
          simp only [hq, hselectors]

lemma checkedStepLines_congr {ts : List Step}
    (h : ∀ t ∈ ts, ∀ id, t.page = some id → pages.Agree pages' id) :
    checkedStepLines style pages ts = checkedStepLines style pages' ts := by
  induction ts with
  | nil => rfl
  | cons t ts ih =>
      obtain ⟨ht, hts⟩ := List.forall_mem_cons.mp h
      rw [checkedStepLines, checkedStepLines, resolve_congr ht, ih hts]

/-- Some step of a list refers to the page. -/
def Mentions (ss : List StoredStep) (id : Uuid) : Prop := ∃ s ∈ ss, s.page = some id

lemma stepLines_congr {ss : List StoredStep} (h : ∀ id, Mentions ss id → pages.Agree pages' id) :
    stepLines style pages ss = stepLines style pages' ss := by
  rw [stepLines, stepLines]
  cases hchecked : StoredStep.checkAll ss with
  | error e => rfl
  | ok ts =>
      refine checkedStepLines_congr style fun t ht id hid => h id ?_
      have hmem : t.page ∈ ss.map StoredStep.page :=
        StoredStep.pages_of_checkAll hchecked ▸ List.mem_map_of_mem ht
      obtain ⟨s, hs, hpage⟩ := List.mem_map.mp hmem
      exact ⟨s, hs, hpage.trans hid⟩

lemma hookLines_congr (hook : String) {steps : Option (List StoredStep)}
    (h : ∀ id, Mentions (steps.getD []) id → pages.Agree pages' id) :
    hookLines style pages hook steps = hookLines style pages' hook steps := by
  match steps, h with
  | none, _ => rfl
  | some [], _ => rfl
  | some (s :: rest), h =>
      rw [Option.getD_some] at h
      rw [hookLines, hookLines, stepLines_congr style h]

lemma caseLines_congr {c : Case} (h : ∀ id, Mentions c.allSteps id → pages.Agree pages' id) :
    caseLines style pages c = caseLines style pages' c := by
  have hpart : ∀ ss, ss ⊆ c.allSteps → ∀ id, Mentions ss id → pages.Agree pages' id := by
    rintro ss hss id ⟨s, hs, hid⟩
    exact h id ⟨s, hss hs, hid⟩
  have hbefore := hookLines_congr style "beforeEach"
    (hpart (c.beforeEach.getD []) (by simp [Case.allSteps]))
  have hafter := hookLines_congr style "afterEach"
    (hpart (c.afterEach.getD []) (by simp [Case.allSteps]))
  have hsteps := stepLines_congr style (hpart c.steps (by simp [Case.allSteps]))
  simp only [caseLines, hbefore, hafter, hsteps]

lemma casesLines_congr {suite : Suite} : ∀ {cs : List Case},
    (∀ c ∈ cs, ∀ id, Mentions c.allSteps id → pages.Agree pages' id) →
      casesLines style pages suite cs = casesLines style pages' suite cs
  | [], _ => rfl
  | [c], h => by
      simp only [casesLines, locatedCaseLines,
        caseLines_congr style (h c (List.mem_singleton_self c))]
  | c :: d :: cs, h => by
      obtain ⟨hc, hmore⟩ := List.forall_mem_cons.mp h
      simp only [casesLines, locatedCaseLines, caseLines_congr style hc, casesLines_congr hmore]

/-- Pages that no step refers to make no difference. -/
lemma testFile_congr {suite : Suite}
    (h : ∀ c ∈ suite.cases, ∀ id, Mentions c.allSteps id → pages.Agree pages' id) :
    testFile style pages suite = testFile style pages' suite := by
  rw [testFile, testFile, testFileLines, testFileLines, casesLines_congr style h]

end Source

/-! ## What is collected -/

/-- The order in which things are kept is that of their first occurrence.  `before` is the part of
the list that was gone through. -/
lemma pairwise_idxOf_distinctFrom {α : Type} [DecidableEq α] (as : List α) {seen : List α}
    (before : List α) (h : ∀ a, a ∈ seen ↔ a ∈ before) :
    (distinctFrom seen as).Pairwise fun a b =>
      (before ++ as).idxOf a < (before ++ as).idxOf b := by
  induction as generalizing seen before with
  | nil => exact List.Pairwise.nil
  | cons a as ih =>
      have hsplit : before ++ a :: as = before ++ [a] ++ as := by
        rw [List.append_assoc, List.singleton_append]
      rw [distinctFrom]
      split_ifs with ha
      · rw [hsplit]
        refine ih (before ++ [a]) fun b => ?_
        rw [List.mem_append, List.mem_singleton, h b, or_iff_left_of_imp]
        rintro rfl
        exact (h b).mp ha
      · refine List.pairwise_cons.mpr ⟨fun b hb => ?_, ?_⟩
        · -- `a` stands where `before` ends, and `b` only behind it
          obtain ⟨-, hb⟩ := Plan.mem_distinctFrom.mp hb
          rw [List.mem_cons, not_or] at hb
          rw [List.idxOf_append_of_notMem (fun hmem => ha ((h a).mpr hmem)),
            List.idxOf_append_of_notMem (fun hmem => hb.2 ((h b).mpr hmem)), List.idxOf_cons_self,
            List.idxOf_cons_ne _ (Ne.symm hb.1)]
          omega
        · rw [hsplit]
          refine ih (before ++ [a]) fun b => ?_
          rw [List.mem_cons, List.mem_append, List.mem_singleton, h b, or_comm]

/-- The pages that the steps of a suite refer to, with repetitions: case by case, the steps before
the test, the steps of the test, the steps after it. -/
def Suite.mentions (s : Suite) : List Uuid :=
  s.cases.flatMap fun c =>
    (c.beforeEach.getD [] ++ c.steps ++ c.afterEach.getD []).filterMap StoredStep.page

lemma Suite.pageIds_eq (s : Suite) : s.pageIds = distinctFrom [] s.mentions := rfl

lemma Suite.mem_pageIds {s : Suite} {id : Uuid} :
    id ∈ s.pageIds ↔ ∃ c ∈ s.cases, Source.Mentions c.allSteps id := by
  simp only [pageIds_eq, Plan.mem_distinctFrom, mentions, List.mem_flatMap, List.mem_filterMap,
    List.not_mem_nil, not_false_eq_true, and_true, Source.Mentions, Case.allSteps]

/-- **The pages that are collected for a suite are all that its test file is made from.**  Two
collections of pages that agree on them give the same file or the same fault.  They are the pages
that some step refers to, each once, in the order in which the steps first mention them. -/
theorem Source.collected_pages_suffice (suite : Suite) :
    (∀ style pages pages', (∀ id ∈ suite.pageIds, Pages.Agree pages pages' id) →
      testFile style pages suite = testFile style pages' suite)
    ∧ suite.pageIds.Nodup
    ∧ (∀ id, id ∈ suite.pageIds ↔ ∃ c ∈ suite.cases,
        ∃ s ∈ c.beforeEach.getD [] ++ c.steps ++ c.afterEach.getD [], s.page = some id)
    ∧ suite.pageIds.Pairwise fun a b => suite.mentions.idxOf a < suite.mentions.idxOf b := by
  refine ⟨fun style pages pages' h => ?_, ?_, fun _ => Suite.mem_pageIds, ?_⟩
  · exact testFile_congr style fun c hc id hid => h id (Suite.mem_pageIds.mpr ⟨c, hc, hid⟩)
  · exact Plan.nodup_distinctFrom _ _
  · exact pairwise_idxOf_distinctFrom suite.mentions [] fun _ => Iff.rfl

/-- A step on an element of a page. -/
def onPage (action selector : String) (page : Uuid) : StoredStep :=
  { StoredStep.make action selector with page := some page }

/-- A suite that refers to one page before the test and in it, and to another one in it. -/
def signIn : Suite :=
  .make ⟨1⟩ ⟨2⟩ "Shop" [{
    Case.make ⟨3⟩ "signs in" [onPage "click" "go" ⟨7⟩, onPage "click" "go" ⟨8⟩]
    with beforeEach := some [onPage "wait" "go" ⟨8⟩] }]

/-- A page with one named element. -/
def formPage (name : String) : Page :=
  { Page.make ⟨7⟩ name "https://example.com" with
    selectors := ⟨[("go", ⟨.css, "#form"⟩)], by decide⟩ }

/-- Other names of the pages and a page that no step refers to make no difference. -/
theorem Source.collected_pages_suffice_sign_in :
    signIn.pageIds = [⟨8⟩, ⟨7⟩]
    ∧ (∀ id ∈ signIn.pageIds, Pages.Agree (fun id => if id = ⟨9⟩ then none else formPage "Form")
        (fun _ => some (formPage "Sign in")) id)
    ∧ testFile .standard (fun id => if id = ⟨9⟩ then none else formPage "Form") signIn
      = testFile .standard (fun _ => some (formPage "Sign in")) signIn := by
  have hids : signIn.pageIds = [⟨8⟩, ⟨7⟩] := by
    decide
  have hagree : ∀ id ∈ signIn.pageIds,
      Pages.Agree (fun id => if id = ⟨9⟩ then none else formPage "Form")
        (fun _ => some (formPage "Sign in")) id := by
    rw [hids]
    simp only [List.forall_mem_cons]
    exact ⟨rfl, rfl, by simp⟩
  exact ⟨hids, hagree, (collected_pages_suffice signIn).1 .standard _ _ hagree⟩

end Rehearsal
