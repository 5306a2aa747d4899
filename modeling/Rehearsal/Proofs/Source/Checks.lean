import Mathlib
import Rehearsal.Source.PageObject
import Rehearsal.Source.Spec
import Rehearsal.Proofs.Check
import Rehearsal.Proofs.Text.Name

/-!
# When the renderers have something to render

* `StoredStep.Good`: the steps that can be carried out.
* `Source.checks_testFile`: there is a test file **just when all steps are good**, if the pages
  they refer to are at hand.
* `Source.checks_pageObject`: there is a page object **just when the class and its accessors can
  be named**, if the page is valid.
-/

namespace Rehearsal

/-! ## Steps -/

/-- One of the six actions, on some element, with a value if the action needs one. -/
structure StoredStep.Good (s : StoredStep) : Prop where
  action : s.action ∈ ["click", "type", "select", "hover", "wait", "assert"]
  value : s.action ∈ ["type", "select"] → ∃ v, s.value = some v ∧ v ≠ ""
  selector : s.selector ≠ ""

namespace StoredStep

lemma givenValue?_eq_some_iff {s : StoredStep} {v : String} :
    s.givenValue? = some v ↔ s.value = some v ∧ v ≠ "" := by
  rw [givenValue?]
  cases s.value with
  | none => simp
  | some w =>
      dsimp only
      by_cases hw : w = ""
      · rw [if_pos hw]
        simp only [reduceCtorEq, Option.some.injEq, false_iff, not_and, not_not]
        exact fun h => h ▸ hw
      · rw [if_neg hw, Option.some.injEq]
        exact (and_iff_left_of_imp fun h => h ▸ hw).symm

lemma checks_action? (s : StoredStep) : Checks s.action?
    (s.action ∈ ["click", "type", "select", "hover", "wait", "assert"]
      ∧ (s.action ∈ ["type", "select"] → ∃ v, s.value = some v ∧ v ≠ "")) := by
  have hnone : s.givenValue? = none → ¬∃ v, s.value = some v ∧ v ≠ "" := by
    rintro h ⟨v, hv⟩
    rw [givenValue?_eq_some_iff.mpr hv] at h
    cases h
  rw [action?]
  split_ifs with h₁ h₂ h₃ h₄ h₅ h₆
  · exact .ok (by simp [h₁])
  · cases h : s.givenValue? with
    | some v => exact .ok ⟨by simp [h₂], fun _ => ⟨v, givenValue?_eq_some_iff.mp h⟩⟩
    | none =>
        refine .error (by simp [Error.missingText, Error.category]) fun hgood => ?_
        exact hnone h (hgood.2 (by simp [h₂]))
  · cases h : s.givenValue? with
    | some v => exact .ok ⟨by simp [h₃], fun _ => ⟨v, givenValue?_eq_some_iff.mp h⟩⟩
    | none =>
        refine .error (by simp [Error.missingOption, Error.category]) fun hgood => ?_
        exact hnone h (hgood.2 (by simp [h₃]))
  · exact .ok (by simp [h₄])
  · exact .ok (by simp [h₅])
  · exact .ok (by simp [h₆])
  · exact .error (by simp [Error.category]) fun hgood => by simp_all

/-- A step is taken just when it is good. -/
lemma checks_check (s : StoredStep) : Checks s.check s.Good := by
  have hselector := fun (a : Action) (_ : s.action? = .ok a) =>
    Checks.ite (e := .missingSelector s.action) (c := s.selector = "")
      (by simp [Error.missingSelector, Error.category])
      fun _ => Checks.ok (a := Step.mk a s.selector s.description s.page) trivial
  refine (s.checks_action?.bind hselector).congr ⟨?_, ?_⟩
  · rintro ⟨⟨haction, hvalue⟩, hselector, -⟩
    exact ⟨haction, hvalue, hselector⟩
  · rintro ⟨haction, hvalue, hselector⟩
    exact ⟨⟨haction, hvalue⟩, hselector, trivial⟩

lemma checks_checkAll (ss : List StoredStep) : Checks (checkAll ss) (∀ s ∈ ss, s.Good) := by
  induction ss with
  | nil => exact .ok (by simp)
  | cons s ss ih =>
      refine (s.checks_check.bind fun _ _ => ih.bind_ok).congr ?_
      rw [List.forall_mem_cons]

/-- Every step is checked in its place. -/
lemma checkAll_eq_ok_iff {ss : List StoredStep} {ts : List Step} :
    checkAll ss = .ok ts ↔ List.Forall₂ (fun s t => s.check = .ok t) ss ts := by
  induction ss generalizing ts with
  | nil => cases ts <;> simp [checkAll]
  | cons s ss ih =>
      simp only [checkAll, bind_eq_ok_iff, ih]
      constructor
      · rintro ⟨t, ht, us, hus, h⟩
        cases h
        exact .cons ht hus
      · rintro (_ | ⟨ht, hus⟩)
        exact ⟨_, ht, _, hus, rfl⟩

lemma page_of_check {s : StoredStep} {t : Step} (h : s.check = .ok t) : t.page = s.page := by
  obtain ⟨a, -, h⟩ := bind_eq_ok_iff.mp h
  split_ifs at h
  cases h
  rfl

/-- Checking keeps the pages. -/
lemma pages_of_checkAll {ss : List StoredStep} {ts : List Step} (h : checkAll ss = .ok ts) :
    ts.map Step.page = ss.map StoredStep.page := by
  rw [← List.forall₂_eq_eq_eq, List.forall₂_map_left_iff, List.forall₂_map_right_iff]
  exact ((checkAll_eq_ok_iff.mp h).imp fun _ _ => page_of_check).flip

end StoredStep

namespace Source

/-! ## Test files -/

/-- The pages at hand include one that is referred to. -/
def Pages.Has (pages : Pages) (page : Option Uuid) : Prop :=
  ∀ id, page = some id → ∃ p, pages id = some p

lemma checks_resolve {pages : Pages} {s : Step} (h : pages.Has s.page) :
    Checks (resolve pages s) True := by
  cases hpage : s.page with
  | none => simpa only [resolve, hpage] using Checks.ok trivial
  | some id =>
      obtain ⟨p, hp⟩ := h id hpage
      simp only [resolve, hpage, hp]
      split <;> exact .ok trivial

lemma checks_checkedStepLines (style : Style) {pages : Pages} {ts : List Step}
    (h : ∀ page ∈ ts.map Step.page, pages.Has page) :
    Checks (checkedStepLines style pages ts) True := by
  induction ts with
  | nil => exact .ok trivial
  | cons t ts ih =>
      obtain ⟨ht, hts⟩ := List.forall_mem_cons.mp h
      exact ((checks_resolve ht).bind fun _ _ => (ih hts).bind_ok).congr (and_self_iff)

lemma checks_stepLines (style : Style) {pages : Pages} {ss : List StoredStep}
    (h : ∀ s ∈ ss, pages.Has s.page) :
    Checks (stepLines style pages ss) (∀ s ∈ ss, s.Good) := by
  refine ((StoredStep.checks_checkAll ss).bind fun ts hts => ?_).congr (and_iff_left trivial)
  refine checks_checkedStepLines style fun page hpage => ?_
  rw [StoredStep.pages_of_checkAll hts] at hpage
  obtain ⟨s, hs, rfl⟩ := List.mem_map.mp hpage
  exact h s hs

lemma checks_hookLines (style : Style) {pages : Pages} (hook : String)
    {steps : Option (List StoredStep)} (h : ∀ s ∈ steps.getD [], pages.Has s.page) :
    Checks (hookLines style pages hook steps) (∀ s ∈ steps.getD [], s.Good) := by
  match steps, h with
  | none, _ => exact .ok (by simp)
  | some [], _ => exact .ok (by simp)
  | some (s :: rest), h => exact (checks_stepLines style h).bind_ok

lemma checks_caseLines (style : Style) {pages : Pages} {c : Case}
    (h : ∀ s ∈ c.allSteps, pages.Has s.page) :
    Checks (caseLines style pages c) (∀ s ∈ c.allSteps, s.Good) := by
  simp only [Case.allSteps, List.forall_mem_append] at h ⊢
  obtain ⟨⟨hbefore, hsteps⟩, hafter⟩ := h
  refine ((checks_hookLines style "beforeEach" hbefore).bind fun _ _ =>
    (checks_hookLines style "afterEach" hafter).bind fun _ _ =>
      (checks_stepLines style hsteps).bind_ok).congr ?_
  tauto

/-- A fault that names its case stays out of the class of executions. -/
lemma locate_category (c : Case) (s : Suite) (e : Error) (he : e.category ≠ .execution) :
    (locate c s e).category ≠ .execution := by
  simp only [locate]
  split <;> simp [Error.inCase, Error.category]

lemma checks_casesLines (style : Style) {pages : Pages} (suite : Suite) : ∀ {cs : List Case},
    (∀ c ∈ cs, ∀ s ∈ c.allSteps, pages.Has s.page) →
      Checks (casesLines style pages suite cs) (∀ c ∈ cs, ∀ s ∈ c.allSteps, s.Good)
  | [], _ => .ok (by simp)
  | [c], h => by
      have hc := checks_caseLines style (h c (by simp))
      exact (hc.mapError (locate_category c suite)).congr (by simp)
  | c :: d :: cs, h => by
      obtain ⟨hc, hcs⟩ := List.forall_mem_cons.mp h
      have hfirst := (checks_caseLines style hc).mapError (locate_category c suite)
      refine (hfirst.bind fun _ _ => (checks_casesLines style suite hcs).bind_ok).congr ?_
      rw [List.forall_mem_cons (a := c)]

/-- There is a test file just when all steps are good. -/
theorem checks_testFile (style : Style) {pages : Pages} {suite : Suite}
    (h : ∀ c ∈ suite.cases, ∀ s ∈ c.allSteps, pages.Has s.page) :
    Checks (testFile style pages suite) (∀ c ∈ suite.cases, ∀ s ∈ c.allSteps, s.Good) :=
  (checks_casesLines style suite h).bind_ok.map

/-! ## Page objects -/

/-- The names of the accessors of a page. -/
def accessorNames (p : Page) : List String :=
  p.selectors.entries.map fun e => Text.accessorName e.1

/-- Accessors can be made: each has a name, and no name is used twice or for something else. -/
structure AccessorsFit (p : Page) : Prop where
  named : "" ∉ accessorNames p
  free : ∀ name ∈ accessorNames p, name ∉ reservedMembers
  distinct : (accessorNames p).Nodup

lemma checks_accessorsFrom (page : String) (es : List (String × Selector)) (taken : List String) :
    Checks (accessorsFrom page taken es)
      ("" ∉ es.map (fun e => Text.accessorName e.1)
        ∧ (∀ name ∈ es.map (fun e => Text.accessorName e.1), name ∉ taken)
        ∧ (es.map fun e => Text.accessorName e.1).Nodup) := by
  induction es generalizing taken with
  | nil => exact .ok (by simp)
  | cons e es ih =>
      obtain ⟨key, s⟩ := e
      refine Checks.congr (Checks.ite (by simp [Error.clashingAccessor, Error.category])
        fun _ => (ih (Text.accessorName key :: taken)).bind_ok) ?_
      simp only [Bool.or_eq_true, decide_eq_true_eq, List.contains_eq_mem, not_or,
        List.map_cons, List.mem_cons, List.nodup_cons, forall_eq_or_imp]
      constructor
      · rintro ⟨⟨hne, hfree⟩, hnamed, hothers, hnodup⟩
        refine ⟨⟨Ne.symm hne, hnamed⟩, ⟨hfree, fun n hn => (hothers n hn).2⟩, ?_, hnodup⟩
        exact fun hmem => (hothers _ hmem).1 rfl
      · rintro ⟨⟨hne, hnamed⟩, ⟨hfree, hothers⟩, hnotMem, hnodup⟩
        refine ⟨⟨Ne.symm hne, hfree⟩, hnamed, fun n hn => ⟨?_, hothers n hn⟩, hnodup⟩
        rintro rfl
        exact hnotMem hn

lemma checks_accessors (p : Page) : Checks (accessors p) (AccessorsFit p) := by
  refine (checks_accessorsFrom p.name p.selectors.entries reservedMembers).congr ⟨?_, ?_⟩
  · rintro ⟨hnamed, hfree, hnodup⟩
    exact ⟨hnamed, hfree, hnodup⟩
  · rintro ⟨hnamed, hfree, hnodup⟩
    exact ⟨hnamed, hfree, hnodup⟩

lemma checks_waitLines (style : Style) (p : Page) {ws : List WaitCondition}
    (h : Page.checkConditions ws = .ok ()) : Checks (waitLines style p ws) True := by
  induction ws with
  | nil => exact .ok trivial
  | cons w ws ih =>
      obtain ⟨state, hstate, h⟩ := bind_eq_ok_iff.mp h
      have hw : Checks w.state True := by
        rw [hstate]
        exact .ok trivial
      exact (hw.bind fun _ _ => (ih h).bind_ok).congr and_self_iff

variable [Libraries]

lemma checks_readyLines (style : Style) {p : Page} (h : p.validate = .ok ()) :
    Checks (readyLines style p) True := by
  rw [readyLines]
  split_ifs
  · exact .ok trivial
  · refine (checks_waitLines style p ?_).bind_ok
    rw [Page.validate] at h
    split_ifs at h
    obtain ⟨_, -, h⟩ := bind_eq_ok_iff.mp h
    obtain ⟨_, -, h⟩ := bind_eq_ok_iff.mp h
    exact h

/-- There is an object for a valid page just when its class and its accessors can be named. -/
theorem checks_pageObject (style : Style) {p : Page} (h : p.validate = .ok ()) :
    Checks (pageObject style p) (Text.hasAlnum p.name = true ∧ AccessorsFit p) := by
  have hvalid : Checks p.validate True := by
    rw [h]
    exact .ok trivial
  have hlines : Checks (pageObjectLines style p)
      (True ∧ ¬Text.className p.name = "" ∧ AccessorsFit p ∧ True) := by
    refine hvalid.bind fun _ _ => Checks.ite ?_ fun _ => ?_
    · simp [Error.emptyClassName, Error.category]
    · exact (checks_accessors p).bind fun _ _ => (checks_readyLines style h).bind_ok
  refine hlines.map.congr ?_
  rw [Text.className_eq_empty_iff, Bool.not_eq_false]
  tauto

end Source

end Rehearsal
