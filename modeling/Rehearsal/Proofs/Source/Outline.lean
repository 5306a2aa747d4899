import Mathlib
import Rehearsal.Proofs.Fallible
import Rehearsal.Proofs.Source.Line

/-!
# A test file says what its suite says

What a suite asks for is its outline: the cases in order, for each case whether it runs, the
steps before, in and after the test, each as action, value and element, and the expectations.
A test file is read line by line, and the reading comes to the outline of **any** suite that
renders to it.

* `Outline.of`: the outline of a suite, straight from what is stored.
* `Reading.take` takes one line; `Reads` says what a block of lines does to a reading.
* `Reads.testFileLines`: reading all the lines of a file gives the outline.  The lemmas before it
  follow the renderer, one for each of its functions.
* `outline_eq_of_testFile_eq`: hence two suites with one file have one outline.
-/

namespace Rehearsal.Source

open Text

/-! ## Outlines -/

/-- What a step does to which element. -/
structure Deed where
  action : String
  /-- What is typed or selected. -/
  value : Option String
  element : String
deriving DecidableEq, Repr

/-- The element that a stored step means: where its page knows the name, the locator that stands
there; otherwise what the step says. -/
def elementOf (pages : Pages) (s : StoredStep) : String :=
  match (s.page.bind pages).bind fun p => p.selectors.get? s.selector with
  | some selector => selector.locator
  | none => s.selector

/-- What a stored step does. -/
def deedOf (pages : Pages) (s : StoredStep) : Deed where
  action := s.action
  value := if s.action = "type" ∨ s.action = "select" then s.value else none
  element := elementOf pages s

/-- What a case asks for. -/
structure CaseOutline where
  name : String
  enabled : Bool
  before : List Deed
  after : List Deed
  steps : List Deed
  /-- Selector, comparison and the text of the expected value. -/
  expectations : List (String × String × String)
deriving DecidableEq, Repr

/-- What a suite asks for. -/
structure Outline where
  name : String
  cases : List CaseOutline
deriving DecidableEq, Repr

/-- The outline of a stored case.  Steps that are not there are no steps. -/
def CaseOutline.of (pages : Pages) (c : Case) : CaseOutline where
  name := c.name
  enabled := c.enabled
  before := (c.beforeEach.getD []).map (deedOf pages)
  after := (c.afterEach.getD []).map (deedOf pages)
  steps := c.steps.map (deedOf pages)
  expectations := (c.expectations.getD []).map fun e =>
    (e.selector, e.comparison, e.expected.compact)

/-- The outline of a stored suite. -/
def Outline.of (pages : Pages) (s : Suite) : Outline where
  name := s.name
  cases := s.cases.map (CaseOutline.of pages)

/-! ## Reading a file -/

/-- The part of a case that steps belong to. -/
inductive Part where
  | before
  | after
  | steps
deriving DecidableEq

/-- What has been read so far. -/
structure Reading where
  name : String
  /-- The cases that are over. -/
  done : List CaseOutline
  /-- The case at hand. -/
  current : CaseOutline
  part : Part

/-- A case of which nothing but the name is known. -/
def CaseOutline.begin (name : String) : CaseOutline := ⟨name, false, [], [], [], []⟩

/-- Adds deeds to a part of a case. -/
def CaseOutline.add (c : CaseOutline) (part : Part) (ds : List Deed) : CaseOutline :=
  match part with
  | .before => { c with before := c.before ++ ds }
  | .after => { c with after := c.after ++ ds }
  | .steps => { c with steps := c.steps ++ ds }

namespace Reading

/-- Before the first line. -/
def start : Reading := ⟨"", [], .begin "", .steps⟩

/-- Adds deeds to the part at hand. -/
def add (r : Reading) (ds : List Deed) : Reading :=
  { r with current := r.current.add r.part ds }

/-- Begins a part of the case at hand. -/
def enter (r : Reading) (part : Part) : Reading := { r with part := part }

/-- Takes a whole block around the test, if it is there. -/
def around (r : Reading) (part : Part) (ds : List Deed) : Reading :=
  if ds = [] then r else ((r.enter part).add ds).enter .steps

/-- Comes to the test of the case at hand. -/
def enterTest (r : Reading) (enabled : Bool) : Reading :=
  { r with current := { r.current with enabled := enabled } }

/-- Adds expectations to the case at hand. -/
def expect (r : Reading) (es : List (String × String × String)) : Reading :=
  { r with current := { r.current with expectations := r.current.expectations ++ es } }

/-- Takes one line. -/
def take (r : Reading) : Line → Reading
  | ⟨.suite, [name]⟩ => { r with name := name }
  | ⟨.case, [name]⟩ => { r with current := .begin name, part := .steps }
  | ⟨.before, []⟩ => r.enter .before
  | ⟨.after, []⟩ => r.enter .after
  | ⟨.test, [_]⟩ => r.enterTest true
  | ⟨.skip, [_]⟩ => r.enterTest false
  | ⟨.click, [target]⟩ => r.add [⟨"click", none, target⟩]
  | ⟨.type, [target, value]⟩ => r.add [⟨"type", some value, target⟩]
  | ⟨.select, [target, value]⟩ => r.add [⟨"select", some value, target⟩]
  | ⟨.hover, [target]⟩ => r.add [⟨"hover", none, target⟩]
  | ⟨.wait, [target]⟩ => r.add [⟨"wait", none, target⟩]
  | ⟨.assert, [target]⟩ => r.add [⟨"assert", none, target⟩]
  | ⟨.expectation, [selector, comparison, value]⟩ => r.expect [(selector, comparison, value)]
  | ⟨.blockEnd, []⟩ => r.enter .steps
  | ⟨.caseEnd, []⟩ => { r with done := r.done ++ [r.current] }
  | _ => r

end Reading

/-- Reading a block of lines comes to a function of what was read before. -/
def Reads (block : List String) (f : Reading → Reading) : Prop := Follows Reading.take block f

/-! ## Steps -/

/-- The value that a checked action carries. -/
def valueOf : Action → Option String
  | .type v => some v
  | .select v => some v
  | _ => none

/-- The line of a checked step. -/
def Line.ofStep (s : Step) : Line :=
  match s.action with
  | .click => ⟨.click, [s.selector]⟩
  | .type v => ⟨.type, [s.selector, v]⟩
  | .select v => ⟨.select, [s.selector, v]⟩
  | .hover => ⟨.hover, [s.selector]⟩
  | .wait => ⟨.wait, [s.selector]⟩
  | .assert => ⟨.assert, [s.selector]⟩

lemma Line.sound_ofStep (s : Step) : (Line.ofStep s).Sound := by
  rw [Line.ofStep]
  split <;> repeat constructor

lemma Line.text_ofStep (s : Step) : Style.standard.line 3 s.compile = (Line.ofStep s).text := by
  obtain ⟨action, selector, description, page⟩ := s
  cases action <;>
    simp only [Line.ofStep, Line.text, Mark.start, Mark.depth, Mark.opening, Mark.slots, fill,
      Style.line, Step.compile, String.append_assoc, String.append_empty, if_true]

lemma Reading.take_ofStep (r : Reading) (s : Step) :
    r.take (Line.ofStep s) = r.add [⟨s.action.name, valueOf s.action, s.selector⟩] := by
  obtain ⟨action, selector, description, page⟩ := s
  cases action <;> rfl

/-- The action of a step that was checked is the one that is stored. -/
lemma action?_eq_ok {s : StoredStep} {a : Action} (h : s.action? = .ok a) :
    a.name = s.action
      ∧ valueOf a = if s.action = "type" ∨ s.action = "select" then s.value else none := by
  have hvalue : ∀ v, s.givenValue? = some v → s.value = some v := by
    intro v hv
    rw [StoredStep.givenValue?] at hv
    split at hv
    · split_ifs at hv
      simp_all
    · simp at hv
  rw [StoredStep.action?] at h
  split_ifs at h with h₁ h₂ h₃ h₄ h₅ h₆
  · cases h; simp [Action.name, valueOf, h₁]
  · cases hg : s.givenValue? with
    | none => simp [hg] at h
    | some v =>
        simp only [hg, Except.ok.injEq] at h
        subst h
        simp [Action.name, valueOf, h₂, hvalue v hg]
  · cases hg : s.givenValue? with
    | none => simp [hg] at h
    | some v =>
        simp only [hg, Except.ok.injEq] at h
        subst h
        simp [Action.name, valueOf, h₃, hvalue v hg]
  · cases h; simp [Action.name, valueOf, h₄]
  · cases h; simp [Action.name, valueOf, h₅]
  · cases h; simp [Action.name, valueOf, h₆]

/-- Checking and resolving a stored step keeps what it does. -/
lemma deed_of_check {pages : Pages} {s : StoredStep} {t u : Step} (ht : s.check = .ok t)
    (hu : resolve pages t = .ok u) :
    ⟨u.action.name, valueOf u.action, u.selector⟩ = deedOf pages s := by
  obtain ⟨a, ha, ht⟩ := bind_eq_ok_iff.mp ht
  obtain ⟨hname, hvalue⟩ := action?_eq_ok ha
  split_ifs at ht
  cases ht
  cases hp : s.page with
  | none =>
      simp only [resolve, hp, Except.ok.injEq] at hu
      subst hu
      simp [deedOf, elementOf, hp, hname, hvalue]
  | some id =>
      cases hpage : pages id with
      | none => simp [resolve, hp, hpage] at hu
      | some p =>
          cases hsel : p.selectors.get? s.selector with
          | none =>
              simp only [resolve, hp, hpage, hsel, Except.ok.injEq] at hu
              subst hu
              simp [deedOf, elementOf, hp, hpage, hsel, hname, hvalue]
          | some sel =>
              simp only [resolve, hp, hpage, hsel, Except.ok.injEq] at hu
              subst hu
              simp [deedOf, elementOf, hp, hpage, hsel, hname, hvalue]

/-! ## The blocks of a test file -/

@[simp] lemma Reading.add_nil (r : Reading) : r.add [] = r := by
  obtain ⟨name, done, current, part⟩ := r
  cases part <;> simp [Reading.add, CaseOutline.add]

@[simp] lemma Reading.add_add (r : Reading) (ds es : List Deed) :
    (r.add ds).add es = r.add (ds ++ es) := by
  obtain ⟨name, done, current, part⟩ := r
  cases part <;> simp [Reading.add, CaseOutline.add]

@[simp] lemma Reading.expect_nil (r : Reading) : r.expect [] = r := by
  simp [Reading.expect]

@[simp] lemma Reading.expect_expect (r : Reading) (es fs : List (String × String × String)) :
    (r.expect es).expect fs = r.expect (es ++ fs) := by
  simp [Reading.expect]

/-- Between blocks, a block around the test only adds to its part of the case. -/
lemma Reading.around_steps (name : String) (done : List CaseOutline) (current : CaseOutline)
    (part : Part) (ds : List Deed) :
    Reading.around ⟨name, done, current, .steps⟩ part ds
      = ⟨name, done, current.add part ds, .steps⟩ := by
  rw [Reading.around]
  split_ifs with h
  · cases part <;> simp [h, CaseOutline.add]
  · rfl

namespace Reads

/-- Comments say nothing. -/
lemma commentLines (description : Option String) :
    Reads (commentLines .standard 3 description) id := by
  cases description with
  | none => exact Follows.nil
  | some d => exact (Follows.comment d).congr fun _ => rfl

/-- The steps of a section are added to the part at hand. -/
lemma stepLines {pages : Pages} : ∀ {steps : List StoredStep} {block : List String},
    stepLines .standard pages steps = .ok block → Reads block (·.add (steps.map (deedOf pages)))
  | [], block, h => by
      cases h
      exact Follows.nil.congr fun r => by simp
  | s :: steps, block, h => by
      obtain ⟨ts, hts, h⟩ := bind_eq_ok_iff.mp h
      obtain ⟨t, ht, hts⟩ := bind_eq_ok_iff.mp hts
      obtain ⟨us, hus, hts⟩ := bind_eq_ok_iff.mp hts
      cases hts
      obtain ⟨u, hu, h⟩ := bind_eq_ok_iff.mp h
      obtain ⟨more, hmore, h⟩ := bind_eq_ok_iff.mp h
      cases h
      have hrest : Reads more (·.add (steps.map (deedOf pages))) :=
        stepLines (bind_eq_ok_iff.mpr ⟨us, hus, hmore⟩)
      have hfirst : Reads _ (·.take (Line.ofStep u)) :=
        Follows.line _ (Line.sound_ofStep u) (Line.text_ofStep u)
      refine ((commentLines u.description).append (hfirst.append hrest)).congr fun r => ?_
      simp [Reading.take_ofStep, deed_of_check ht hu]

/-- The steps around a test, if there are any, are added to their part. -/
lemma hookLines {pages : Pages} {hook : String} (part : Part) (m : Mark)
    (hslots : m.slots = [])
    (hstart : m.start
      = Style.standard.line 2 ("test." ++ hook ++ "(async (\x7b page \x7d) => \x7b"))
    (htake : ∀ r : Reading, r.take ⟨m, []⟩ = r.enter part)
    {steps : Option (List StoredStep)} {block : List String}
    (h : hookLines .standard pages hook steps = .ok block) :
    Reads block (·.around part ((steps.getD []).map (deedOf pages))) := by
  match steps, h with
  | none, h => cases h; exact Follows.nil.congr fun r => by simp [Reading.around]
  | some [], h => cases h; exact Follows.nil.congr fun r => by simp [Reading.around]
  | some (s :: rest), h =>
      obtain ⟨lines, hlines, h⟩ := bind_eq_ok_iff.mp h
      cases h
      rw [← hstart]
      have hopen : Reads [m.start] _ := Follows.fixed m hslots
      have hend : Reads [Mark.blockEnd.start, Mark.blank.start] _ :=
        (Follows.fixed .blockEnd rfl).append (Follows.fixed .blank rfl)
      refine ((hopen.append (stepLines hlines)).append hend).congr fun r => ?_
      simp only [Function.comp_apply, htake, Reading.around]
      rw [if_neg (by simp)]
      rfl

/-- The expectations of a case. -/
lemma expectationLines : ∀ es : List Expectation,
    Reads (es.map fun e => Style.standard.line 3 (expectationLine e))
      (·.expect (es.map fun e => (e.selector, e.comparison, e.expected.compact)))
  | [] => Follows.nil.congr fun r => by simp
  | e :: es => by
      refine (Follows.append (Follows.expectation e) (expectationLines es)).congr fun r => ?_
      exact Reading.expect_expect _ _ _

/-- The line that opens the test of a case. -/
lemma testLine (enabled : Bool) (name : String) :
    Reads [Style.standard.line 2 ((if enabled then "test" else "test.skip") ++ "(" ++ quote name
      ++ ", async (\x7b page \x7d) => \x7b")] (·.enterTest enabled) := by
  refine (Follows.test enabled name).congr fun r => ?_
  cases enabled <;> rfl

/-- A case is read as its outline. -/
lemma caseLines {pages : Pages} {c : Case} {block : List String}
    (h : caseLines .standard pages c = .ok block) :
    Reads block fun r => { r with
      done := r.done ++ [CaseOutline.of pages c]
      current := CaseOutline.of pages c
      part := .steps } := by
  obtain ⟨before, hbefore, h⟩ := bind_eq_ok_iff.mp h
  obtain ⟨after, hafter, h⟩ := bind_eq_ok_iff.mp h
  obtain ⟨steps, hsteps, h⟩ := bind_eq_ok_iff.mp h
  cases h
  have hopen : Reads _ _ := Follows.titled .case ", () => \x7b" c.name rfl
  have hbefore' := hookLines Part.before Mark.before rfl rfl (fun _ => rfl) hbefore
  have hafter' := hookLines Part.after Mark.after rfl rfl (fun _ => rfl) hafter
  have hclose : Reads _ _ := (Follows.fixed .blockEnd rfl).append (Follows.fixed .caseEnd rfl)
  have hwhole := (((((hopen.append hbefore').append hafter').append
    (testLine c.enabled c.name)).append (commentLines c.description)).append
    (stepLines hsteps)).append (expectationLines (c.expectations.getD [])) |>.append hclose
  refine hwhole.congr fun r => ?_
  have hstart : r.take ⟨.case, [c.name]⟩ = ⟨r.name, r.done, .begin c.name, .steps⟩ := rfl
  simp only [Function.comp_apply, hstart, Reading.around_steps]
  rfl

/-- Cases are read in order. -/
lemma casesLines {pages : Pages} {suite : Suite} : ∀ {cs : List Case} {block : List String},
    casesLines .standard pages suite cs = .ok block →
      ∃ f, Reads block f ∧ ∀ r, (f r).name = r.name
        ∧ (f r).done = r.done ++ cs.map (CaseOutline.of pages)
  | [], block, h => by
      cases h
      exact ⟨id, Follows.nil, fun r => by simp⟩
  | [c], block, h => by
      have hc := caseLines (mapError_eq_ok_iff.mp h)
      exact ⟨_, hc, fun r => by simp⟩
  | c :: d :: cs, block, h => by
      obtain ⟨first, hfirst, h⟩ := bind_eq_ok_iff.mp h
      obtain ⟨more, hmore, h⟩ := bind_eq_ok_iff.mp h
      cases h
      obtain ⟨f, hf, hdone⟩ := casesLines hmore
      have hc := caseLines (mapError_eq_ok_iff.mp hfirst)
      refine ⟨_, hc.append ((Follows.fixed .blank rfl).append hf), fun r => ?_⟩
      obtain ⟨hname, hdone⟩ := hdone (Reading.take
        { r with
          done := r.done ++ [CaseOutline.of pages c]
          current := CaseOutline.of pages c
          part := .steps } ⟨.blank, []⟩)
      refine ⟨hname, hdone.trans ?_⟩
      simp [Reading.take]

/-- **Reading a test file comes to the outline of its suite.** -/
lemma testFileLines {pages : Pages} {suite : Suite} {file : List String}
    (h : testFileLines .standard pages suite = .ok file) :
    ∃ f, Reads file f ∧ ∀ r, r.done = [] →
      Outline.mk (f r).name (f r).done = Outline.of pages suite := by
  obtain ⟨cases, hcases, h⟩ := bind_eq_ok_iff.mp h
  cases h
  obtain ⟨f, hf, hdone⟩ := casesLines hcases
  have himport : Reads _ _ := Follows.fixed .testImport rfl
  have hhelper : Reads (if needsAssertions suite then
      ["import \x7b assertExpected \x7d from '" ++ assertionsImport ++ "';"] else []) id := by
    split_ifs
    · rw [← Mark.start_helperImport]
      exact (Follows.fixed .helperImport rfl).congr fun _ => rfl
    · exact Follows.nil
  have hblank : Reads _ _ := Follows.fixed .blank rfl
  have hopen : Reads _ _ := Follows.titled .suite ", () => \x7b" suite.name rfl
  have hclose : Reads _ _ := Follows.fixed .suiteEnd rfl
  have hwhole := (((himport.append hhelper).append (hblank.append hopen)).append hf).append hclose
  refine ⟨_, hwhole, fun r hr => ?_⟩
  obtain ⟨hname, hcs⟩ := hdone { r with name := suite.name }
  have hnone : r.done ++ suite.cases.map (CaseOutline.of pages)
      = suite.cases.map (CaseOutline.of pages) := by
    rw [hr, List.nil_append]
  exact congrArg₂ Outline.mk hname (hcs.trans hnone)

end Reads

/-- **A test file determines what its suite asks for.**  The name of the suite, its cases in
order with their names and whether they run, the steps before, in and after each test, and the
expectations are all read off the file; no name, selector, value, description or expected value
can be taken for something else. -/
theorem outline_eq_of_testFile_eq {P Q : Pages} {A B : Suite} {file : String}
    (hA : testFile .standard P A = .ok file) (hB : testFile .standard Q B = .ok file) :
    Outline.of P A = Outline.of Q B := by
  obtain ⟨as, has, hA⟩ := map_eq_ok_iff.mp hA
  obtain ⟨bs, hbs, hB⟩ := map_eq_ok_iff.mp hB
  obtain ⟨f, ⟨ks, rfl, hks, hf⟩, hfA⟩ := Reads.testFileLines has
  obtain ⟨g, ⟨ls, rfl, hls, hg⟩, hgB⟩ := Reads.testFileLines hbs
  have hlines : ks = ls := eq_of_unlines_text hks hls (hA.trans hB.symm)
  subst hlines
  have hfg : f Reading.start = g Reading.start := by rw [← hf, ← hg]
  rw [← hfA Reading.start rfl, ← hgB Reading.start rfl, hfg]

/-- A page with a button that has a name. -/
def buttonPage : Page :=
  { Page.make ⟨7⟩ "Login" "https://example.com" with
    selectors := ⟨[("go", ⟨.css, "#send"⟩)], by decide⟩ }

/-- A suite with one case, which has one step. -/
def oneClick (before : Option (List StoredStep)) (step : StoredStep) : Suite :=
  .make ⟨1⟩ ⟨2⟩ "Smoke" [{ Case.make ⟨3⟩ "works" [step] with beforeEach := before }]

/-- A step may name its element or say where it is; the file is the same, and so is the outline. -/
theorem outline_eq_by_name :
    ∃ file, testFile .standard (fun _ => none) (oneClick none (.make "click" "#send")) = .ok file
      ∧ testFile .standard (fun _ => some buttonPage)
          (oneClick (some []) { StoredStep.make "click" "go" with page := some ⟨7⟩ }) = .ok file
      ∧ Outline.of (fun _ => none) (oneClick none (.make "click" "#send"))
        = Outline.of (fun _ => some buttonPage)
          (oneClick (some []) { StoredStep.make "click" "go" with page := some ⟨7⟩ }) := by
  obtain ⟨file, hfile⟩ : ∃ file,
      testFile .standard (fun _ => none) (oneClick none (.make "click" "#send")) = .ok file :=
    ⟨_, rfl⟩
  have hsame : testFile .standard (fun _ => some buttonPage)
      (oneClick (some []) { StoredStep.make "click" "go" with page := some ⟨7⟩ }) = .ok file :=
    Eq.trans rfl hfile
  exact ⟨file, hfile, hsame, outline_eq_of_testFile_eq hfile hsame⟩

end Rehearsal.Source
