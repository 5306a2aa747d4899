import Mathlib
import Rehearsal.Proofs.Source.Outline

/-!
# The blocks of a test file

What the runner will know about a test is its own title and the titles of the blocks it stands
in.  Both are read off the file.

* `Nesting.take` follows the blocks line by line; `Nests` says what a passage does to the blocks
  that are open and to the tests found.
* `Registers`: reading a whole file comes to these tests, and every block that was opened is
  closed.  A file registers **one list of tests only** (`Registers.unique`).
* `registers_testFile`: the file of a suite registers **one test for each case**, enabled or not,
  titled like the case, in a block titled like the case, in a block titled like the suite.
-/

namespace Rehearsal.Source

open Text

/-- The titles of the open blocks, innermost first, and the tests found, each with the titles of
the blocks around it, outermost first. -/
structure Nesting where
  opened : List String
  tests : List (List String × String)

namespace Nesting

/-- Before the first line. -/
def start : Nesting := ⟨[], []⟩

/-- A block begins. -/
def enter (n : Nesting) (title : String) : Nesting := { n with opened := title :: n.opened }

/-- The innermost block ends. -/
def leave (n : Nesting) : Nesting := { n with opened := n.opened.tail }

/-- A test is found. -/
def register (n : Nesting) (title : String) : Nesting :=
  { n with tests := n.tests ++ [(n.opened.reverse, title)] }

/-- Takes one line.  What stands around a test or in it opens no block that has a title. -/
def take (n : Nesting) : Line → Nesting
  | ⟨.suite, [title]⟩ => n.enter title
  | ⟨.case, [title]⟩ => n.enter title
  | ⟨.test, [title]⟩ => n.register title
  | ⟨.skip, [title]⟩ => n.register title
  | ⟨.caseEnd, []⟩ => n.leave
  | ⟨.suiteEnd, []⟩ => n.leave
  | _ => n

end Nesting

/-- Following a passage comes to a function of the blocks that were open before. -/
def Nests (passage : List String) (f : Nesting → Nesting) : Prop := Follows Nesting.take passage f

/-- The file is made of lines, and following them comes to these tests. -/
def Registers (file : String) (tests : List (List String × String)) : Prop :=
  ∃ ls : List Line, file = unlines (ls.map Line.text) ∧ (∀ l ∈ ls, l.Sound) ∧
    ls.foldl Nesting.take .start = ⟨[], tests⟩

/-- A file determines the tests in it. -/
lemma Registers.unique {file : String} {tests others : List (List String × String)}
    (h : Registers file tests) (h' : Registers file others) : tests = others := by
  obtain ⟨ks, rfl, hks, htests⟩ := h
  obtain ⟨ls, hfile, hls, hothers⟩ := h'
  obtain rfl : ks = ls := eq_of_unlines_text hks hls hfile
  rw [htests] at hothers
  exact congrArg Nesting.tests hothers

namespace Nests

/-! ### What opens and closes nothing -/

/-- Two passages in which nothing begins or ends. -/
lemma still_append {a b : List String} (ha : Nests a id) (hb : Nests b id) : Nests (a ++ b) id :=
  Follows.append ha hb

lemma commentLines (description : Option String) :
    Nests (commentLines .standard 3 description) id := by
  cases description with
  | none => exact Follows.nil
  | some d => exact (Follows.comment d).congr fun _ => rfl

/-- A step is one line inside a test. -/
lemma step (s : Step) : Nests [Style.standard.line 3 s.compile] id := by
  refine (Follows.line (Line.ofStep s) (Line.sound_ofStep s) (Line.text_ofStep s)).congr fun n => ?_
  obtain ⟨action, selector, description, page⟩ := s
  cases action <;> rfl

lemma checkedStepLines {pages : Pages} : ∀ {steps : List Step} {passage : List String},
    checkedStepLines .standard pages steps = .ok passage → Nests passage id
  | [], passage, h => by
      cases h
      exact Follows.nil
  | s :: steps, passage, h => by
      obtain ⟨t, -, h⟩ := bind_eq_ok_iff.mp h
      obtain ⟨more, hmore, h⟩ := bind_eq_ok_iff.mp h
      cases h
      exact (commentLines t.description).still_append
        ((step t).still_append (checkedStepLines hmore))

lemma stepLines {pages : Pages} {steps : List StoredStep} {passage : List String}
    (h : stepLines .standard pages steps = .ok passage) : Nests passage id := by
  obtain ⟨checked, -, h⟩ := bind_eq_ok_iff.mp h
  exact checkedStepLines h

lemma hookLines {pages : Pages} {hook : String} (m : Mark) (hslots : m.slots = [])
    (hstart : m.start
      = Style.standard.line 2 ("test." ++ hook ++ "(async (\x7b page \x7d) => \x7b"))
    (htake : ∀ n : Nesting, n.take ⟨m, []⟩ = n) {steps : Option (List StoredStep)}
    {passage : List String} (h : hookLines .standard pages hook steps = .ok passage) :
    Nests passage id := by
  match steps, h with
  | none, h => cases h; exact Follows.nil
  | some [], h => cases h; exact Follows.nil
  | some (s :: rest), h =>
      obtain ⟨lines, hlines, h⟩ := bind_eq_ok_iff.mp h
      cases h
      rw [← hstart]
      have hopen : Nests [m.start] id := (Follows.fixed m hslots).congr htake
      have hend : Nests [Mark.blockEnd.start, Mark.blank.start] id :=
        ((Follows.fixed .blockEnd rfl).append (Follows.fixed .blank rfl)).congr fun _ => rfl
      exact (hopen.still_append (stepLines hlines)).still_append hend

lemma expectationLines : ∀ es : List Expectation,
    Nests (es.map fun e => Style.standard.line 3 (expectationLine e)) id
  | [] => Follows.nil
  | e :: es => still_append ((Follows.expectation e).congr fun _ => rfl) (expectationLines es)

/-! ### Tests -/

/-- A case is one block with one test, both titled like it. -/
lemma caseLines {pages : Pages} {c : Case} {passage : List String}
    (h : caseLines .standard pages c = .ok passage) :
    Nests passage fun n => ((n.enter c.name).register c.name).leave := by
  obtain ⟨before, hbefore, h⟩ := bind_eq_ok_iff.mp h
  obtain ⟨after, hafter, h⟩ := bind_eq_ok_iff.mp h
  obtain ⟨steps, hsteps, h⟩ := bind_eq_ok_iff.mp h
  cases h
  have hopen : Nests _ (·.enter c.name) :=
    (Follows.titled .case ", () => \x7b" c.name rfl).congr fun _ => rfl
  have hbefore' := hookLines Mark.before rfl rfl (fun _ => rfl) hbefore
  have hafter' := hookLines Mark.after rfl rfl (fun _ => rfl) hafter
  have hclose : Nests _ Nesting.leave :=
    ((Follows.fixed .blockEnd rfl).append (Follows.fixed .caseEnd rfl)).congr fun _ => rfl
  have hwhole := (((((hopen.append hbefore').append hafter').append
    (Follows.test c.enabled c.name)).append (commentLines c.description)).append
    (stepLines hsteps)).append (expectationLines (c.expectations.getD [])) |>.append hclose
  refine hwhole.congr fun n => ?_
  cases c.enabled <;> rfl

/-- Entering a block, finding a test in it and leaving it again adds the test. -/
lemma leave_register_enter (n : Nesting) (title : String) :
    ((n.enter title).register title).leave
      = ⟨n.opened, n.tests ++ [(n.opened.reverse ++ [title], title)]⟩ := by
  simp [Nesting.enter, Nesting.register, Nesting.leave]

/-- Cases are found in order, below the blocks that are open. -/
lemma casesLines {pages : Pages} {suite : Suite} : ∀ {cs : List Case} {passage : List String},
    casesLines .standard pages suite cs = .ok passage →
      Nests passage fun n =>
        ⟨n.opened, n.tests ++ cs.map fun c => (n.opened.reverse ++ [c.name], c.name)⟩
  | [], passage, h => by
      cases h
      exact Follows.nil.congr fun n => by simp
  | [c], passage, h => by
      refine (caseLines (mapError_eq_ok_iff.mp h)).congr fun n => ?_
      exact leave_register_enter n c.name
  | c :: d :: cs, passage, h => by
      obtain ⟨first, hfirst, h⟩ := bind_eq_ok_iff.mp h
      obtain ⟨more, hmore, h⟩ := bind_eq_ok_iff.mp h
      cases h
      have hblank : Nests [Mark.blank.start] id := (Follows.fixed .blank rfl).congr fun _ => rfl
      have hcase := caseLines (mapError_eq_ok_iff.mp hfirst)
      refine (hcase.append (hblank.append (casesLines hmore))).congr fun n => ?_
      simp [leave_register_enter]

/-- **Every block of a test file is closed, and it holds one test for each case.** -/
lemma testFileLines {pages : Pages} {suite : Suite} {file : List String}
    (h : testFileLines .standard pages suite = .ok file) :
    Nests file fun n => ⟨n.opened, n.tests ++
      suite.cases.map fun c => (n.opened.reverse ++ [suite.name, c.name], c.name)⟩ := by
  obtain ⟨cases, hcases, h⟩ := bind_eq_ok_iff.mp h
  cases h
  have himport : Nests [Mark.testImport.start] id :=
    (Follows.fixed .testImport rfl).congr fun _ => rfl
  have hhelper : Nests (if needsAssertions suite then
      ["import \x7b assertExpected \x7d from '" ++ assertionsImport ++ "';"] else []) id := by
    split_ifs
    · rw [← Mark.start_helperImport]
      exact (Follows.fixed .helperImport rfl).congr fun _ => rfl
    · exact Follows.nil
  have hblank : Nests [Mark.blank.start] id := (Follows.fixed .blank rfl).congr fun _ => rfl
  have hopen : Nests _ (·.enter suite.name) :=
    (Follows.titled .suite ", () => \x7b" suite.name rfl).congr fun _ => rfl
  have hclose : Nests _ Nesting.leave := (Follows.fixed .suiteEnd rfl).congr fun _ => rfl
  have hwhole := ((himport.still_append hhelper).append (hblank.append hopen)).append
    (casesLines hcases) |>.append hclose
  refine hwhole.congr fun n => ?_
  simp [Nesting.enter, Nesting.leave]

end Nests

/-- **The file of a suite registers one test for each case**, in the order of the cases, in a
block titled like the case inside a block titled like the suite. -/
theorem registers_testFile {pages : Pages} {suite : Suite} {file : String}
    (h : testFile .standard pages suite = .ok file) :
    Registers file (suite.cases.map fun c => ([suite.name, c.name], c.name)) := by
  obtain ⟨lines, hlines, rfl⟩ := map_eq_ok_iff.mp h
  obtain ⟨ls, rfl, hls, hread⟩ := Nests.testFileLines hlines
  exact ⟨ls, rfl, hls, hread .start⟩

end Rehearsal.Source
