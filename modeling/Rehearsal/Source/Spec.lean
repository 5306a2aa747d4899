import Rehearsal.Source.Lines
import Rehearsal.Text.Comment
import Rehearsal.Page
import Rehearsal.Suite
/-!
# Test files

A suite becomes one file: a block for the suite, in it a block for each case, in it the steps
around the test and the test itself.

* `stepLines`: the steps of one section. **All of them are checked first**; only then are the
  pages looked up that they refer to.
* `caseLines`: a case, whether it is enabled or not, is checked section by section: the steps
  before, the steps after, the steps.
* `testFile`: the file. A fault of a step comes out as it is; a page that is missing comes out
  with the case and the suite.
-/

namespace Rehearsal.Source

/-- Where a test file finds the assertion helper. -/
def assertionsImport : String := "./helpers/assertions"

/-- The pages at hand, by identifier. -/
abbrev Pages := Uuid → Option Page

/-- A name that the step's page knows becomes the locator of that selector. -/
def resolve (pages : Pages) (s : Step) : Except Error Step :=
  match s.page with
  | none => .ok s
  | some id =>
    match pages id with
    | none => .error (.unknownPage id)
    | some p =>
      match p.selectors.get? s.selector with
      | some sel => .ok { s with selector := sel.locator }
      | none => .ok s

/-- A text in a comment of one line. -/
def lineComment (text : String) : String := "// " ++ Text.singleLine text

/-- The comment, if a thing is described. -/
def commentLines (style : Style) (depth : Nat) : Option String → List String
  | some d => [style.line depth (lineComment d)]
  | none => []

/-- The lines of steps that were checked. -/
def checkedStepLines (style : Style) (pages : Pages) : List Step → Except Error (List String)
  | [] => .ok []
  | s :: rest => do
    let s ← resolve pages s
    let lines ← checkedStepLines style pages rest
    return commentLines style 3 s.description ++ style.line 3 s.compile :: lines

/-- The lines of stored steps. -/
def stepLines (style : Style) (pages : Pages) (steps : List StoredStep) :
    Except Error (List String) := do
  let steps ← StoredStep.checkAll steps
  checkedStepLines style pages steps

/-- The lines of steps around a test, if there are any. -/
def hookLines (style : Style) (pages : Pages) (hook : String)
    (steps : Option (List StoredStep)) : Except Error (List String) :=
  match steps with
  | some (s :: rest) => do
    let lines ← stepLines style pages (s :: rest)
    return style.line 2 ("test." ++ hook ++ "(async (\x7b page \x7d) => \x7b") :: lines
      ++ [style.line 2 "\x7d);", ""]
  | _ => .ok []

/-- The call that checks an expectation. -/
def expectationLine (e : Expectation) : String :=
  "await assertExpected(page, " ++ Text.quote e.selector ++ ", " ++ Text.quote e.comparison
    ++ ", " ++ e.expected.compact ++ ");"

/-- The lines of a case. -/
def caseLines (style : Style) (pages : Pages) (c : Case) : Except Error (List String) := do
  let before ← hookLines style pages "beforeEach" c.beforeEach
  let after ← hookLines style pages "afterEach" c.afterEach
  let steps ← stepLines style pages c.steps
  let title := Text.quote c.name
  let test := if c.enabled then "test" else "test.skip"
  return [style.line 1 ("test.describe(" ++ title ++ ", () => \x7b")] ++ before ++ after
    ++ [style.line 2 (test ++ "(" ++ title ++ ", async (\x7b page \x7d) => \x7b")]
    ++ commentLines style 3 c.description ++ steps
    ++ (c.expectations.getD []).map (fun e => style.line 3 (expectationLine e))
    ++ [style.line 2 "\x7d);", style.line 1 "\x7d);"]

/-- A fault of a step stays as it is; any other names the case. -/
def locate (c : Case) (s : Suite) : Error → Error
  | .unknownAction a => .unknownAction a
  | .invalidStep d => .invalidStep d
  | e => .inCase c.name s.name e

/-- The lines of a case, with faults that name it. -/
def locatedCaseLines (style : Style) (pages : Pages) (s : Suite) (c : Case) :
    Except Error (List String) :=
  (caseLines style pages c).mapError (locate c s)

/-- The lines of all cases with an empty line between neighbours. -/
def casesLines (style : Style) (pages : Pages) (s : Suite) :
    List Case → Except Error (List String)
  | [] => .ok []
  | [c] => locatedCaseLines style pages s c
  | c :: d :: rest => do
    let lines ← locatedCaseLines style pages s c
    let more ← casesLines style pages s (d :: rest)
    return lines ++ "" :: more

/-- Whether some case has expectations. -/
def needsAssertions (s : Suite) : Bool := s.cases.any fun c => !(c.expectations.getD []).isEmpty

/-- The lines of the file for a suite. -/
def testFileLines (style : Style) (pages : Pages) (s : Suite) : Except Error (List String) := do
  let cases ← casesLines style pages s s.cases
  return ["import \x7b test, expect \x7d from '@playwright/test';"]
    ++ (if needsAssertions s then
          ["import \x7b assertExpected \x7d from '" ++ assertionsImport ++ "';"]
        else [])
    ++ ["", "test.describe(" ++ Text.quote s.name ++ ", () => \x7b"] ++ cases ++ ["\x7d);"]

/-- The file for a suite. -/
def testFile (style : Style) (pages : Pages) (s : Suite) : Except Error String :=
  (testFileLines style pages s).map unlines

end Rehearsal.Source
