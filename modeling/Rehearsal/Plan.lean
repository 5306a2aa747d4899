import Rehearsal.Source.PageObject
import Rehearsal.Source.Spec
import Rehearsal.Source.Settings
/-!
# Plans

A plan is everything that a generated project will hold, before a byte is written.

* `Artifact`: a file with its place below the root of the project.
* `Plan.artifacts`: one page object for each page, one test file for each suite, the assertion
  helper, the configuration and the package file, in this order. **No two have the same
  path.**
* `distinctPages`: the pages of all suites, each once, in the order of first reference.
-/

namespace Rehearsal

/-- What a generated file is for. -/
inductive ArtifactKind where
  | pageObject
  | testFile
  | support
  | configuration
deriving DecidableEq, Repr

/-- A file that will be written. -/
structure Artifact where
  /-- Below the root of the project. -/
  path : String
  content : String
  kind : ArtifactKind
deriving DecidableEq, Repr

namespace Plan

/-! ## Paths -/

/-- The part of a file's name that comes from a name. -/
def stem (kind name : String) : Except Error String :=
  if Text.hasAlnum (Text.fileStem name) then .ok (Text.fileStem name)
  else .error (.emptyFileName kind name)

/-- The path of the page object of a page. -/
def pagePath (p : Page) : Except Error String :=
  (stem "Page" p.name).map fun s => "tests/pages/" ++ s ++ "_page.ts"

/-- The path of the test file of a suite. -/
def testPath (s : Suite) : Except Error String :=
  (stem "Suite" s.name).map fun t => "tests/" ++ t ++ ".spec.ts"

def assertionsPath : String := "tests/helpers/assertions.ts"

def configurationPath : String := "playwright.config.ts"

def packagePath : String := "package.json"

/-- The name of every generated project. -/
def packageName : String := "playwright-tests"

/-- The directories of every generated project. -/
def directories : List String := ["tests", "tests/pages", "tests/fixtures", "tests/helpers"]

/-! ## Artifacts -/

/-- The page object of a page. -/
def pageArtifact [Libraries] (style : Source.Style) (p : Page) : Except Error Artifact := do
  let path ← pagePath p
  let content ← Source.pageObject style p
  return ⟨path, content, .pageObject⟩

/-- The test file of a suite. -/
def testArtifact (style : Source.Style) (pages : Source.Pages) (s : Suite) :
    Except Error Artifact := do
  let path ← testPath s
  let content ← Source.testFile style pages s
  return ⟨path, content, .testFile⟩

/-- The files that do not depend on pages and suites. -/
def supportArtifacts (style : Source.Style) (c : Configuration) : List Artifact :=
  [⟨assertionsPath, Source.assertionHelper, .support⟩,
   ⟨configurationPath, Source.configFile style c, .configuration⟩,
   ⟨packagePath, Source.packageFile packageName, .configuration⟩]

/-- One thing after the other; the first fault decides. -/
def collect {α β : Type} (f : α → Except Error β) : List α → Except Error (List β)
  | [] => .ok []
  | a :: rest => do
    let b ← f a
    let bs ← collect f rest
    return b :: bs

/-- The first path that has been seen before. -/
def repeated? (seen : List String) : List Artifact → Option String
  | [] => none
  | a :: rest => if seen.contains a.path then some a.path else repeated? (a.path :: seen) rest

/-- The pages that the suites refer to. -/
def distinctPages (suites : List Suite) : List Uuid :=
  distinctFrom [] (suites.flatMap Suite.pageIds)

/-- The page of an identifier among pages at hand, the last one if there are several. -/
def pagesOf (pages : List Page) : Source.Pages := fun id => pages.reverse.find? fun p => p.id == id

/-- The files of a project, given its suites and their pages. -/
def artifacts [Libraries] (style : Source.Style) (suites : List Suite) (pages : List Page)
    (overrides : Json.Bag) : Except Error (List Artifact) := do
  let configuration ← Configuration.merged (suites.map Suite.configuration ++ [overrides])
  let objects ← collect (pageArtifact style) pages
  let tests ← collect (testArtifact style (pagesOf pages)) suites
  let all := objects ++ tests ++ supportArtifacts style configuration
  match repeated? [] all with
  | some path => throw (.clashingArtifact path)
  | none => return all

end Plan

end Rehearsal
