import Rehearsal.Step
/-!
# Suites, cases and projects

A suite is an ordered list of cases; a case is an ordered list of steps with steps around it
and checks after it. A project names the suites that a run of the whole project takes.

* `Case.allSteps`: the steps before, the steps, the steps after.
* `Suite.pageIds`: the pages that some step refers to, **each once**, in the order of the
  first reference.
-/

namespace Rehearsal

/-- A check on an element after the steps of a case. -/
structure Expectation where
  selector : String
  expected : Json.Value
  /-- Passed on as it is; the runner judges it. -/
  comparison : String

namespace Expectation

def defaultComparison : String := "equals"

def reader : Json.Reader Expectation := fun room n => do
  let es ← Json.Entries.read ["selector", "expected_value", "comparison_type"] room n
  return {
    selector := ← es.required "selector" Json.Reader.string
    expected := ← es.required "expected_value" Json.Reader.value
    comparison := ← es.defaulted "comparison_type" defaultComparison Json.Reader.string }

def toValue (e : Expectation) : Json.Value :=
  Json.record [
    ("selector", some (.str e.selector)),
    ("expected_value", some e.expected),
    ("comparison_type", some (.str e.comparison))]

end Expectation

/-- A test case. -/
structure Case where
  id : Uuid
  name : String
  description : Option String
  steps : List StoredStep
  beforeEach : Option (List StoredStep)
  afterEach : Option (List StoredStep)
  expectations : Option (List Expectation)
  /-- A disabled case is generated as one to skip. -/
  enabled : Bool

namespace Case

/-- Every step of a case, those around it included. -/
def allSteps (c : Case) : List StoredStep :=
  c.beforeEach.getD [] ++ c.steps ++ c.afterEach.getD []

def reader : Json.Reader Case := fun room n => do
  let es ← Json.Entries.read ["id", "name", "description", "steps", "before_each",
    "after_each", "expected_results", "is_enabled"] room n
  return {
    id := ← es.required "id" Uuid.reader
    name := ← es.required "name" Json.Reader.string
    description := ← es.optional "description" Json.Reader.string
    steps := ← es.defaulted "steps" [] (Json.Reader.list StoredStep.reader)
    beforeEach := ← es.optional "before_each" (Json.Reader.list StoredStep.reader)
    afterEach := ← es.optional "after_each" (Json.Reader.list StoredStep.reader)
    expectations := ← es.optional "expected_results" (Json.Reader.list Expectation.reader)
    enabled := ← es.defaulted "is_enabled" true Json.Reader.bool }

def stepsValue (steps : List StoredStep) : Json.Value := .arr (steps.map StoredStep.toValue)

def toValue (c : Case) : Json.Value :=
  Json.record [
    ("id", some c.id.toValue),
    ("name", some (.str c.name)),
    ("description", c.description.map .str),
    ("steps", some (stepsValue c.steps)),
    ("before_each", c.beforeEach.map stepsValue),
    ("after_each", c.afterEach.map stepsValue),
    ("expected_results", c.expectations.map fun es => .arr (es.map Expectation.toValue)),
    ("is_enabled", some (.bool c.enabled))]

/-- An enabled case with nothing but steps. -/
def make (id : Uuid) (name : String) (steps : List StoredStep) : Case :=
  ⟨id, name, none, steps, none, none, none, true⟩

end Case

/-- A test suite. -/
structure Suite where
  id : Uuid
  project : Uuid
  name : String
  description : Option String
  /-- Settings for the runner, checked when a configuration is made of them. -/
  configuration : Json.Bag
  cases : List Case

/-- The elements of a list, each once, in the order of their first occurrence, without
those seen before. -/
def distinctFrom {α : Type} [DecidableEq α] (seen : List α) : List α → List α
  | [] => []
  | a :: rest =>
    if a ∈ seen then distinctFrom seen rest else a :: distinctFrom (a :: seen) rest

namespace Suite

/-- The pages of all steps, with repetitions. -/
def pageReferences (s : Suite) : List Uuid :=
  s.cases.flatMap fun c => c.allSteps.filterMap StoredStep.page

/-- The pages that some step refers to. -/
def pageIds (s : Suite) : List Uuid := distinctFrom [] s.pageReferences

def reader : Json.Reader Suite := fun room n => do
  let es ← Json.Entries.read ["id", "project_id", "name", "description", "configuration",
    "test_cases"] room n
  return {
    id := ← es.required "id" Uuid.reader
    project := ← es.required "project_id" Uuid.reader
    name := ← es.required "name" Json.Reader.string
    description := ← es.optional "description" Json.Reader.string
    configuration := ← es.defaulted "configuration" [] Json.Reader.bag
    cases := ← es.defaulted "test_cases" [] (Json.Reader.list Case.reader) }

def toValue (s : Suite) : Json.Value :=
  Json.record [
    ("id", some s.id.toValue),
    ("project_id", some s.project.toValue),
    ("name", some (.str s.name)),
    ("description", s.description.map .str),
    ("configuration", some (.obj s.configuration)),
    ("test_cases", some (.arr (s.cases.map Case.toValue)))]

/-- A suite without settings. -/
def make (id project : Uuid) (name : String) (cases : List Case) : Suite :=
  ⟨id, project, name, none, [], cases⟩

end Suite

/-- A project. -/
structure Project where
  id : Uuid
  name : String
  description : Option String
  /-- The suites of a run of the whole project, in order. -/
  suites : List Uuid
deriving DecidableEq

namespace Project

def reader : Json.Reader Project := fun room n => do
  let es ← Json.Entries.read ["id", "name", "description", "suite_ids"] room n
  return {
    id := ← es.required "id" Uuid.reader
    name := ← es.required "name" Json.Reader.string
    description := ← es.optional "description" Json.Reader.string
    suites := ← es.defaulted "suite_ids" [] (Json.Reader.list Uuid.reader) }

def toValue (p : Project) : Json.Value :=
  Json.record [
    ("id", some p.id.toValue),
    ("name", some (.str p.name)),
    ("description", p.description.map .str),
    ("suite_ids", some (.arr (p.suites.map Uuid.toValue)))]

/-- A project without suites. -/
def make (id : Uuid) (name : String) : Project := ⟨id, name, none, []⟩

end Project

end Rehearsal
