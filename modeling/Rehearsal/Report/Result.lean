import Rehearsal.Report.Outcome
import Rehearsal.Execution
import Rehearsal.Suite
/-!
# Results

An outcome is credited to the test case it belongs to, and kept as a row.

* `CaseIndex`: for the name of a suite and the name of a case, the case. Of several with the
  same names **the first** counts.
* `CaseIndex.resolve`: the first title around an outcome that names a suite with a case of the
  outcome's title.
* `CaseIndex.credit`: the outcomes that belong to a case, in the order of the report.
-/

namespace Rehearsal

/-- A row: the outcome of a case in an execution. -/
structure CaseResult where
  id : Uuid
  execution : Uuid
  case : Uuid
  verdict : Verdict
  /-- Milliseconds. -/
  duration : Option Int
  errorMessage : Option String
  screenshot : Option String
  video : Option String
  logs : Option String
  createdAt : Instant
deriving DecidableEq

namespace CaseResult

/-- The row of an outcome. -/
def ofOutcome (id execution case : Uuid) (now : Instant) (o : Outcome) : CaseResult where
  id := id
  execution := execution
  case := case
  verdict := o.verdict
  duration := o.duration
  errorMessage := o.errorMessage
  screenshot := o.screenshot
  video := o.video
  logs := o.logs
  createdAt := now

def reader : Json.Reader CaseResult := fun room n => do
  let es ← Json.Entries.read ["id", "execution_id", "test_case_id", "status", "duration",
    "error_message", "screenshot_path", "video_path", "logs", "created_at"] room n
  return {
    id := ← es.required "id" Uuid.reader
    execution := ← es.required "execution_id" Uuid.reader
    case := ← es.required "test_case_id" Uuid.reader
    verdict := ← es.required "status" (Json.Reader.enumerated Verdict.parse?)
    duration := ← es.nullable "duration" Json.Reader.int64
    errorMessage := ← es.nullable "error_message" Json.Reader.string
    screenshot := ← es.nullable "screenshot_path" Json.Reader.string
    video := ← es.nullable "video_path" Json.Reader.string
    logs := ← es.nullable "logs" Json.Reader.string
    createdAt := ← es.required "created_at" Instant.reader }

def toValue (r : CaseResult) : Json.Value :=
  Json.record [
    ("id", some r.id.toValue),
    ("execution_id", some r.execution.toValue),
    ("test_case_id", some r.case.toValue),
    ("status", some (.str r.verdict.name)),
    ("duration", some (Json.orNull (fun n => .num (.int n)) r.duration)),
    ("error_message", r.errorMessage.map .str),
    ("screenshot_path", r.screenshot.map .str),
    ("video_path", r.video.map .str),
    ("logs", r.logs.map .str),
    ("created_at", some r.createdAt.toValue)]

end CaseResult

/-- Cases by the name of their suite and their own name. -/
abbrev CaseIndex := List ((String × String) × Uuid)

namespace CaseIndex

/-- The case of two names. -/
def lookup? (index : CaseIndex) (suite case : String) : Option Uuid :=
  (List.find? (fun e => e.1 == (suite, case)) index).map Prod.snd

/-- Adds a case, unless there is one of the same names. -/
def add (index : CaseIndex) (suite : String) (c : Case) : CaseIndex :=
  match lookup? index suite c.name with
  | some _ => index
  | none => index ++ [((suite, c.name), c.id)]

/-- Adds the cases of a suite. -/
def addSuite (index : CaseIndex) (s : Suite) : CaseIndex :=
  s.cases.foldl (fun index c => index.add s.name c) index

/-- The cases of all suites. -/
def ofSuites (suites : List Suite) : CaseIndex := suites.foldl addSuite []

/-- The case that an outcome belongs to. -/
def resolve (index : CaseIndex) (o : Outcome) : Option Uuid :=
  o.path.findSome? fun suite => lookup? index suite o.title

/-- The outcomes that belong to a case, each with its case. -/
def credit (index : CaseIndex) (os : List Outcome) : List (Uuid × Outcome) :=
  os.filterMap fun o => (resolve index o).map fun id => (id, o)

end CaseIndex

end Rehearsal
