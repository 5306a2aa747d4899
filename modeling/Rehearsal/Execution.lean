import Rehearsal.Configuration
import Rehearsal.Instant
/-!
# Executions

An execution is one attempt to run a suite or a whole project, with the state it is in and
what came of it.

* `Status.canBecome`: a pending execution may start or be cancelled, a running one may end in
  any way; **nothing leaves a final state**.
* `Execution.apply`: a partial update. What the update does not mention stays; no transition
  is checked here.
* `Filter.holds`: every condition that is set must hold.
-/

namespace Rehearsal

namespace Status

def parse? (s : String) : Option Status :=
  if s = "pending" then some .pending
  else if s = "running" then some .running
  else if s = "completed" then some .completed
  else if s = "failed" then some .failed
  else if s = "cancelled" then some .cancelled
  else none

/-- A final state. -/
def isTerminal : Status → Bool
  | .pending => false
  | .running => false
  | _ => true

/-- Whether one state may follow the other. -/
def canBecome : Status → Status → Bool
  | .pending, .running => true
  | .pending, .cancelled => true
  | .running, .completed => true
  | .running, .failed => true
  | .running, .cancelled => true
  | _, _ => false

/-- The next state, if it may follow. -/
def become (source target : Status) : Except Error Status :=
  if source.canBecome target then .ok target else .error (.invalidTransition source target)

def reader : Json.Reader Status := Json.Reader.enumerated parse?

def toValue (s : Status) : Json.Value := .str s.name

end Status

/-- Texts by name, sorted by name. -/
abbrev TextMap := List (String × String)

def TextMap.toValue (m : TextMap) : Json.Value := .obj (m.map fun e => (e.1, .str e.2))

/-- One attempt to run tests. -/
structure Execution where
  id : Uuid
  project : Uuid
  /-- None for a run of the whole project. -/
  suite : Option Uuid
  status : Status
  browser : Browser
  /-- Variables for the runner. -/
  environment : TextMap
  startTime : Option Instant
  endTime : Option Instant
  /-- The runner's own document. -/
  results : Option Json.Value
  errorMessage : Option String
  createdAt : Instant
  updatedAt : Instant

/-- A partial update. -/
structure Update where
  status : Option Status := none
  startTime : Option Instant := none
  endTime : Option Instant := none
  results : Option Json.Value := none
  errorMessage : Option String := none

namespace Execution

/-- Milliseconds between start and end, if both are set. -/
def milliseconds? (e : Execution) : Option Int :=
  match e.startTime, e.endTime with
  | some s, some t => some (s.millisecondsTo t)
  | _, _ => none

/-- Seconds between start and end, if both are set. -/
def seconds? (e : Execution) : Option Binary64 :=
  e.milliseconds?.map fun ms => (Binary64.ofInt ms).div (Binary64.ofNat 1000)

/-- What the update mentions replaces what was there. -/
def apply (now : Instant) (u : Update) (e : Execution) : Execution :=
  { e with
    status := u.status.getD e.status
    startTime := u.startTime <|> e.startTime
    endTime := u.endTime <|> e.endTime
    results := u.results <|> e.results
    errorMessage := u.errorMessage <|> e.errorMessage
    updatedAt := now }

def reader : Json.Reader Execution := fun room n => do
  let es ← Json.Entries.read ["id", "project_id", "test_suite_id", "status", "browser_type",
    "environment", "start_time", "end_time", "results", "error_message", "created_at",
    "updated_at"] room n
  return {
    id := ← es.required "id" Uuid.reader
    project := ← es.required "project_id" Uuid.reader
    suite := ← es.nullable "test_suite_id" Uuid.reader
    status := ← es.required "status" Status.reader
    browser := ← es.required "browser_type" Browser.reader
    environment := ← es.defaulted "environment" [] (Json.Reader.sorted Json.Reader.string)
    startTime := ← es.nullable "start_time" Instant.reader
    endTime := ← es.nullable "end_time" Instant.reader
    results := ← es.nullable "results" Json.Reader.value
    errorMessage := ← es.nullable "error_message" Json.Reader.string
    createdAt := ← es.required "created_at" Instant.reader
    updatedAt := ← es.required "updated_at" Instant.reader }

def toValue (e : Execution) : Json.Value :=
  Json.record [
    ("id", some e.id.toValue),
    ("project_id", some e.project.toValue),
    ("test_suite_id", e.suite.map Uuid.toValue),
    ("status", some e.status.toValue),
    ("browser_type", some e.browser.toValue),
    ("environment", if e.environment.isEmpty then none else some e.environment.toValue),
    ("start_time", some (Json.orNull Instant.toValue e.startTime)),
    ("end_time", some (Json.orNull Instant.toValue e.endTime)),
    ("results", some (e.results.getD .null)),
    ("error_message", some (Json.orNull .str e.errorMessage)),
    ("created_at", some e.createdAt.toValue),
    ("updated_at", some e.updatedAt.toValue)]

end Execution

/-- A request for an execution. -/
structure Request where
  project : Uuid
  suite : Option Uuid
  browser : Browser
  environment : TextMap
deriving DecidableEq

namespace Request

/-- A request for a whole project. -/
def forProject (project : Uuid) : Request := ⟨project, none, .chromium, []⟩

/-- A request for one suite. -/
def forSuite (project suite : Uuid) : Request := ⟨project, some suite, .chromium, []⟩

def withBrowser (r : Request) (browser : Browser) : Request := { r with browser := browser }

/-- A pending execution. -/
def toExecution (r : Request) (id : Uuid) (now : Instant) : Execution :=
  ⟨id, r.project, r.suite, .pending, r.browser, r.environment, none, none, none, none, now, now⟩

def reader : Json.Reader Request := fun room n => do
  let es ← Json.Entries.read ["project_id", "test_suite_id", "browser_type", "environment"]
    room n
  return {
    project := ← es.required "project_id" Uuid.reader
    suite := ← es.optional "test_suite_id" Uuid.reader
    browser := ← es.defaulted "browser_type" .chromium Browser.reader
    environment := ← es.defaulted "environment" [] (Json.Reader.sorted Json.Reader.string) }

end Request

/-- Conditions on executions. -/
structure Filter where
  project : Option Uuid := none
  suite : Option Uuid := none
  status : Option Status := none
  /-- Created at this time or later. -/
  createdFrom : Option Instant := none
  /-- Created at this time or earlier. -/
  createdTo : Option Instant := none
deriving DecidableEq

namespace Filter

/-- A condition that is not set holds. -/
def unsetOr {α : Type} (condition : Option α) (p : α → Bool) : Bool :=
  match condition with
  | some a => p a
  | none => true

/-- Whether every condition holds of an execution. -/
def holds (f : Filter) (e : Execution) : Bool :=
  unsetOr f.project (fun id => e.project == id)
    && unsetOr f.suite (fun id => e.suite == some id)
    && unsetOr f.status (fun s => e.status == s)
    && unsetOr f.createdFrom (fun t => t.le e.createdAt)
    && unsetOr f.createdTo (fun t => e.createdAt.le t)

def reader : Json.Reader Filter := fun room n => do
  let es ← Json.Entries.read ["project_id", "test_suite_id", "status", "start_date",
    "end_date"] room n
  return {
    project := ← es.nullable "project_id" Uuid.reader
    suite := ← es.nullable "test_suite_id" Uuid.reader
    status := ← es.nullable "status" Status.reader
    createdFrom := ← es.nullable "start_date" Instant.reader
    createdTo := ← es.nullable "end_date" Instant.reader }

end Filter

end Rehearsal
