import Rehearsal.Generation
/-!
# Runs

The calls on executions.

* `Run.create`: a pending execution for a project that exists, or for one of its suites.
* `Run.run`: carries a pending execution to a final state. Everything that goes wrong on the
  way is recorded as its failure. **The workspace is removed last, whatever happened.**
* `Run.cancel`: marks an execution as cancelled and asks its runner to stop.

Updates of a record are not checked against what it holds by then: of a cancellation and an
ending that cross, the one that is written last decides.
-/

namespace Rehearsal

open Runner (Job Reply Token)

/-- How executions are carried out. -/
structure RunSettings where
  /-- Where the workspaces are. -/
  workDir : Path
  /-- How long the runner may take, in milliseconds. -/
  limit : Nat
  style : Source.Style

namespace Run

/-- What the name of a workspace begins with. -/
def workspaceStart : String := "test_"

/-- The name of the workspace of an execution. -/
def workspaceName (id : Uuid) : String := workspaceStart ++ id.text

/-- The workspace of an execution. -/
def workspace (workDir : Path) (id : Uuid) : Path := workDir.join (workspaceName id)

/-- What the runner is given for a whole project. -/
def projectTests : String := "tests"

/-- Seconds of a limit, rounded up. -/
def limitSeconds (milliseconds : Nat) : Nat := (milliseconds + 999) / 1000

/-! ## Creating and cancelling -/

/-- A suite has to belong to its project. -/
def checkSuite (r : Request) : Call Unit := do
  match r.suite with
  | none => return ()
  | some id =>
    let s ← Call.suite id
    if s.project != r.project then throw (.foreignSuite id r.project)

/-- Records a pending execution. -/
def create (r : Request) : Call Execution := do
  let _ ← Call.project r.project
  checkSuite r
  let e := r.toExecution (← Call.freshId) (← Call.clock)
  Call.createRecord e
  let _ ← Call.claimToken e.id
  Call.announce (.ofExecution e)
  return e

/-- Marks a pending or running execution as cancelled and asks its runner to stop. -/
def cancel (id : Uuid) : Call Execution := do
  let e ← Call.record id
  let status ← Call.given (e.status.become .cancelled)
  let updated ← Call.updateRecord id { status := some status }
  match ← Call.findToken id with
  | some t => Call.fire t
  | none => pure ()
  Call.announce (.updated id status none)
  return updated

/-! ## What a run attempts -/

/-- The suites to run: the one that was asked for, or those of the project. -/
def suiteIds (e : Execution) : Call (List Uuid) := do
  match e.suite with
  | some id => return [id]
  | none =>
    let p ← Call.project e.project
    if p.suites.isEmpty then throw (.emptyProject p.id)
    return p.suites

/-- One browser and no other. -/
def browserOverride (b : Browser) : Json.Bag := [("browsers", .arr [.str b.name])]

/-- What the runner is told to run. -/
def testPath (e : Execution) (suites : List Suite) : Except Error String :=
  match e.suite, suites with
  | some _, s :: _ => Plan.testPath s
  | _, _ => .ok projectTests

section

variable [Libraries]

/-- Generates the workspace and hands it to the runner: how it ended, and the suites that the
workspace was generated from. -/
def attempt (settings : RunSettings) (e : Execution) (workspace : Path) (token : Token) :
    Call (Runner.Outcome × List Suite) := do
  let ids ← suiteIds e
  let (_, suites) ← Generation.generate settings.style ids workspace (browserOverride e.browser)
  let path ← Call.given (testPath e suites)
  match ← Call.spawn ⟨workspace, path, e.browser, e.environment⟩ token with
  | .ended outcome => return (outcome, suites)
  | .refused cause => throw cause
  | .timedOut => throw (.timeout (limitSeconds settings.limit))

/-- Makes the attempt in a workspace, if there is a path to it. -/
def attemptIn (settings : RunSettings) (e : Execution) (token : Token) :
    Except Refusal Path → Call (Runner.Outcome × List Suite)
  | .ok workspace => attempt settings e workspace token
  | .error r => throw (.cannotResolveWorkDir settings.workDir.text r.text)

/-- Removes a workspace, if there is a path to it. -/
def discard : Except Refusal Path → Call Unit
  | .ok workspace => Call.removeTree workspace
  | .error _ => return ()

/-! ## What becomes of it -/

/-- What is recorded of a program that ended, and the report it left.

A program that succeeded without a report has failed; one that failed keeps the report that it
managed to write. -/
def finished (o : Runner.Output) : Update × Option ParsedRun :=
  match ParsedRun.parse o.stdout with
  | .ok run =>
    if o.success then ({ status := some .completed, results := some run.document }, some run)
    else
      ({ status := some .failed, results := some run.document, errorMessage := some o.stderr },
        some run)
  | .error e =>
    if o.success then ({ status := some .failed, errorMessage := some e.message }, none)
    else ({ status := some .failed, errorMessage := some o.stderr }, none)

/-- What is recorded of an attempt, the report it left, and the suites of its cases. -/
def ending : Except Error (Runner.Outcome × List Suite) →
    Update × Option ParsedRun × List Suite
  | .error e => ({ status := some .failed, errorMessage := some e.message }, none, [])
  | .ok (.cancelled, _) => ({ status := some .cancelled }, none, [])
  | .ok (.finished o, suites) => ((finished o).1, (finished o).2, suites)

/-- Adds a row for each outcome that belongs to a case. -/
def addRows (execution : Uuid) : List (Uuid × Outcome) → Call Unit
  | [] => return ()
  | (case, o) :: rest => do
    let id ← Call.freshId
    let now ← Call.clock
    Call.addRow (.ofOutcome id execution case now o)
    addRows execution rest

/-- How many outcomes have a verdict. -/
def countOf (v : Verdict) (credited : List (Uuid × Outcome)) : Nat :=
  credited.countP fun c => c.2.verdict == v

/-- Stores the results of a report, and says so. -/
def storeResults (execution : Uuid) (run : ParsedRun) (suites : List Suite) : Call Unit := do
  let credited := (CaseIndex.ofSuites suites).credit run.outcomes
  addRows execution credited
  Call.announce (.resultsAvailable execution (countOf .passed credited)
    (countOf .failed credited) credited.length)

/-- Records how an attempt ended: the record then. -/
def conclude (id : Uuid) (result : Except Error (Runner.Outcome × List Suite)) :
    Call Execution := do
  let endTime ← Call.clock
  let (update, report, suites) := ending result
  let recorded ← Call.updateRecord id { update with endTime := some endTime }
  match report with
  | some run => storeResults id run suites
  | none => pure ()
  match update.status with
  | some status => Call.announce (.updated id status update.errorMessage)
  | none => pure ()
  return recorded

/-- Carries a pending execution to a final state. One that was cancelled before it began is
left as it is. -/
def run (settings : RunSettings) (id : Uuid) : Call Execution := do
  let e ← Call.record id
  if e.status == .cancelled then
    Call.releaseToken id
    return e
  let status ← Call.given (e.status.become .running)
  let token ← Call.claimToken id
  let startTime ← Call.clock
  let running ← Call.updateRecord id { status := some status, startTime := some startTime }
  Call.announce (.updated id status none)
  let place ← Call.locate (workspace settings.workDir id)
  let result ← Call.outcome (attemptIn settings running token place)
  let recorded ← Call.outcome (conclude id result)
  discard place
  Call.releaseToken id
  Call.given recorded

end

end Run

end Rehearsal
