import Rehearsal.CommandLine.Exit
import Rehearsal.Deployment
import Rehearsal.Sweep
import Rehearsal.Statistics
import Rehearsal.Runner.Machine
/-!
# The program that runs tests

* `Run.parse`: reads the arguments. Every flag but the one for help needs a value, also one
  that is not known.
* `Run.program`: the whole program, from the arguments to its end. A run that fails is a result
  like any other: the program succeeds.
-/

namespace Rehearsal.CommandLine.Run

open Runner (Job Machine Reply)

/-- What the arguments say. -/
structure Options where
  bundle : Option Path := none
  project : Option Uuid := none
  suite : Option Uuid := none
  browser : Option Browser := none
  environment : TextMap := []

/-- How the program is used. -/
def usage : List String := [
  "",
  "Usage: nocode-playwright --bundle <file> --project <uuid> [--suite <uuid>]"
    ++ " [--browser <name>] [--env KEY=VALUE]...",
  "",
  "Options:",
  "  --bundle, -b      JSON file with projects, pages and suites (required)",
  "  --project, -p     Project to run (required)",
  "  --suite, -s       Run a single suite of the project",
  "  --browser         chromium, firefox or webkit (default: NCPW_DEFAULT_BROWSER)",
  "  --env, -e         Extra environment variable for the runner (repeatable)",
  "  --help, -h        Show this help",
  ""]

/-- A variable and its value, at the first equals sign. -/
def assignment? (s : String) : Option (String × String) :=
  let name := s.toList.takeWhile fun c => c != '='
  match s.toList.drop name.length with
  | _ :: value => some (String.ofList name, String.ofList value)
  | [] => none

section

variable [Libraries]

/-- A flag with its value. -/
def Options.set (o : Options) (flag value : String) : Except Exit Options :=
  if flag = "--bundle" || flag = "-b" then .ok { o with bundle := some ⟨value⟩ }
  else if flag = "--project" || flag = "-p" then
    (identifier flag value).map fun id => { o with project := some id }
  else if flag = "--suite" || flag = "-s" then
    (identifier flag value).map fun id => { o with suite := some id }
  else if flag = "--browser" then
    match Browser.parse? value with
    | some b => .ok { o with browser := some b }
    | none => .error (.refuse ("Error: Invalid browser " ++ Error.quoted value
        ++ ". Must be: chromium, firefox, webkit"))
  else if flag = "--env" || flag = "-e" then
    match assignment? value with
    | some (name, v) => .ok { o with environment := Json.insertMember name v o.environment }
    | none => .error (.refuse ("Error: --env expects KEY=VALUE, got " ++ Error.quoted value))
  else .error (.misuse ("Unknown argument: " ++ flag) usage)

/-- Reads arguments after those that are read already. -/
def parseFrom (o : Options) : List String → Except Exit Options
  | [] => .ok o
  | [flag] =>
    if flag = "--help" || flag = "-h" then .error (.help usage)
    else .error (.misuse ("Error: " ++ flag ++ " needs a value") usage)
  | flag :: value :: rest =>
    if flag = "--help" || flag = "-h" then .error (.help usage)
    else do
      let o ← o.set flag value
      parseFrom o rest

/-- Reads the arguments. -/
def parse (args : List String) : Except Exit Options := parseFrom {} args

/-! ## Variables -/

/-- The variables that the lines of a file tell: nothing is told by an empty line or a comment,
and what comes after a line that tells nothing else is not read. -/
def fileVariables : List String → List (String × String)
  | [] => []
  | line :: rest =>
    let text := Text.trim line
    if text = "" || text.toList.head? = some '#' then fileVariables rest
    else match assignment? text with
      | some (name, value) => (Text.trim name, Text.trim value) :: fileVariables rest
      | none => []

/-- The value of a variable: the first one that is told. -/
def lookUp (told : List (String × String)) (name : String) : Option String :=
  (told.find? fun v => v.1 == name).map Prod.snd

/-- The variables of the environment, and under them those of a file. -/
def withFile (told : List (String × String)) (content : Option String) :
    Deployment.Environment :=
  lookUp (told ++ fileVariables ((content.getD "").splitOn "\n"))

/-! ## The run -/

/-- What is said when the variables do not tell of a deployment. -/
def misconfigured (f : DeploymentFault) : Exit :=
  ⟨1, "", Exit.lines ["Failed to load configuration: " ++ f.message, "",
    "Please check your environment variables:",
    "  - RUST_ENV must be set to 'development' or 'production'",
    "  - In production, NCPW_WORK_DIR must be absolute"]⟩

/-- The reply of the runner: what its process leaves, unless its time is up before. -/
def reply (machine : Machine) (d : Deployment) (w : World) (job : Job) : Reply :=
  let command := Runner.Command.ofJob d.program d.arguments job
  match machine.start command w.tree with
  | .error reason => .refused (.cannotSpawn d.program reason)
  | .ok trace =>
    if trace.duration < d.runSettings.limit then .ended (.finished trace.decoded) else .timedOut

/-- What is left when the program has ended. -/
structure Ending where
  world : World
  exit : Exit
  /-- How the runner was to be started, if it came to that. -/
  command : Option Runner.Command := none

/-- Carries out the run of an execution: the world then, and how the runner was to be
started. -/
def carryOut (machine : Machine) (d : Deployment) (w : World) (id : Uuid) :
    World × Option Runner.Command :=
  match w.advance (Rehearsal.Run.run d.runSettings id).run with
  | (v, .ended _) => (v, none)
  | (v, .waiting job _ next) =>
    let answer := reply machine d v job
    ((v.complete answer (next answer)).1,
      some (Runner.Command.ofJob d.program d.arguments job))

/-- What is left to say of an execution: its record, its rows, and a summary of all executions
of its project. -/
def report (l : Logbook) (project : Uuid) (e : Execution) : Json.Value :=
  Json.Value.sorted (.obj [
    ("execution", e.toValue),
    ("results", .arr ((l.rowsOf e.id).map CaseResult.toValue)),
    ("statistics", (Statistics.ofExecutions (l.list { project := some project })).toValue)])

/-- What the sweep at the beginning complains of, if there is anything. -/
def sweepComplaint (w : World) (d : Deployment) : List String :=
  let steps := (d.workDir.absolute w.tree.currentPath).segments
  if w.tree.isPresent steps && !w.tree.isDirectory steps then
    ["Cleanup task error: "
      ++ (Error.cannotReadWorkDir d.workDir.text Refusal.notDirectory.text).message]
  else []

/-- The request that the arguments make. -/
def requestOf (o : Options) (d : Deployment) (project : Uuid) : Request where
  project := project
  suite := o.suite
  browser := o.browser.getD d.browser
  environment := o.environment

/-- Runs the tests of a bundle. -/
def run (machine : Machine) (d : Deployment) (w : World) (o : Options) (bundle : Path)
    (project : Uuid) : Ending :=
  match loadBundle w bundle with
  | (v, .error e) => ⟨v, .refuse e.message, none⟩
  | (v, .ok ()) =>
    match v.result? (Rehearsal.Run.create (requestOf o d project)) with
    | (u, some (.ok e)) =>
      let (t, command) := carryOut machine d u e.id
      match t.store.logbook.record? e.id with
      | some last =>
        ⟨t, ⟨0, (report t.store.logbook project last).pretty ++ "\n",
          Exit.lines (sweepComplaint v d)⟩, command⟩
      | none => ⟨t, .refuse (Error.unknownExecution e.id).message, command⟩
    | (u, some (.error e)) => ⟨u, .refuse e.message, none⟩
    | (u, none) => ⟨u, ⟨1, "", ""⟩, none⟩

/-- The program. -/
def program (machine : Machine) (told : List (String × String)) (w : World)
    (args : List String) : Ending :=
  match parse args with
  | .error e => ⟨w, e, none⟩
  | .ok o =>
    match o.bundle, o.project with
    | some bundle, some project =>
      match Deployment.ofEnvironment (withFile told (w.tree.read? ⟨".env"⟩)) with
      | .error f => ⟨w, misconfigured f, none⟩
      | .ok d => run machine d w o bundle project
    | _, _ => ⟨w, .misuse "Error: --bundle and --project are required" usage, none⟩

end

end Rehearsal.CommandLine.Run
