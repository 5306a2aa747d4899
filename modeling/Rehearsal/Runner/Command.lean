import Rehearsal.Runner.Job
import Rehearsal.FileTree
import Rehearsal.Text.Utf8
/-!
# Commands

The runner is started by a command line, and what its process leaves becomes the reply to the
job.

* `Command.ofJob`: after its own arguments the program gets the path of the tests, the browser
  and the name of the reporter.
* `Trace.reply`: a job that is cancelled before its process ends is cancelled, and nothing the
  process wrote is kept.
-/

namespace Rehearsal.Runner

/-- How a process is started. -/
structure Command where
  program : String
  arguments : List String
  workingDir : Path
  /-- Variables besides those that are there anyway. -/
  environment : TextMap

/-- The command for a job. -/
def Command.ofJob (program : String) (arguments : List String) (job : Job) : Command where
  program := program
  arguments := arguments ++ [job.testPath, "--project=" ++ job.browser.name, "--reporter=json"]
  workingDir := job.workingDir
  environment := job.environment

/-- What a process leaves when it ends. -/
structure Trace where
  /-- None if a signal ended it. -/
  exitCode : Option Int
  stdout : List UInt8
  stderr : List UInt8
  /-- Milliseconds until it ended. -/
  duration : Nat

namespace Trace

/-- What the process wrote, as text. -/
def decoded (t : Trace) : Output :=
  ⟨t.exitCode, Text.Utf8.decode t.stdout, Text.Utf8.decode t.stderr⟩

/-- What becomes of a job, given when it is cancelled, if it is. -/
def reply (cancelAfter : Option Nat) (t : Trace) : Reply :=
  match cancelAfter with
  | none => .ended (.finished t.decoded)
  | some limit => if t.duration < limit then .ended (.finished t.decoded) else .ended .cancelled

end Trace

/-- The characters of which a command line can consist. -/
def isPassable (s : String) : Bool := !s.toList.contains '\x00'

/-- Why a process cannot be started in a tree, if it cannot. -/
def Command.obstacle? (c : Command) (t : FileTree) : Option String :=
  if !(c.program :: c.arguments).all isPassable
      || !c.environment.all fun e => isPassable e.1 && isPassable e.2 then
    some "nul byte found in provided data"
  else if !t.isDirectory c.workingDir.segments then some Refusal.missing.text
  else none

end Rehearsal.Runner
