import Rehearsal.FileTree.Path
import Rehearsal.Execution
/-!
# Jobs for the runner

The runner is a program of its own. It is handed a job and a token that may ask it to stop, and
what it replies is all that is known of it.

* `Job`: where to run, what, in which browser, with which variables.
* `Output`: how the program ended and what it wrote. It succeeded if it ended with code 0.
* `Reply`: it ended, it could not be started, or its time was up.
-/

namespace Rehearsal.Runner

/-- One use of the runner. -/
structure Job where
  workingDir : Path
  /-- The test file or the directory of test files, seen from the working directory. -/
  testPath : String
  browser : Browser
  environment : TextMap

/-- What a program that ended leaves. -/
structure Output where
  /-- None if a signal ended the program. -/
  exitCode : Option Int
  stdout : String
  stderr : String
deriving DecidableEq, Repr

def Output.success (o : Output) : Bool := o.exitCode == some 0

/-- How a job ended. -/
inductive Outcome where
  | finished (output : Output)
  | cancelled
deriving DecidableEq, Repr

/-- What becomes of a job. -/
inductive Reply where
  | ended (outcome : Outcome)
  /-- The program could not be started. -/
  | refused (cause : Error)
  | timedOut
deriving DecidableEq, Repr

/-- What asks a job to stop. A token that has fired stays so. -/
structure Token where
  number : Nat
deriving DecidableEq, Repr, Inhabited

end Rehearsal.Runner
