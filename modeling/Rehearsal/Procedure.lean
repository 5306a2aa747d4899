import Rehearsal.Store
import Rehearsal.FileTree
import Rehearsal.Event
import Rehearsal.Runner.Job
/-!
# Procedures

A procedure is what one caller does, operation by operation. Every operation is carried out at
once and alone; between two operations of a procedure anything may happen.

* `Operation`: the single operations on the store, the tokens, the log of events and the files.
* `Procedure`: an operation and how to go on after its answer, or a job for the runner and how to
  go on after its reply, or the end.
* `Call`: a procedure that may fail.
-/

namespace Rehearsal

open Runner (Job Reply Token)

/-- A single operation. -/
inductive Operation where
  | page (id : Uuid)
  | suite (id : Uuid)
  | project (id : Uuid)
  | record (id : Uuid)
  | createRecord (execution : Execution)
  | updateRecord (id : Uuid) (update : Update)
  | addRow (row : CaseResult)
  /-- The token of an execution, a new one if there is none. -/
  | claimToken (id : Uuid)
  /-- The token of an execution, if there is one. -/
  | findToken (id : Uuid)
  | releaseToken (id : Uuid)
  | fire (token : Token)
  | announce (event : Event)
  | clock
  /-- The identifier that is drawn next. -/
  | freshId
  /-- A path from the top of the tree. -/
  | locate (path : Path)
  | isDirectory (steps : List Segment)
  | makeDirectory (steps : List Segment)
  | openFile (path : Path)
  | fillFile (path : Path) (content : String)
  | removeTree (path : Path)

/-- What an operation answers. -/
def Operation.Answer : Operation → Type
  | .page _ => Option Page
  | .suite _ => Option Suite
  | .project _ => Option Project
  | .record _ => Option Execution
  | .createRecord _ => Except Error Unit
  | .updateRecord _ _ => Except Error Execution
  | .addRow _ => Except Error Unit
  | .claimToken _ => Token
  | .findToken _ => Option Token
  | .releaseToken _ => Unit
  | .fire _ => Unit
  | .announce _ => Unit
  | .clock => Instant
  | .freshId => Uuid
  | .locate _ => Except Refusal Path
  | .isDirectory _ => Bool
  | .makeDirectory _ => Except Refusal Unit
  | .openFile _ => Except Refusal Unit
  | .fillFile _ _ => Unit
  | .removeTree _ => Unit

/-- What a caller does. -/
inductive Procedure (α : Type) where
  | done (result : α)
  | act (operation : Operation) (next : operation.Answer → Procedure α)
  | spawn (job : Job) (token : Token) (next : Reply → Procedure α)

namespace Procedure

variable {α β : Type}

/-- One procedure and then another that depends on the result. -/
def andThen : Procedure α → (α → Procedure β) → Procedure β
  | done a, f => f a
  | act a next, f => act a fun answer => (next answer).andThen f
  | spawn job token next, f => spawn job token fun reply => (next reply).andThen f

instance : Monad Procedure where
  pure := done
  bind := andThen

/-- A single operation. -/
def ask (a : Operation) : Procedure a.Answer := act a done

def isDirectory (steps : List Segment) : Procedure Bool := ask (.isDirectory steps)

def makeDirectory (steps : List Segment) : Procedure (Except Refusal Unit) :=
  ask (.makeDirectory steps)

end Procedure

/-- A procedure that may fail. -/
abbrev Call (α : Type) : Type := ExceptT Error Procedure α

namespace Call

variable {α : Type}

/-- A procedure that cannot fail. -/
def sure (p : Procedure α) : Call α := ExceptT.lift p

/-- A procedure that says itself whether it failed. -/
def checked (p : Procedure (Except Error α)) : Call α := p

/-- The result of a call, whether it failed or not. -/
def outcome (c : Call α) : Call (Except Error α) := sure c.run

/-- A value or a failure that is known already. -/
def given : Except Error α → Call α
  | .ok a => pure a
  | .error e => throw e

/-- What was found, or a failure. -/
def found (e : Error) : Option α → Call α
  | some a => pure a
  | none => throw e

/-! ## Single operations -/

def page (id : Uuid) : Call Page := do found (.unknownPage id) (← sure (.ask (.page id)))

def suite (id : Uuid) : Call Suite := do found (.unknownSuite id) (← sure (.ask (.suite id)))

def project (id : Uuid) : Call Project := do
  found (.unknownProject id) (← sure (.ask (.project id)))

def record (id : Uuid) : Call Execution := do
  found (.unknownExecution id) (← sure (.ask (.record id)))

def createRecord (e : Execution) : Call Unit := checked (.ask (.createRecord e))

def updateRecord (id : Uuid) (u : Update) : Call Execution := checked (.ask (.updateRecord id u))

def addRow (r : CaseResult) : Call Unit := checked (.ask (.addRow r))

def claimToken (id : Uuid) : Call Token := sure (.ask (.claimToken id))

def findToken (id : Uuid) : Call (Option Token) := sure (.ask (.findToken id))

def releaseToken (id : Uuid) : Call Unit := sure (.ask (.releaseToken id))

def fire (t : Token) : Call Unit := sure (.ask (.fire t))

def announce (e : Event) : Call Unit := sure (.ask (.announce e))

def clock : Call Instant := sure (.ask .clock)

def freshId : Call Uuid := sure (.ask .freshId)

def locate (p : Path) : Call (Except Refusal Path) := sure (.ask (.locate p))

def openFile (p : Path) : Call (Except Refusal Unit) := sure (.ask (.openFile p))

def fillFile (p : Path) (content : String) : Call Unit := sure (.ask (.fillFile p content))

def removeTree (p : Path) : Call Unit := sure (.ask (.removeTree p))

/-- Hands a job to the runner and waits for the reply. -/
def spawn (job : Job) (token : Token) : Call Reply := sure (.spawn job token .done)

end Call

end Rehearsal
