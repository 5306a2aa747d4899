import Rehearsal.Uuid
/-!
# What can go wrong

* `Error`: the kinds of failure, each with what it is about.
* `Error.message`: the wording, a fixed beginning for each kind.
* `Error.category`: the four classes that callers tell apart.

The causes follow, each with its wording in this one place.
-/

namespace Rehearsal

/-- The states an execution goes through. -/
inductive Status where
  | pending
  | running
  | completed
  | failed
  | cancelled
deriving DecidableEq, Repr, Inhabited

/-- The name of a state. -/
def Status.name : Status → String
  | .pending => "pending"
  | .running => "running"
  | .completed => "completed"
  | .failed => "failed"
  | .cancelled => "cancelled"

/-- A failure and what it is about. -/
inductive Error where
  | invalidInput (detail : String)
  | unknownAction (action : String)
  | invalidStep (detail : String)
  | notFound (what : String)
  | compilation (detail : String)
  | invalidOutputPath (detail : String)
  | invalidTransition (source target : Status)
  | fileSystem (detail : String)
  | extraction (detail : String)
  | runner (detail : String)
  | timeout (seconds : Nat)
deriving DecidableEq, Repr

/-- The classes of failures that callers tell apart. -/
inductive Category where
  | validation
  | notFound
  | compilation
  | execution
deriving DecidableEq, Repr

namespace Error

/-- The text of a failure. -/
def message : Error → String
  | invalidInput detail => "Invalid input: " ++ detail
  | unknownAction action => "Unknown action: " ++ action
  | invalidStep detail => "Invalid step: " ++ detail
  | notFound what => what ++ " not found"
  | compilation detail => "Compilation error: " ++ detail
  | invalidOutputPath detail => "Invalid output path: " ++ detail
  | invalidTransition source target =>
    "Invalid status transition: " ++ source.name ++ " -> " ++ target.name
  | fileSystem detail => "File system error: " ++ detail
  | extraction detail => "Extraction failed: " ++ detail
  | runner detail => "Runner error: " ++ detail
  | timeout seconds =>
    "Timeout: runner did not finish within " ++ Json.Number.digits seconds ++ " seconds"

/-- The class of a failure. -/
def category : Error → Category
  | invalidInput _ => .validation
  | unknownAction _ => .validation
  | invalidStep _ => .validation
  | invalidOutputPath _ => .validation
  | invalidTransition _ _ => .validation
  | notFound _ => .notFound
  | compilation _ => .compilation
  | fileSystem _ => .execution
  | extraction _ => .execution
  | runner _ => .execution
  | timeout _ => .execution

/-- A text between single quotation marks. -/
def quoted (s : String) : String := "'" ++ s ++ "'"

/-! ## Documents and identifiers -/

def malformedDocument (detail : String) : Error :=
  invalidInput ("JSON parsing error: " ++ detail)

def malformedUuid (detail : String) : Error := invalidInput ("Invalid UUID: " ++ detail)

def unknownSuite (id : Uuid) : Error := notFound ("Test suite " ++ id.text)

def unknownPage (id : Uuid) : Error := notFound ("Page " ++ id.text)

def unknownProject (id : Uuid) : Error := notFound ("Project " ++ id.text)

def unknownExecution (id : Uuid) : Error := notFound ("Execution " ++ id.text)

/-! ## Pages -/

def blankPageName : Error := invalidInput "Page name must not be empty"

def badScheme (pattern : String) : Error :=
  invalidInput
    ("URL pattern " ++ quoted pattern ++ " must start with http://, https:// or *")

def badPattern (pattern detail : String) : Error :=
  invalidInput ("URL pattern " ++ quoted pattern ++ " is not a valid regex: " ++ detail)

def duplicateSelector (name : String) : Error :=
  invalidInput ("Duplicate selector name " ++ quoted name)

def unnamedSelector (page : String) : Error :=
  invalidInput ("Page " ++ quoted page ++ " has a selector with an empty name")

def emptySelector (name page : String) : Error :=
  invalidInput ("Selector " ++ quoted name ++ " on page " ++ quoted page
    ++ " has an empty value")

def unknownCondition (condition selector : String) : Error :=
  invalidInput ("Unknown wait condition " ++ quoted condition ++ " for selector "
    ++ quoted selector)

/-! ## Steps -/

def missingText (selector : String) : Error :=
  invalidStep ("'type' step on " ++ quoted selector ++ " requires a non-empty value")

def missingOption (selector : String) : Error :=
  invalidStep ("'select' step on " ++ quoted selector ++ " requires an option value")

def missingSelector (action : String) : Error :=
  invalidStep (quoted action ++ " step requires a selector")

/-! ## Configuration -/

def illTyped (key expected : String) : Error :=
  invalidInput ("configuration " ++ quoted key ++ " must be " ++ expected)

def unnamedReporter : Error := invalidInput "reporter entry must start with a name"

def badReporterOptions (name : String) : Error :=
  invalidInput ("reporter " ++ quoted name ++ " options must be an object")

def badReporter (text : String) : Error :=
  invalidInput ("reporter entry must be a string or [name, options], got " ++ text)

/-! ## Generation -/

def emptyClassName (page : String) : Error :=
  compilation ("Page name " ++ quoted page ++ " yields an empty class name")

def emptyFileName (kind name : String) : Error :=
  compilation (kind ++ " name " ++ quoted name ++ " yields an empty file name")

def clashingAccessor (selector page : String) : Error :=
  compilation ("Selector " ++ quoted selector ++ " on page " ++ quoted page
    ++ " does not map to a unique accessor name")

/-- A failure inside a case of a suite. -/
def inCase (case suite : String) (cause : Error) : Error :=
  compilation ("Test case " ++ quoted case ++ " in suite " ++ quoted suite ++ ": "
    ++ cause.message)

def clashingArtifact (path : String) : Error :=
  compilation ("Two generated artifacts map to the same file " ++ path)

def noSuites : Error := invalidInput "At least one test suite is required"

def relativeRoot (root : String) : Error :=
  invalidOutputPath ("Output root " ++ quoted root ++ " is not absolute")

def escapingArtifact (path : String) : Error :=
  invalidOutputPath ("Artifact path " ++ quoted path ++ " must stay inside the output root")

/-! ## Files -/

def cannotCreateDirectory (path reason : String) : Error :=
  fileSystem ("Failed to create directory " ++ path ++ ": " ++ reason)

def cannotCreateDirectoryFor (path reason : String) : Error :=
  fileSystem ("Failed to create directory for " ++ path ++ ": " ++ reason)

def cannotCreateFile (path reason : String) : Error :=
  fileSystem ("Failed to create file " ++ path ++ ": " ++ reason)

def cannotReadBundle (path reason : String) : Error :=
  fileSystem ("Failed to read bundle " ++ path ++ ": " ++ reason)

def cannotReadWorkDir (path reason : String) : Error :=
  fileSystem ("Failed to read work dir " ++ path ++ ": " ++ reason)

def cannotResolveWorkDir (path reason : String) : Error :=
  fileSystem ("Failed to resolve work dir " ++ path ++ ": " ++ reason)

/-! ## Executions -/

def duplicateExecution (id : Uuid) : Error :=
  invalidInput ("Execution " ++ id.text ++ " already exists")

def foreignSuite (suite project : Uuid) : Error :=
  invalidInput ("Test suite " ++ suite.text ++ " does not belong to project " ++ project.text)

def emptyProject (project : Uuid) : Error :=
  invalidInput ("Project " ++ project.text ++ " has no test suites")

def outputNotJson (detail : String) : Error :=
  extraction ("Runner output is not JSON: " ++ detail)

def outputNotReport (detail : String) : Error :=
  extraction ("Runner output is not a result document: " ++ detail)

def cannotSpawn (program reason : String) : Error :=
  runner ("Failed to spawn " ++ program ++ ": " ++ reason)

end Error

end Rehearsal
