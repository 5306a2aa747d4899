import Rehearsal.Procedure
import Rehearsal.Plan
/-!
# Generation

A project is generated in two phases: everything is fetched and planned, and **only then** is
anything written. A fault of the first phase leaves no trace in the tree.

* `makeDirectories`: a directory and all that lead to it.
* `writeArtifact`: one file below a root. A path that could lead out of the root is refused
  before anything happens.
* `generate`: the whole project.
-/

namespace Rehearsal

/-- The files of one generation. -/
structure Generated where
  root : Path
  /-- Page objects, test files and the helper. -/
  files : List Path
  configurationFiles : List Path
  /-- In the order of the suites. -/
  testFiles : List Path
deriving DecidableEq

namespace Generated

/-- Every file. -/
def paths (g : Generated) : List Path := g.files ++ g.configurationFiles

def toValue (g : Generated) : Json.Value :=
  Json.record [
    ("root", some (.str g.root.text)),
    ("files", some (.arr (g.files.map fun p => .str p.text))),
    ("config_files", some (.arr (g.configurationFiles.map fun p => .str p.text)))]

/-- One more file. -/
def add (g : Generated) (kind : ArtifactKind) (p : Path) : Generated :=
  match kind with
  | .configuration => { g with configurationFiles := g.configurationFiles ++ [p] }
  | .testFile => { g with testFiles := g.testFiles ++ [p], files := g.files ++ [p] }
  | .pageObject => { g with files := g.files ++ [p] }
  | .support => { g with files := g.files ++ [p] }

end Generated

namespace Generation

/-! ## Writing -/

/-- Makes a directory, unless it is there. -/
def makeDirectory (steps : List Segment) : Procedure (Except Refusal Unit) := do
  match ← Procedure.makeDirectory steps with
  | .ok () => return .ok ()
  | .error .missing => return .error .missing
  | .error r =>
    let present ← Procedure.isDirectory steps
    return if present then .ok () else .error r

/-- Makes a directory and those that lead to it; the steps are given from the last to the
first. -/
def makeDirectoriesUp : List Segment → Procedure (Except Refusal Unit)
  | [] => return .ok ()
  | s :: up => do
    match ← makeDirectory (s :: up).reverse with
    | .error .missing =>
      match ← makeDirectoriesUp up with
      | .ok () => makeDirectory (s :: up).reverse
      | .error r => return .error r
    | result => return result

/-- Makes a directory and those that lead to it. -/
def makeDirectories (steps : List Segment) : Procedure (Except Refusal Unit) :=
  makeDirectoriesUp steps.reverse

/-- Passes a refusal on as a failure. -/
def orFail {α : Type} (failure : String → Error) : Except Refusal α → Call α
  | .ok a => pure a
  | .error r => throw (failure r.text)

/-- Makes the directories of a project. -/
def layOutAll (root : Path) : List String → Call Unit
  | [] => return ()
  | d :: rest => do
    orFail (.cannotCreateDirectory (root.join d).text)
      (← Call.sure (makeDirectories (root.join d).segments))
    layOutAll root rest

/-- Makes the directories of a project. Those that are there already stay as they are. -/
def layOut (root : Path) : Call Unit := layOutAll root Plan.directories

/-- A path that cannot lead out of the root: names and nothing else. -/
def confined (path : String) : Bool :=
  (Path.segments ⟨path⟩).all fun s => match s with
    | .name _ => true
    | _ => false

/-- Writes a file below a root: the path of the file. -/
def writeArtifact (root : Path) (path content : String) : Call Path := do
  if !confined path then throw (.escapingArtifact path)
  let file := root.join path
  orFail (.cannotCreateDirectoryFor path)
    (← Call.sure (makeDirectories file.segments.dropLast))
  orFail (.cannotCreateFile path) (← Call.openFile file)
  Call.fillFile file content
  return file

/-- Writes files in order. -/
def writeAll (g : Generated) : List Artifact → Call Generated
  | [] => return g
  | a :: rest => do
    let p ← writeArtifact g.root a.path a.content
    writeAll (g.add a.kind p) rest

/-! ## The whole project -/

/-- Fetches things in order; the first that is missing decides. -/
def fetch {α : Type} (get : Uuid → Call α) : List Uuid → Call (List α)
  | [] => return []
  | id :: rest => do
    let a ← get id
    let more ← fetch get rest
    return a :: more

/-- Fetches and plans: the files, and the suites they are for. -/
def plan [Libraries] (style : Source.Style) (ids : List Uuid) (overrides : Json.Bag) :
    Call (List Artifact × List Suite) := do
  if ids.isEmpty then throw .noSuites
  let suites ← fetch Call.suite ids
  let pages ← fetch Call.page (Plan.distinctPages suites)
  let artifacts ← Call.given (Plan.artifacts style suites pages overrides)
  return (artifacts, suites)

/-- Generates a project for suites below a root: what was written, and the suites it was
written from. -/
def generate [Libraries] (style : Source.Style) (ids : List Uuid) (root : Path)
    (overrides : Json.Bag) : Call (Generated × List Suite) := do
  if !root.isAbsolute then throw (.relativeRoot root.text)
  let (artifacts, suites) ← plan style ids overrides
  layOut root
  let g ← writeAll ⟨root, [], [], []⟩ artifacts
  return (g, suites)

end Generation

end Rehearsal
