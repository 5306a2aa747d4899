import Rehearsal.Table
import Rehearsal.FileTree.Path
/-!
# Trees of files

A tree says what stands at each place. A place is the list of names that lead to it from the
top. Nothing in the tree points elsewhere, so a place has one name.

* `FileTree.place`: where a path leads. Every step but the last must be taken from a
  directory that exists.
* `FileTree.locate`: a path from the top, if there is one.
* `FileTree.makeDirectory`, `openFile`, `fillFile`, `removeTree`: the single operations.
  **Each one changes what stands at one place or below it.**
* `FileTree.listing`: everything below a place, in order.
-/

namespace Rehearsal

/-- The names that lead from the top to a place. -/
abbrev Place := List String

/-- What can stand at a place. -/
inductive Entry where
  | directory
  | file (content : String)
deriving DecidableEq, Repr, Inhabited

/-- Why an operation on a tree is refused. -/
inductive Refusal where
  /-- Something on the way does not exist. -/
  | missing
  /-- Something on the way is a file. -/
  | notDirectory
  /-- There is something already. -/
  | occupied
  /-- A file is wanted and there is a directory. -/
  | isDirectory
  /-- No file system takes such a name. -/
  | unusableName
  /-- A path without a text leads nowhere. -/
  | emptyPath
deriving DecidableEq, Repr

/-- The words of a refusal. -/
def Refusal.text : Refusal → String
  | .missing => "No such file or directory (os error 2)"
  | .notDirectory => "Not a directory (os error 20)"
  | .occupied => "File exists (os error 17)"
  | .isDirectory => "Is a directory (os error 21)"
  | .unusableName => "File name too long (os error 36)"
  | .emptyPath => "cannot make an empty path absolute"

/-- What stands at each place, and the place where relative paths begin. -/
structure FileTree where
  table : Table Place Entry
  current : Place

namespace FileTree

instance : Inhabited FileTree := ⟨⟨.empty, []⟩⟩

/-- What stands at a place. The top is a directory. -/
def get? (t : FileTree) (p : Place) : Option Entry :=
  if p = [] then some .directory else t.table.get? p

def isDirectoryAt (t : FileTree) (p : Place) : Bool := t.get? p = some .directory

def put (t : FileTree) (p : Place) (e : Entry) : FileTree := { t with table := t.table.put p e }

/-- Without everything at a place and below it. -/
def clear (t : FileTree) (p : Place) : FileTree :=
  { t with table := t.table.filterKeys fun q => !p.isPrefixOf q }

/-! ## Paths in a tree -/

/-- The greatest length of a name, in bytes. -/
def maxName : Nat := 255

/-- Where steps lead from a place. -/
def walk (t : FileTree) (p : Place) : List Segment → Except Refusal Place
  | [] => .ok p
  | s :: rest =>
    match t.get? p with
    | none => .error .missing
    | some (.file _) => .error .notDirectory
    | some .directory =>
      match s with
      | .root => walk t [] rest
      | .here => walk t p rest
      | .up => walk t p.dropLast rest
      | .name n =>
        if n.utf8ByteSize ≤ maxName then walk t (p ++ [n]) rest else .error .unusableName

/-- Where a path leads. Nothing need stand there. -/
def place (t : FileTree) (steps : List Segment) : Except Refusal Place := t.walk t.current steps

/-- The path from the top to the place where relative paths begin. -/
def currentPath (t : FileTree) : Path := ⟨"/" ++ String.intercalate "/" t.current⟩

/-- A path from the top. A relative path has one only while the place where it begins stands. -/
def locate (t : FileTree) (path : Path) : Except Refusal Path :=
  if path.text = "" then .error .emptyPath
  else if !path.isAbsolute && !t.isDirectoryAt t.current then .error .missing
  else .ok (path.absolute t.currentPath)

/-- A path cannot hold the character that ends texts in a file system. -/
def usable (steps : List Segment) : Bool :=
  steps.all fun s => match s with
    | .name n => !n.toList.contains '\x00'
    | _ => true

/-! ## Operations -/

/-- Whether steps lead to a directory. -/
def isDirectory (t : FileTree) (steps : List Segment) : Bool :=
  usable steps && match t.place steps with
    | .ok p => t.isDirectoryAt p
    | .error _ => false

/-- Whether steps lead to something. -/
def isPresent (t : FileTree) (steps : List Segment) : Bool :=
  usable steps && match t.place steps with
    | .ok p => (t.get? p).isSome
    | .error _ => false

/-- Make one directory where nothing stands. -/
def makeDirectory (t : FileTree) (steps : List Segment) : Except Refusal FileTree :=
  if !usable steps then .error .unusableName
  else match t.place steps with
    | .error r => .error r
    | .ok p => if (t.get? p).isSome then .error .occupied else .ok (t.put p .directory)

/-- Make a file, or empty the one that is there. -/
def openFile (t : FileTree) (path : Path) : Except Refusal FileTree :=
  if !usable path.segments then .error .unusableName
  else if path.needsDirectory then .error .isDirectory
  else match t.place path.segments with
    | .error r => .error r
    | .ok p => if t.isDirectoryAt p then .error .isDirectory else .ok (t.put p (.file ""))

/-- Give an open file its content. A file that has been removed meanwhile is out of reach, so
nothing happens. -/
def fillFile (t : FileTree) (path : Path) (content : String) : FileTree :=
  match t.place path.segments with
  | .error _ => t
  | .ok p => match t.get? p with
    | some (.file _) => t.put p (.file content)
    | _ => t

/-- Remove a directory and everything below it. -/
def removeTree (t : FileTree) (steps : List Segment) : FileTree :=
  match t.place steps with
  | .error _ => t
  | .ok p => if t.isDirectoryAt p then t.clear p else t

/-- The text of a file. -/
def read? (t : FileTree) (path : Path) : Option String :=
  if path.needsDirectory then none
  else match t.place path.segments with
    | .error _ => none
    | .ok p => match t.get? p with
      | some (.file content) => some content
      | _ => none

/-! ## Listing -/

/-- The name of an entry in a listing: names with slashes between them, and one at the end of
a directory. -/
def label (p : Place) (e : Entry) : String :=
  String.intercalate "/" p ++ match e with
    | .directory => "/"
    | .file _ => ""

/-- Everything below a place, named from there and sorted by name. -/
def listing (t : FileTree) (p : Place) : List String :=
  let below := t.table.entries.filterMap fun e =>
    if p.isPrefixOf e.1 && e.1 != p then some (label (e.1.drop p.length) e.2) else none
  below.mergeSort fun a b => decide (a ≤ b)

end FileTree

end Rehearsal
