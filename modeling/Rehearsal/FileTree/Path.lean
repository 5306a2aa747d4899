/-!
# Paths

A path is written text; what it leads to is read off its segments.

* `Path.segments`: repeated and trailing slashes count for nothing, nor does `.`, unless a
  relative path begins with it.
* `Path.join`: an absolute second part replaces the first.
* `Path.absolute`: `..` stays, since only the tree tells where it leads.
-/

namespace Rehearsal

/-- A path as it is written. -/
structure Path where
  text : String
deriving DecidableEq, Repr, Inhabited

/-- One step of a path. -/
inductive Segment where
  /-- To the top of the tree. -/
  | root
  /-- To stay. -/
  | here
  | up
  | name (text : String)
deriving DecidableEq, Repr

namespace Path

/-- The characters between slashes, empty pieces included. -/
def pieces : List Char → List (List Char)
  | [] => [[]]
  | c :: rest =>
    if c = '/' then [] :: pieces rest
    else match pieces rest with
      | [] => [[c]]
      | p :: ps => (c :: p) :: ps

/-- The step that a piece stands for, if it stands for one. -/
def step? (p : List Char) : Option Segment :=
  if p = [] then none
  else if p = ['.'] then none
  else if p = ['.', '.'] then some .up
  else some (.name (String.ofList p))

/-- A path that begins at the top. -/
def isAbsolute (p : Path) : Bool := p.text.toList.head? == some '/'

/-- The steps of a path. -/
def segments (p : Path) : List Segment :=
  let ps := pieces p.text.toList
  let steps := ps.filterMap step?
  if p.isAbsolute then .root :: steps
  else if ps.head? = some ['.'] then .here :: steps
  else steps

/-- A path below another. -/
def join (p : Path) (below : String) : Path :=
  if below.toList.head? = some '/' then ⟨below⟩
  else if p.text.isEmpty || p.text.toList.getLast? == some '/' then ⟨p.text ++ below⟩
  else ⟨p.text ++ "/" ++ below⟩

/-- The name that a step adds to a path. -/
def stepText : Segment → String
  | .root => "/"
  | .here => "."
  | .up => ".."
  | .name n => n

/-- A path that follows another one step by step. -/
def follow (p : Path) (steps : List Segment) : Path :=
  steps.foldl (fun q s => q.join (stepText s)) p

/-- The same path from the top of the tree: a relative path begins at the given place, the
steps are written once more, exactly two leading slashes and a trailing one stay. -/
def absolute (p current : Path) : Path :=
  let cs := p.text.toList
  let start : Path :=
    if !p.isAbsolute then current
    else if cs.take 2 = ['/', '/'] && cs.take 3 != ['/', '/', '/'] then ⟨"//"⟩
    else ⟨"/"⟩
  let q := start.follow (p.segments.filter fun s => s != .root && s != .here)
  if cs.getLast? == some '/' then q.join "" else q

/-- A path that can only lead to a directory: its text ends with a slash or with a dot that
stands alone. -/
def needsDirectory (p : Path) : Bool :=
  match (pieces p.text.toList).getLast? with
  | some last => last = [] || last = ['.']
  | none => true

end Path

end Rehearsal
