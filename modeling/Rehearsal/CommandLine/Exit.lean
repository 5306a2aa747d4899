import Rehearsal.World
/-!
# How a program ends

Both programs end with a code, a text for the standard output and lines for the standard
error.

* `Exit.refuse`: a complaint, with the usage or without it.
* `readBundle`: the documents that a program works on.
-/

namespace Rehearsal.CommandLine

/-- The end of a program. -/
structure Exit where
  code : Nat
  stdout : String
  stderr : String
deriving DecidableEq, Repr

namespace Exit

/-- Lines, each with its end. -/
def lines (ls : List String) : String := String.join (ls.map fun l => l ++ "\n")

/-- Nothing but an explanation of how the program is used. -/
def help (usage : List String) : Exit := ⟨0, "", lines usage⟩

/-- A complaint. -/
def refuse (complaint : String) : Exit := ⟨1, "", lines [complaint]⟩

/-- A complaint about the arguments. -/
def misuse (complaint : String) (usage : List String) : Exit := ⟨1, "", lines (complaint :: usage)⟩

end Exit

section

variable [Libraries]

/-- An identifier that is given with a flag. -/
def identifier (flag value : String) : Except Exit Uuid :=
  match Uuid.parse? value with
  | some id => .ok id
  | none =>
    .error (.refuse ("Error: " ++ flag ++ " expects a UUID: " ++ Libraries.uuidFault value))

/-- The text of a file, or why it cannot be read. -/
def readFile (t : FileTree) (path : Path) : Except Refusal String :=
  match t.read? path with
  | some content => .ok content
  | none => .error (if t.isDirectory path.segments then .isDirectory else .missing)

/-- The bundle in a file. -/
def readBundle (t : FileTree) (path : Path) : Except Error Bundle :=
  match readFile t path with
  | .error r => .error (.cannotReadBundle path.text r.text)
  | .ok content =>
    match Json.decode Bundle.reader content with
    | some b => .ok b
    | none => .error (.malformedDocument (Libraries.bundleFault content))

/-- A world with everything in a bundle, or what is wrong with it. -/
def loadBundle (w : World) (path : Path) : World × Except Error Unit :=
  match readBundle w.tree path with
  | .error e => (w, .error e)
  | .ok b =>
    match w.store.call w.now (.load b) with
    | (s, r) => ({ w with store := s }, r)

end

end Rehearsal.CommandLine
