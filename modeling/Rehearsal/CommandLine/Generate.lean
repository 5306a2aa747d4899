import Rehearsal.CommandLine.Exit
import Rehearsal.Generation
/-!
# The program that generates projects

* `Generate.parse`: reads the arguments. A flag at the very end that lacks its value is
  ignored; of a flag that is given twice the last value counts, but suites add up.
* `Generate.program`: the whole program, from the arguments to its end.
-/

namespace Rehearsal.CommandLine.Generate

/-- What the arguments say. -/
structure Options where
  bundle : Option Path := none
  out : Option Path := none
  project : Option Uuid := none
  suites : List Uuid := []
  overrides : Option String := none

/-- How the program is used. -/
def usage : List String := [
  "",
  "Usage: generate-project --bundle <file> --out <absolute dir> [--suite <uuid>]..."
    ++ " [--project <uuid>] [--config <json>]",
  "",
  "Options:",
  "  --bundle, -b      JSON file with projects, pages and suites (required)",
  "  --out, -o         Absolute output directory (required)",
  "  --suite, -s       Suite to generate (repeatable)",
  "  --project, -p     Generate every suite of a project",
  "  --config, -c      Runner configuration overrides as a JSON object",
  "  --help, -h        Show this help",
  ""]

/-- A flag that takes a value. -/
inductive Flag where
  | bundle
  | out
  | project
  | suite
  | config
deriving DecidableEq, Repr

/-- The flag of a name. -/
def flag? (s : String) : Option Flag :=
  if s = "--bundle" || s = "-b" then some .bundle
  else if s = "--out" || s = "-o" then some .out
  else if s = "--project" || s = "-p" then some .project
  else if s = "--suite" || s = "-s" then some .suite
  else if s = "--config" || s = "-c" then some .config
  else none

section

variable [Libraries]

/-- A flag with its value. -/
def Options.set (o : Options) (value : String) : Flag → Except Exit Options
  | .bundle => .ok { o with bundle := some ⟨value⟩ }
  | .out => .ok { o with out := some ⟨value⟩ }
  | .project => (identifier "--project" value).map fun id => { o with project := some id }
  | .suite => (identifier "--suite" value).map fun id => { o with suites := o.suites ++ [id] }
  | .config => .ok { o with overrides := some value }

/-- Reads arguments after those that are read already. -/
def parseFrom (o : Options) : List String → Except Exit Options
  | [] => .ok o
  | [a] =>
    if a = "--help" || a = "-h" then .error (.help usage)
    else match flag? a with
      | some _ => .ok o
      | none => .error (.misuse ("Unknown argument: " ++ a) usage)
  | a :: value :: rest =>
    if a = "--help" || a = "-h" then .error (.help usage)
    else match flag? a with
      | some f => do
        let o ← o.set value f
        parseFrom o rest
      | none => .error (.misuse ("Unknown argument: " ++ a) usage)

/-- Reads the arguments. -/
def parse (args : List String) : Except Exit Options := parseFrom {} args

/-- The settings that go over those of the suites. -/
def overridesOf : Option String → Except Exit Json.Bag
  | none => .ok []
  | some s =>
    match Json.decode Json.Reader.bag s with
    | some bag => .ok bag
    | none =>
      .error (.refuse ("Error: --config must be a JSON object: " ++ Libraries.settingsFault s))

/-- The suites to generate: those that are named, then those of the project. -/
def suitesOf (c : Catalog) (o : Options) : Except Exit (List Uuid) :=
  match o.project with
  | none => .ok o.suites
  | some id =>
    match c.project? id with
    | some p => .ok (o.suites ++ p.suites)
    | none => .error (.refuse ("Error: Project " ++ id.text ++ " not found"))

/-- What the program says of what it wrote. -/
def report (g : Generated) : String :=
  Exit.lines (["", "Generated project at " ++ g.root.text, ""]
    ++ g.paths.map (fun p => "  " ++ p.text) ++ [""])

/-- Generates into a directory what a bundle holds. -/
def generate (w : World) (o : Options) (bundle out : Path) (overrides : Json.Bag) :
    World × Exit :=
  match loadBundle w bundle with
  | (v, .error e) => (v, .refuse ("Error loading bundle: " ++ e.message))
  | (v, .ok ()) =>
    match suitesOf v.store.catalog o with
    | .error e => (v, e)
    | .ok ids =>
      match v.result? (Generation.generate .standard ids out overrides) with
      | (u, some (.ok (g, _))) => (u, ⟨0, report g, ""⟩)
      | (u, some (.error e)) => (u, .refuse ("Error generating project: " ++ e.message))
      | (u, none) => (u, .refuse "Error generating project")

/-- The program. -/
def program (w : World) (args : List String) : World × Exit :=
  match parse args with
  | .error e => (w, e)
  | .ok o =>
    match o.bundle, o.out with
    | some bundle, some out =>
      match overridesOf o.overrides with
      | .error e => (w, e)
      | .ok overrides => generate w o bundle out overrides
    | _, _ => (w, .misuse "Error: --bundle and --out are required" usage)

end

end Rehearsal.CommandLine.Generate
