import Rehearsal.Json.Printer
/-!
# Lines of generated text

Generated files are lists of lines; every line is ended, the last one too.

* `Style`: what may be chosen about the form of generated files.
* `unlines`: the text of lines.
-/

namespace Rehearsal.Source

/-- What may be chosen about generated files. -/
structure Style where
  /-- One step of indentation. -/
  indent : String := "  "
  /-- Where the runner looks for tests. -/
  testDir : String := "./tests"
deriving DecidableEq, Repr

/-- The style when nothing is chosen. -/
def Style.standard : Style := {}

/-- So many steps of indentation. -/
def Style.pad (style : Style) : Nat → String
  | 0 => ""
  | depth + 1 => style.indent ++ style.pad depth

/-- A line at a depth. -/
def Style.line (style : Style) (depth : Nat) (text : String) : String := style.pad depth ++ text

/-- Each line with a line feed behind it. -/
def unlines : List String → String
  | [] => ""
  | l :: rest => l ++ "\n" ++ unlines rest

end Rehearsal.Source
