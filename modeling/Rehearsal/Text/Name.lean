import Rehearsal.Text.Blank
/-!
# Names for generated artifacts

Free text becomes the name of a class, of a member and of a file. Only ASCII letters and
digits (and, in file names, the underscore) survive; what happens to the rest is the
whole difference between the three.

* `className`: the maximal runs of letters and digits, each with an upper-case start,
  put together. **Empty exactly when** the text has no ASCII letter or digit.
* `accessorName`: the class name with a lower-case start, behind `_` if it would begin
  with a digit. It forgets nothing more: it **determines the class name**.
* `fileStem`: a run of blanks becomes one underscore; symbols vanish without ending the
  run, so `a - b` becomes `a_b`.
-/

namespace Rehearsal.Text

/-- An ASCII letter or digit. -/
def isAlnum (c : Char) : Bool := c.isAlphanum

/-- Letters and digits, upper-cased at the start of each run. -/
def classNameFrom (atStart : Bool) : List Char → List Char
  | [] => []
  | c :: rest =>
    if isAlnum c then
      (if atStart then c.toUpper else c) :: classNameFrom false rest
    else classNameFrom true rest

/-- The name of a class for the given text. -/
def className (s : String) : String := String.ofList (classNameFrom true s.toList)

/-- A lower-case start, and an underscore in front of a digit. -/
def asMember : List Char → List Char
  | [] => []
  | c :: rest => if c.isDigit then '_' :: c :: rest else c.toLower :: rest

/-- The name of a class member for the given text. -/
def accessorName (s : String) : String :=
  String.ofList (asMember (classNameFrom true s.toList))

/-- Lower-case letters, digits and underscores. `gap` tells whether the last thing written
was the underscore of a run of blanks. -/
def fileStemFrom (gap : Bool) : List Char → List Char
  | [] => []
  | c :: rest =>
    if isBlank c then
      if gap then fileStemFrom true rest else '_' :: fileStemFrom true rest
    else if isAlnum c || c == '_' then c.toLower :: fileStemFrom false rest
    else fileStemFrom gap rest

/-- The stem of a file name for the given text. -/
def fileStem (s : String) : String := String.ofList (fileStemFrom false s.toList)

/-- A stem is usable when it holds a letter or a digit. -/
def hasAlnum (s : String) : Bool := s.toList.any isAlnum

end Rehearsal.Text
