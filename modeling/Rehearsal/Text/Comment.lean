import Rehearsal.Text.Blank
/-!
# Text inside comments

Free text may stand in a line comment once it is on one line, and in a documentation
comment once it holds no end mark either.

* `docComment`: a star before a slash gets a backslash between the two. The slash that
  follows a backslash can close nothing, so the result holds **no end mark**, whatever
  runs of stars and slashes the text holds.
-/

namespace Rehearsal.Text

/-- A backslash between each star and the slash right after it. -/
def guardEndMark : List Char → List Char
  | '*' :: '/' :: rest => '*' :: '\\' :: '/' :: guardEndMark rest
  | c :: rest => c :: guardEndMark rest
  | [] => []

/-- Text that may stand in a documentation comment. -/
def docComment (s : String) : String :=
  String.ofList (guardEndMark (singleLine s).toList)

end Rehearsal.Text
