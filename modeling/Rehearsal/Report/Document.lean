import Rehearsal.Json.Decode
/-!
# The runner's document

The runner writes what it did as a JSON document: groups of cases within groups, for each
case the attempts that were made.

* `Report`, `Group`, `Spec`, `Attempt`: the parts that are read. All but the title and the
  verdict of a case may be left out.
* `Spec.attempts`: all attempts, over all runner projects, in order.
-/

namespace Rehearsal

namespace Report

/-- An error as it is reported. -/
structure Failure where
  message : Option String
deriving DecidableEq, Repr

/-- A file that belongs to a case. -/
structure Attachment where
  name : String
  path : Option String
  contentType : Option String
deriving DecidableEq, Repr

/-- One attempt at a case. -/
structure Attempt where
  status : Option String
  duration : Option Binary64
  error : Option Failure
  errors : List Failure
  attachments : List Attachment
  stdout : List String
  stderr : List String
deriving DecidableEq, Repr

/-- One case. The text of an output chunk stands for the chunk. -/
structure Spec where
  title : String
  ok : Bool
  id : Option String
  duration : Option Binary64
  error : Option Failure
  attachments : List Attachment
  video : Option String
  stdout : List String
  stderr : List String
  /-- The attempts of each runner project. -/
  tests : List (List Attempt)
deriving DecidableEq, Repr

/-- A group of cases and of groups. -/
inductive Group where
  | mk (title : String) (specs : List Spec) (groups : List Group)

/-- All attempts at a case. -/
def Spec.attempts (s : Spec) : List Attempt := s.tests.flatten

namespace Failure

def reader : Json.Reader Failure := fun room n => do
  let es ← Json.Entries.read ["message"] room n
  return { message := ← es.optional "message" Json.Reader.string }

end Failure

namespace Attachment

def reader : Json.Reader Attachment := fun room n => do
  let es ← Json.Entries.read ["name", "path", "contentType"] room n
  return {
    name := ← es.defaulted "name" "" Json.Reader.string
    path := ← es.optional "path" Json.Reader.string
    contentType := ← es.optional "contentType" Json.Reader.string }

end Attachment

/-- The text of an output chunk: a string, or the member `text` of an object. Any other
chunk has no text. -/
def chunkText : Json.Node → String
  | .str (some s) => s
  | .obj members =>
    match members.find? fun m => m.1 == some "text" with
    | some (_, .str (some s)) => s
    | _ => ""
  | _ => ""

/-- Output chunks by their texts. -/
def chunk : Json.Reader String := fun _ n => some (chunkText n)

namespace Attempt

def reader : Json.Reader Attempt := fun room n => do
  let es ← Json.Entries.read ["status", "duration", "error", "errors", "attachments",
    "stdout", "stderr"] room n
  return {
    status := ← es.optional "status" Json.Reader.string
    duration := ← es.optional "duration" Json.Reader.real
    error := ← es.optional "error" Failure.reader
    errors := ← es.defaulted "errors" [] (Json.Reader.list Failure.reader)
    attachments := ← es.defaulted "attachments" [] (Json.Reader.list Attachment.reader)
    stdout := ← es.defaulted "stdout" [] (Json.Reader.list chunk)
    stderr := ← es.defaulted "stderr" [] (Json.Reader.list chunk) }

/-- The attempts of one runner project. -/
def listReader : Json.Reader (List Attempt) := fun room n => do
  let es ← Json.Entries.read ["results"] room n
  es.defaulted "results" [] (Json.Reader.list reader)

end Attempt

namespace Spec

def reader : Json.Reader Spec := fun room n => do
  let es ← Json.Entries.read ["title", "ok", "id", "duration", "error", "attachments", "video",
    "stdout", "stderr", "tests"] room n
  return {
    title := ← es.required "title" Json.Reader.string
    ok := ← es.required "ok" Json.Reader.bool
    id := ← es.optional "id" Json.Reader.string
    duration := ← es.optional "duration" Json.Reader.real
    error := ← es.optional "error" Failure.reader
    attachments := ← es.defaulted "attachments" [] (Json.Reader.list Attachment.reader)
    video := ← es.optional "video" Json.Reader.string
    stdout := ← es.defaulted "stdout" [] (Json.Reader.list chunk)
    stderr := ← es.defaulted "stderr" [] (Json.Reader.list chunk)
    tests := ← es.defaulted "tests" [] (Json.Reader.list Attempt.listReader) }

end Spec

namespace Group

def title : Group → String
  | .mk t _ _ => t

def specs : Group → List Spec
  | .mk _ s _ => s

def groups : Group → List Group
  | .mk _ _ g => g

/-- Reads a group that is nested at most so deep. -/
def readerAt : Nat → Json.Reader Group
  | 0 => fun _ _ => none
  | depth + 1 => fun room n => do
    let es ← Json.Entries.read ["title", "specs", "suites"] room n
    let title ← es.defaulted "title" "" Json.Reader.string
    let specs ← es.defaulted "specs" [] (Json.Reader.list Spec.reader)
    let groups ← es.defaulted "suites" [] (Json.Reader.list (readerAt depth))
    return .mk title specs groups

/-- A group; a document cannot nest groups deeper than anything else. -/
def reader : Json.Reader Group := readerAt Json.maxDepth

end Group

end Report

/-- What the runner wrote. -/
structure Report where
  groups : List Report.Group

namespace Report

def reader : Json.Reader Report := fun room n => do
  let es ← Json.Entries.read ["suites"] room n
  return { groups := ← es.defaulted "suites" [] (Json.Reader.list Group.reader) }

end Report

end Rehearsal
