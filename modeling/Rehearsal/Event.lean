import Rehearsal.Report.Result
/-!
# Events

What becomes known about an execution as it happens.

* `Event`: an execution was created, it changed its state, or its results are stored.
* `Event.reader`: an event is written as a type and a payload, in either order, or as an array
  of the two.
* `Message`: an event with the time at which it was sent; both are written into one object.
-/

namespace Rehearsal

/-- What happened to an execution. -/
inductive Event where
  | created (execution project : Uuid) (suite : Option Uuid) (browser : String)
      (createdAt : Instant)
  | updated (execution : Uuid) (status : Status) (errorMessage : Option String)
  | resultsAvailable (execution : Uuid) (passed failed total : Nat)
deriving DecidableEq

namespace Event

/-- The event that an execution was created. -/
def ofExecution (e : Execution) : Event :=
  .created e.id e.project e.suite e.browser.name e.createdAt

/-- The execution that the event is about. -/
def execution : Event → Uuid
  | .created e _ _ _ _ => e
  | .updated e _ _ => e
  | .resultsAvailable e _ _ _ => e

def createdReader : Json.Reader Event := fun room n => do
  let es ← Json.Entries.read ["execution_id", "project_id", "test_suite_id", "browser_type",
    "created_at"] room n
  let execution ← es.required "execution_id" Uuid.reader
  let project ← es.required "project_id" Uuid.reader
  let suite ← es.nullable "test_suite_id" Uuid.reader
  let browser ← es.required "browser_type" Json.Reader.string
  let createdAt ← es.required "created_at" Instant.reader
  return .created execution project suite browser createdAt

def updatedReader : Json.Reader Event := fun room n => do
  let es ← Json.Entries.read ["execution_id", "status", "error_message"] room n
  let execution ← es.required "execution_id" Uuid.reader
  let status ← es.required "status" Status.reader
  let errorMessage ← es.nullable "error_message" Json.Reader.string
  return .updated execution status errorMessage

def resultsReader : Json.Reader Event := fun room n => do
  let es ← Json.Entries.read ["execution_id", "passed", "failed", "total"] room n
  let execution ← es.required "execution_id" Uuid.reader
  let passed ← es.required "passed" Json.Reader.word32
  let failed ← es.required "failed" Json.Reader.word32
  let total ← es.required "total" Json.Reader.word32
  return .resultsAvailable execution passed failed total

/-- How the payload of an event of that type is read. -/
def payloadReader? (type : String) : Option (Json.Reader Event) :=
  if type = "execution_created" then some createdReader
  else if type = "execution_updated" then some updatedReader
  else if type = "results_available" then some resultsReader
  else none

/-- Reads a type and a payload from the fields of a record. -/
def ofEntries (es : Json.Entries) : Option Event := do
  let read ← es.required "type" (Json.Reader.enumerated payloadReader?)
  es.required "payload" read

/-- The names of the two fields. -/
def fieldNames : List String := ["type", "payload"]

/-- A payload that comes before its type is kept until the type is known, so all of it must
have a value. -/
def payloadKeeps (es : Json.Entries) : Bool :=
  match es.fields with
  | ("payload", n) :: _ => (n.value? es.room).isSome
  | _ => true

def reader : Json.Reader Event := fun room n => do
  let es ← Json.Entries.read fieldNames room n
  if payloadKeeps es then ofEntries es else none

def typeName : Event → String
  | .created .. => "execution_created"
  | .updated .. => "execution_updated"
  | .resultsAvailable .. => "results_available"

def payload : Event → Json.Value
  | .created execution project suite browser createdAt =>
    Json.record [
      ("execution_id", some execution.toValue),
      ("project_id", some project.toValue),
      ("test_suite_id", suite.map Uuid.toValue),
      ("browser_type", some (.str browser)),
      ("created_at", some createdAt.toValue)]
  | .updated execution status errorMessage =>
    Json.record [
      ("execution_id", some execution.toValue),
      ("status", some status.toValue),
      ("error_message", errorMessage.map .str)]
  | .resultsAvailable execution passed failed total =>
    Json.record [
      ("execution_id", some execution.toValue),
      ("passed", some (.num (.int passed))),
      ("failed", some (.num (.int failed))),
      ("total", some (.num (.int total)))]

/-- The two members of a written event. -/
def fields (e : Event) : List Json.Field :=
  [("type", some (.str e.typeName)), ("payload", some e.payload)]

def toValue (e : Event) : Json.Value := Json.record e.fields

end Event

/-- An event with the time at which it was sent. -/
structure Message where
  event : Event
  timestamp : Instant
deriving DecidableEq

namespace Message

/-- Every member but the timestamp is kept until the whole object is known, so all of them
must have a value. -/
def membersKeep (room : Nat) (members : List (Option String × Json.Node)) : Bool :=
  members.all fun m => m.1 == some "timestamp" || (m.2.value? room).isSome

def reader : Json.Reader Message
  | room + 1, .obj members => do
    let es ← Json.Entries.read ("timestamp" :: Event.fieldNames) (room + 1) (.obj members)
    if membersKeep room members then
      return {
        event := ← Event.ofEntries es
        timestamp := ← es.required "timestamp" Instant.reader }
    else none
  | _, _ => none

def toValue (m : Message) : Json.Value :=
  Json.record (m.event.fields ++ [("timestamp", some m.timestamp.toValue)])

end Message

end Rehearsal
