import Rehearsal.Error
/-!
# Steps

A step is one action in a browser on one element. It is stored with an open choice of words
and checked once; after that its action is one of six.

* `StoredStep`: a step as it is stored.
* `Action`, `Step`: a step that was checked. An action that needs a value has one, and it is
  **not empty**.
* `StoredStep.check`: an action outside the six is reported whatever else is wrong, then a
  missing value, then a missing selector.
* `Step.compile`: the line of code for a step; `StoredStep.compile` checks the step first.
-/

namespace Rehearsal

/-- A step as it is stored. -/
structure StoredStep where
  action : String
  selector : String
  value : Option String
  description : Option String
  /-- The page whose selectors may be meant by name. -/
  page : Option Uuid
deriving DecidableEq, Repr

/-- One of the six things a step can do. -/
inductive Action where
  | click
  | type (value : String)
  | select (value : String)
  | hover
  | wait
  | assert
deriving DecidableEq, Repr

/-- A step that was checked. -/
structure Step where
  action : Action
  selector : String
  description : Option String
  page : Option Uuid
deriving DecidableEq, Repr

/-- The name of an action. -/
def Action.name : Action → String
  | .click => "click"
  | .type _ => "type"
  | .select _ => "select"
  | .hover => "hover"
  | .wait => "wait"
  | .assert => "assert"

namespace StoredStep

/-- A value that is there and not empty. -/
def givenValue? (s : StoredStep) : Option String :=
  match s.value with
  | some v => if v = "" then none else some v
  | none => none

/-- The action that a stored step names. -/
def action? (s : StoredStep) : Except Error Action :=
  if s.action = "click" then .ok .click
  else if s.action = "type" then
    match s.givenValue? with
    | some v => .ok (.type v)
    | none => .error (.missingText s.selector)
  else if s.action = "select" then
    match s.givenValue? with
    | some v => .ok (.select v)
    | none => .error (.missingOption s.selector)
  else if s.action = "hover" then .ok .hover
  else if s.action = "wait" then .ok .wait
  else if s.action = "assert" then .ok .assert
  else .error (.unknownAction s.action)

/-- Checks a stored step. -/
def check (s : StoredStep) : Except Error Step := do
  let action ← s.action?
  if s.selector = "" then .error (.missingSelector s.action)
  else .ok ⟨action, s.selector, s.description, s.page⟩

/-- Checks steps in order; the first fault decides. -/
def checkAll : List StoredStep → Except Error (List Step)
  | [] => .ok []
  | s :: rest => do
    let step ← s.check
    let steps ← checkAll rest
    return step :: steps

def reader : Json.Reader StoredStep := fun room n => do
  let es ← Json.Entries.read ["action", "selector", "value", "description", "page_id"] room n
  return {
    action := ← es.required "action" Json.Reader.string
    selector := ← es.required "selector" Json.Reader.string
    value := ← es.optional "value" Json.Reader.string
    description := ← es.optional "description" Json.Reader.string
    page := ← es.optional "page_id" Uuid.reader }

def toValue (s : StoredStep) : Json.Value :=
  Json.record [
    ("action", some (.str s.action)),
    ("selector", some (.str s.selector)),
    ("value", s.value.map .str),
    ("description", s.description.map .str),
    ("page_id", s.page.map Uuid.toValue)]

/-- A step with nothing but an action and a selector. -/
def make (action selector : String) : StoredStep := ⟨action, selector, none, none, none⟩

end StoredStep

namespace Step

/-- The line of code for a step: a call with quoted arguments. -/
def compile (s : Step) : String :=
  let target := Text.quote s.selector
  match s.action with
  | .click => "await page.click(" ++ target ++ ");"
  | .type v => "await page.fill(" ++ target ++ ", " ++ Text.quote v ++ ");"
  | .select v => "await page.selectOption(" ++ target ++ ", " ++ Text.quote v ++ ");"
  | .hover => "await page.hover(" ++ target ++ ");"
  | .wait => "await page.waitForSelector(" ++ target ++ ");"
  | .assert => "expect(await page.isVisible(" ++ target ++ ")).toBeTruthy();"

end Step

/-- The line of code for a stored step, if nothing is wrong with it. -/
def StoredStep.compile (s : StoredStep) : Except Error String := s.check.map Step.compile

end Rehearsal
