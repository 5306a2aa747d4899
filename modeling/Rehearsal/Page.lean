import Rehearsal.Selector
import Rehearsal.Libraries
import Rehearsal.Text.Blank
/-!
# Pages

A page of the application under test: its address, its named elements, and what to wait for
before it counts as loaded.

* `WaitCondition.state`: a condition is one of four words, for three states of an element.
* `Page.checkPattern`: an address pattern is a web address in which a star stands for anything, or
  begins with a star. With its stars written out it must be a regular expression.
* `Page.validate`: a name that is not blank, a usable address pattern, selectors with a name
  and a value, known conditions. The checks come in this order; **the first fault decides**.
-/

namespace Rehearsal

/-- What to wait for on a page. -/
structure WaitCondition where
  selector : String
  condition : String
  /-- Seconds. -/
  timeout : Nat
deriving DecidableEq, Repr

namespace WaitCondition

/-- Seconds to wait when nothing else is said. -/
def defaultTimeout : Nat := 30

/-- The state of the element that the condition asks for. -/
def state (w : WaitCondition) : Except Error String :=
  if w.condition = "visible" || w.condition = "clickable" then .ok "visible"
  else if w.condition = "present" then .ok "attached"
  else if w.condition = "hidden" then .ok "hidden"
  else .error (.unknownCondition w.condition w.selector)

def reader : Json.Reader WaitCondition := fun room n => do
  let es ← Json.Entries.read ["selector", "condition", "timeout"] room n
  return {
    selector := ← es.required "selector" Json.Reader.string
    condition := ← es.required "condition" Json.Reader.string
    timeout := ← es.defaulted "timeout" defaultTimeout Json.Reader.word32 }

def toValue (w : WaitCondition) : Json.Value :=
  Json.record [
    ("selector", some (.str w.selector)),
    ("condition", some (.str w.condition)),
    ("timeout", some (.num (.int w.timeout)))]

end WaitCondition

/-- A page of the application under test. -/
structure Page where
  id : Uuid
  name : String
  urlPattern : String
  description : Option String
  selectors : SelectorMap
  /-- Checked in this order. -/
  waitConditions : List WaitCondition
  iframeSelector : Option String

namespace Page

/-- A pattern begins with the scheme of a web address or with a star. -/
def hasScheme (pattern : String) : Bool :=
  pattern.startsWith "http://" || pattern.startsWith "https://" || pattern.startsWith "*"

/-- A pattern with an expression for any text in place of each star. -/
def expandStars (pattern : String) : String :=
  String.ofList (pattern.toList.flatMap fun c => if c = '*' then ['.', '*'] else [c])

/-- A pattern has the right beginning and is usable. -/
def checkPattern [Libraries] (pattern : String) : Except Error Unit :=
  if !hasScheme pattern then .error (.badScheme pattern)
  else match Libraries.patternFault (expandStars pattern) with
    | some detail => .error (.badPattern pattern detail)
    | none => .ok ()

/-- Selectors have a name and a value. -/
def checkSelectors (page : String) : List (String × Selector) → Except Error Unit
  | [] => .ok ()
  | (name, s) :: rest =>
    if name = "" then .error (.unnamedSelector page)
    else if s.value = "" then .error (.emptySelector name page)
    else checkSelectors page rest

/-- Conditions are known. -/
def checkConditions : List WaitCondition → Except Error Unit
  | [] => .ok ()
  | w :: rest => do
    let _ ← w.state
    checkConditions rest

/-- Whether a name has anything but blanks. -/
def isBlankName (name : String) : Bool := name.toList.all Text.isBlank

/-- What a page must satisfy before anything is made from it. -/
def validate [Libraries] (p : Page) : Except Error Unit :=
  if isBlankName p.name then .error .blankPageName
  else do
    checkPattern p.urlPattern
    checkSelectors p.name p.selectors.entries
    checkConditions p.waitConditions

def reader : Json.Reader Page := fun room n => do
  let es ← Json.Entries.read ["id", "name", "url_pattern", "description", "selectors",
    "wait_conditions", "iframe_selector"] room n
  return {
    id := ← es.required "id" Uuid.reader
    name := ← es.required "name" Json.Reader.string
    urlPattern := ← es.required "url_pattern" Json.Reader.string
    description := ← es.optional "description" Json.Reader.string
    selectors := ← es.defaulted "selectors" SelectorMap.empty SelectorMap.reader
    waitConditions := ← es.defaulted "wait_conditions" [] (Json.Reader.list WaitCondition.reader)
    iframeSelector := ← es.optional "iframe_selector" Json.Reader.string }

def toValue (p : Page) : Json.Value :=
  Json.record [
    ("id", some p.id.toValue),
    ("name", some (.str p.name)),
    ("url_pattern", some (.str p.urlPattern)),
    ("description", p.description.map .str),
    ("selectors", some p.selectors.toValue),
    ("wait_conditions",
      if p.waitConditions.isEmpty then none
      else some (.arr (p.waitConditions.map WaitCondition.toValue))),
    ("iframe_selector", p.iframeSelector.map .str)]

/-- A page without selectors. -/
def make (id : Uuid) (name urlPattern : String) : Page :=
  ⟨id, name, urlPattern, none, SelectorMap.empty, [], none⟩

end Page

end Rehearsal
