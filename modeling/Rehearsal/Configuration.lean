import Rehearsal.Error
import Rehearsal.Text.Lower
import Rehearsal.Json.Printer
/-!
# Configuration of the runner

Settings for a generated project: defaults, overlaid by one bag of untyped settings after
another.

* `Configuration.overlay`: takes the recognised keys of a bag in the order of their names;
  **every recognised key is checked**, also one that a later bag replaces, and an
  unrecognised key has no influence.
* `Configuration.merged`: the defaults under all bags; the last bag that has a key decides.
-/

namespace Rehearsal

/-- The browsers that can be driven. -/
inductive Browser where
  | chromium
  | firefox
  | webkit
deriving DecidableEq, Repr, Inhabited

namespace Browser

def name : Browser → String
  | .chromium => "chromium"
  | .firefox => "firefox"
  | .webkit => "webkit"

/-- The browser of exactly that name. -/
def ofName? (s : String) : Option Browser :=
  if s = "chromium" then some .chromium
  else if s = "firefox" then some .firefox
  else if s = "webkit" then some .webkit
  else none

/-- The browser of a name in any case. -/
def parse? (s : String) : Option Browser := ofName? (Text.lower s)

def reader : Json.Reader Browser := Json.Reader.enumerated ofName?

def toValue (b : Browser) : Json.Value := .str b.name

end Browser

/-- The size of the visible part of a page. -/
structure Viewport where
  width : Nat
  height : Nat
deriving DecidableEq, Repr

def Viewport.reader : Json.Reader Viewport := fun room n => do
  let es ← Json.Entries.read ["width", "height"] room n
  return {
    width := ← es.required "width" Json.Reader.word32
    height := ← es.required "height" Json.Reader.word32 }

def Viewport.toValue (v : Viewport) : Json.Value :=
  Json.record [("width", some (.num (.int v.width))), ("height", some (.num (.int v.height)))]

/-- When pictures of the page are taken. -/
inductive Screenshots where
  | off
  | on
  | onlyOnFailure
deriving DecidableEq, Repr

def Screenshots.name : Screenshots → String
  | .off => "off"
  | .on => "on"
  | .onlyOnFailure => "only-on-failure"

def Screenshots.parse? (s : String) : Option Screenshots :=
  if s = "off" then some .off
  else if s = "on" then some .on
  else if s = "only-on-failure" then some .onlyOnFailure
  else none

/-- A reporter of the runner with its options. -/
structure Reporter where
  name : String
  options : Json.Bag

namespace Reporter

/-- A reporter is written as its name, or as a list of its name and its options. -/
def ofValue : Json.Value → Except Error Reporter
  | .str name => .ok ⟨name, []⟩
  | .arr (.str name :: []) => .ok ⟨name, []⟩
  | .arr (.str name :: .obj options :: _) => .ok ⟨name, options⟩
  | .arr (.str name :: _) => .error (.badReporterOptions name)
  | .arr _ => .error .unnamedReporter
  | v => .error (.badReporter v.compact)

/-- Reporters in order; the first fault decides. -/
def ofValues : List Json.Value → Except Error (List Reporter)
  | [] => .ok []
  | v :: rest => do
    let r ← ofValue v
    let rs ← ofValues rest
    return r :: rs

def toValue (r : Reporter) : Json.Value :=
  Json.record [("name", some (.str r.name)), ("options", some (.obj r.options))]

end Reporter

/-- Settings for a generated project. -/
structure Configuration where
  /-- Milliseconds for one test. -/
  timeout : Nat
  retries : Nat
  headless : Bool
  viewport : Viewport
  screenshots : Screenshots
  reporters : List Reporter
  /-- One project of the runner for each. -/
  browsers : List Browser
  workers : Option Nat

namespace Configuration

/-- What holds when nothing is set. -/
def default : Configuration where
  timeout := 30000
  retries := 2
  headless := true
  viewport := ⟨1280, 720⟩
  screenshots := .onlyOnFailure
  reporters := [⟨"html", []⟩, ⟨"json", [("outputFile", .str "test-results.json")]⟩]
  browsers := [.chromium]
  workers := none

/-- A natural number. -/
def natural (key : String) : Json.Value → Except Error Nat
  | .num (.int n) =>
    if 0 ≤ n then .ok n.toNat else .error (.illTyped key "a non-negative integer")
  | _ => .error (.illTyped key "a non-negative integer")

/-- A natural number of 32 bits. -/
def natural32 (key : String) (v : Json.Value) : Except Error Nat := do
  let n ← natural key v
  if n < 0x100000000 then .ok n else .error (.illTyped key "a 32-bit integer")

def truth (key : String) : Json.Value → Except Error Bool
  | .bool b => .ok b
  | _ => .error (.illTyped key "a boolean")

def viewportOf (key : String) (v : Json.Value) : Except Error Viewport :=
  match v.decode Viewport.reader with
  | some p => .ok p
  | none => .error (.illTyped key "\x7bwidth, height\x7d")

def screenshotsOf (key : String) : Json.Value → Except Error Screenshots
  | .str s =>
    match Screenshots.parse? s with
    | some m => .ok m
    | none => .error (.illTyped key "off, on or only-on-failure")
  | _ => .error (.illTyped key "off, on or only-on-failure")

def reportersOf (key : String) : Json.Value → Except Error (List Reporter)
  | .arr items => Reporter.ofValues items
  | _ => .error (.illTyped key "a list of reporters")

def browsersOf (key : String) (v : Json.Value) : Except Error (List Browser) :=
  match v.decode (Json.Reader.list Browser.reader) with
  | none => .error (.illTyped key "a list of chromium, firefox or webkit")
  | some [] => .error (.illTyped key "a non-empty list")
  | some bs => .ok bs

/-- Takes one setting, if its key is recognised. -/
def set (c : Configuration) (key : String) (v : Json.Value) : Except Error Configuration :=
  if key = "timeout" then (natural key v).map fun x => { c with timeout := x }
  else if key = "retries" then (natural32 key v).map fun x => { c with retries := x }
  else if key = "headless" then (truth key v).map fun x => { c with headless := x }
  else if key = "viewport" then (viewportOf key v).map fun x => { c with viewport := x }
  else if key = "screenshot" then
    (screenshotsOf key v).map fun x => { c with screenshots := x }
  else if key = "reporter" then (reportersOf key v).map fun x => { c with reporters := x }
  else if key = "browsers" then (browsersOf key v).map fun x => { c with browsers := x }
  else if key = "workers" then (natural32 key v).map fun x => { c with workers := some x }
  else .ok c

/-- Takes the settings of a bag in order; the first fault decides. -/
def overlay (c : Configuration) : Json.Bag → Except Error Configuration
  | [] => .ok c
  | (key, v) :: rest => do
    let c ← c.set key v
    c.overlay rest

/-- Takes one bag after the other. -/
def overlayAll (c : Configuration) : List Json.Bag → Except Error Configuration
  | [] => .ok c
  | bag :: rest => do
    let c ← c.overlay bag
    c.overlayAll rest

/-- The defaults under all bags. -/
def merged (bags : List Json.Bag) : Except Error Configuration := default.overlayAll bags

def toValue (c : Configuration) : Json.Value :=
  Json.record [
    ("timeout", some (.num (.int c.timeout))),
    ("retries", some (.num (.int c.retries))),
    ("headless", some (.bool c.headless)),
    ("viewport", some c.viewport.toValue),
    ("screenshot", some (.str c.screenshots.name)),
    ("reporter", some (.arr (c.reporters.map Reporter.toValue))),
    ("browsers", some (.arr (c.browsers.map Browser.toValue))),
    ("workers", c.workers.map fun n => .num (.int n))]

end Configuration

end Rehearsal
