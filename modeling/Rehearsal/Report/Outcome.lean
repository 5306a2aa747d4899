import Rehearsal.Report.Document
import Rehearsal.Error
import Rehearsal.Libraries
import Rehearsal.Text.Blank
/-!
# Outcomes of cases

Each case of the runner's document becomes one outcome. What a case says about itself comes
first; what is missing there is taken from its last attempt.

* `Outcome.ofSpec`: the rules, field by field.
* `Report.outcomes`: **one outcome for each case**, group by group: a group's own cases, then
  those of its groups, each with the titles of the groups around it, outermost first.
* `ParsedRun.parse`: reads the document out of the runner's output. Blanks around it do not
  matter.
-/

namespace Rehearsal

/-- How a case came out. -/
inductive Verdict where
  | passed
  | failed
  | skipped
deriving DecidableEq, Repr, Inhabited

namespace Verdict

def name : Verdict → String
  | .passed => "passed"
  | .failed => "failed"
  | .skipped => "skipped"

def parse? (s : String) : Option Verdict :=
  if s = "passed" then some .passed
  else if s = "failed" then some .failed
  else if s = "skipped" then some .skipped
  else none

end Verdict

/-- The outcome of one case. -/
structure Outcome where
  /-- The titles of the groups around the case, outermost first. -/
  path : List String
  title : String
  verdict : Verdict
  /-- Milliseconds. -/
  duration : Option Int
  errorMessage : Option String
  screenshot : Option String
  video : Option String
  logs : Option String
deriving DecidableEq, Repr

namespace Report

/-- A case was skipped if it was attempted and every attempt was skipped. -/
def allSkipped (attempts : List Attempt) : Bool :=
  !attempts.isEmpty && attempts.all fun a => a.status == some "skipped"

def verdictOf (s : Spec) : Verdict :=
  if !s.ok then .failed else if allSkipped s.attempts then .skipped else .passed

/-- A number of 64 bits with a sign; what lies outside becomes the nearest one inside. -/
def clampInt64 (n : Int) : Int := max (-0x8000000000000000) (min n 0x7FFFFFFFFFFFFFFF)

/-- Whole milliseconds, a half rounded away from zero. -/
def wholeMilliseconds (x : Binary64) : Int := clampInt64 x.roundToInt

def durationOf (s : Spec) : Option Int :=
  (s.duration <|> s.attempts.getLast?.bind Attempt.duration).map wholeMilliseconds

/-- The first message of an attempt. -/
def attemptMessage (a : Attempt) : Option String :=
  (a.error.toList ++ a.errors).findSome? Failure.message

/-- A case that passed has no message, whatever its parts say. -/
def messageOf (s : Spec) : Option String :=
  if s.ok then none
  else s.error.bind Failure.message <|> s.attempts.getLast?.bind attemptMessage

/-- A picture, by its name or by its kind. -/
def isScreenshot (a : Attachment) : Bool :=
  a.name == "screenshot"
    || (match a.contentType with
        | some t => t.startsWith "image/"
        | none => false)

def screenshotOf (s : Spec) : Option String :=
  s.attachments.findSome? Attachment.path
    <|> s.attempts.getLast?.bind fun a =>
      (a.attachments.filter isScreenshot).findSome? Attachment.path

def videoOf (s : Spec) : Option String :=
  s.video
    <|> s.attempts.getLast?.bind fun a =>
      (a.attachments.filter fun x => x.name == "video").findSome? Attachment.path

/-- The output chunks that count, in order. -/
def outputOf (s : Spec) : List String :=
  if s.stdout.isEmpty && s.stderr.isEmpty then
    match s.attempts.getLast? with
    | some a => a.stdout ++ a.stderr
    | none => []
  else s.stdout ++ s.stderr

def logsOf (s : Spec) : Option String :=
  let text := String.join (outputOf s)
  if text.isEmpty then none else some text

end Report

/-- The outcome of a case below groups of the given titles. -/
def Outcome.ofSpec (path : List String) (s : Report.Spec) : Outcome where
  path := path
  title := s.title
  verdict := Report.verdictOf s
  duration := Report.durationOf s
  errorMessage := Report.messageOf s
  screenshot := Report.screenshotOf s
  video := Report.videoOf s
  logs := Report.logsOf s

namespace Report

/-- A walk through groups: the titles of the open groups, innermost first, and the outcomes
so far, last first. -/
structure Walk where
  opened : List String
  found : List Outcome

/-- The case at hand is added. -/
def Walk.visit (w : Walk) (s : Spec) : Walk :=
  { w with found := Outcome.ofSpec w.opened.reverse s :: w.found }

mutual

/-- Opens a group, visits its cases and its groups, and closes it. -/
def Walk.group (w : Walk) : Group → Walk
  | .mk title specs groups =>
    let w := { w with opened := title :: w.opened }
    let w := specs.foldl Walk.visit w
    let w := Walk.groups w groups
    { w with opened := w.opened.drop 1 }

/-- Goes through groups in order. -/
def Walk.groups (w : Walk) : List Group → Walk
  | [] => w
  | g :: rest => Walk.groups (Walk.group w g) rest

end

/-- The outcomes of all cases. -/
def outcomes (r : Report) : List Outcome := (Walk.groups ⟨[], []⟩ r.groups).found.reverse

end Report

/-- A runner's document with the outcomes found in it. -/
structure ParsedRun where
  /-- The document as the runner wrote it. -/
  document : Json.Value
  outcomes : List Outcome

namespace ParsedRun

/-- Reads the runner's output. -/
def parse [Libraries] (output : String) : Except Error ParsedRun :=
  match Json.Value.parse (Text.trim output) with
  | none => .error (.outputNotJson (Libraries.jsonFault (Text.trim output)))
  | some v =>
    match v.decode Report.reader with
    | none => .error (.outputNotReport (Libraries.reportFault v))
    | some r => .ok ⟨v, r.outcomes⟩

/-- How many outcomes have a verdict. -/
def count (v : Verdict) (r : ParsedRun) : Nat := r.outcomes.countP fun o => o.verdict == v

def passed (r : ParsedRun) : Nat := r.count .passed

def failed (r : ParsedRun) : Nat := r.count .failed

end ParsedRun

end Rehearsal
