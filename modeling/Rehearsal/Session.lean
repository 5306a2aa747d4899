import Rehearsal.World
import Rehearsal.Run
/-!
# Sessions with a scripted runner

A session carries out calls in a world whose runner follows a script instead of driving a
browser.

* `Script.reply?`: what the script replies as soon as it is spawned, if it replies at all.
* `Session.run`: a run in the foreground. A runner that would wait for ever is out of time.
* `Session.submit`, `release`, `join`: a run in the background, which goes on when it is
  joined.
-/

namespace Rehearsal

open Runner (Job Reply Token)

/-- What a scripted runner does when it is spawned. -/
inductive Script where
  /-- Ends at once. -/
  | exit (output : Runner.Output)
  /-- Ends when it is released, whether its token has fired or not. -/
  | gate (output : Runner.Output)
  /-- Never ends. -/
  | hang
  /-- Ends when its token fires. -/
  | hangUntilCancelled
  /-- Cannot be started. -/
  | refuse (message : String)
deriving DecidableEq, Repr

/-- The reply of a script that has one, given whether it is released and its token has
fired. -/
def Script.reply? (released cancelled : Bool) : Script → Option Reply
  | exit o => some (.ended (.finished o))
  | gate o => if released then some (.ended (.finished o)) else none
  | hang => none
  | hangUntilCancelled => if cancelled then some (.ended .cancelled) else none
  | refuse message => some (.refused (.runner message))

/-- What the runner saw when it was spawned. -/
structure Sighting where
  job : Job
  /-- Whether what it was told to run exists. -/
  testPresent : Bool
  /-- Everything in its working directory. -/
  files : List String
  /-- Its configuration. -/
  configuration : Option String
  cancelled : Bool

/-- A run that waits for its runner. -/
structure Pending where
  execution : Uuid
  script : Script
  token : Token
  released : Bool
  next : Reply → Procedure (Except Error Execution)

/-- A run in the background. -/
inductive Background where
  | ended (execution : Uuid)
  | pending (run : Pending)

/-- The execution of a run in the background. -/
def Background.execution : Background → Uuid
  | ended id => id
  | pending p => p.execution

/-- A world, how runs are carried out in it, and what the runner does and saw. -/
structure Session where
  world : World
  settings : RunSettings
  script : Script
  /-- A suite that changes as soon as the runner is spawned. -/
  edit : Option Suite
  /-- Whether the next runner that comes to a gate may pass. -/
  permit : Bool
  sightings : List Sighting
  background : List Background

namespace Session

/-- A runner that succeeds with an empty report. -/
def initialScript : Script := .exit ⟨some 0, "\x7b\x7d", ""⟩

/-- Nothing has happened. -/
def begin (world : World) (settings : RunSettings) : Session where
  world := world
  settings := settings
  script := initialScript
  edit := none
  permit := false
  sightings := []
  background := []

/-- The result of a call that has no job for the runner. -/
def call {α : Type} (s : Session) (c : Call α) : Session × Option (Except Error α) :=
  ({ s with world := (s.world.result? c).1 }, (s.world.result? c).2)

/-! ## Spawning -/

/-- Everything below a path. -/
def filesBelow (t : FileTree) (p : Path) : List String :=
  match t.place p.segments with
  | .ok place => t.listing place
  | .error _ => []

/-- What the runner sees. -/
def sighting (w : World) (job : Job) (token : Token) : Sighting where
  job := job
  testPresent := w.tree.isPresent (job.workingDir.join job.testPath).segments
  files := filesBelow w.tree job.workingDir
  configuration := w.tree.read? (job.workingDir.join Plan.configurationPath)
  cancelled := w.hasFired token

section

variable [Libraries]

/-- The world after the change that comes with a spawn. -/
def edited (s : Session) : World :=
  match s.edit with
  | none => s.world
  | some suite =>
    { s.world with store := (s.world.store.call s.world.now (.putSuite suite)).1 }

/-- The runner is spawned: it looks around, and the suite changes. -/
def spawned (s : Session) (job : Job) (token : Token) : Session :=
  { s with world := s.edited, sightings := s.sightings ++ [sighting s.world job token] }

/-- Whether a runner that follows the script is stopped by a gate. -/
def needsPermit : Script → Bool
  | .gate _ => true
  | _ => false

/-- Carries a run on until it waits for its runner or ends. -/
def start (s : Session) (id : Uuid) : Session × (Pending ⊕ Except Error Execution) :=
  match s.world.advance (Run.run s.settings id).run with
  | (w, .ended r) => ({ s with world := w }, .inr r)
  | (w, .waiting job token next) =>
    let t := { s with world := w }.spawned job token
    if needsPermit t.script then
      ({ t with permit := false }, .inl ⟨id, t.script, token, t.permit, next⟩)
    else (t, .inl ⟨id, t.script, token, false, next⟩)

/-- Carries a run on with the reply of its runner. -/
def resume (s : Session) (p : Pending) (reply : Reply) : Session × Except Error Execution :=
  match s.world.complete reply (p.next reply) with
  | (w, r) => ({ s with world := w }, r)

/-- The reply of the runner, if it has come. -/
def reply? (s : Session) (p : Pending) : Option Reply :=
  p.script.reply? p.released (s.world.hasFired p.token)

/-- Waits for the end of a run. A runner that does not reply runs out of time. -/
def await (s : Session) (p : Pending) : Session × Except Error Execution :=
  s.resume p ((s.reply? p).getD .timedOut)

/-! ## Runs -/

/-- A run in the foreground. -/
def run (s : Session) (id : Uuid) : Session × Except Error Execution :=
  match s.start id with
  | (t, .inr r) => (t, r)
  | (t, .inl p) => t.await p

/-- Starts a run in the background. -/
def submit (s : Session) (id : Uuid) : Session :=
  match s.start id with
  | (t, .inr _) => { t with background := t.background ++ [.ended id] }
  | (t, .inl p) =>
    match t.reply? p with
    | some reply =>
      let u := (t.resume p reply).1
      { u with background := u.background ++ [.ended id] }
    | none => { t with background := t.background ++ [.pending p] }

end

/-- Releases the runner that has waited longest at its gate, if there is one. -/
def releaseFirst : List Background → Option (List Background)
  | [] => none
  | .pending p :: rest =>
    if needsPermit p.script && !p.released then some (.pending { p with released := true } :: rest)
    else (releaseFirst rest).map (.pending p :: ·)
  | b :: rest => (releaseFirst rest).map (b :: ·)

/-- Lets one runner pass its gate: the one that has waited longest, or else the next one to
come. -/
def release (s : Session) : Session :=
  match releaseFirst s.background with
  | some bs => { s with background := bs }
  | none => { s with permit := true }

/-- The last run of an execution in the background, and the others. -/
def takeLast (id : Uuid) (bs : List Background) : Option (Background × List Background) :=
  match bs.reverse.find? fun b => b.execution == id with
  | none => none
  | some b =>
    let isOther := fun b : Background => b.execution != id
    some (b, (bs.reverse.takeWhile isOther ++ (bs.reverse.dropWhile isOther).drop 1).reverse)

/-- Waits for a run in the background: whether there was one. -/
def join (s : Session) (id : Uuid) : Session × Bool :=
  match takeLast id s.background with
  | none => (s, false)
  | some (.ended _, rest) => ({ s with background := rest }, true)
  | some (.pending p, rest) => (({ s with background := rest }.await p).1, true)

end Session

end Rehearsal
