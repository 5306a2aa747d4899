import Mathlib
import Rehearsal.Run
import Rehearsal.Proofs.Generation

/-!
# What the calls on executions do

One lemma for each call, or for each half of a run: what it answers and what becomes of the
logbook.  Whatever is said of executions elsewhere rests on these lemmas.

* `Run.advance_conclude`: an ending is **one update of one record**, and rows for what the report
  credits to cases.
* `Run.Attempt`: **how an attempt goes**, from its workspace to what it comes to: it fails before
  there is a job, or it is what the runner makes of this one job.
* `Run.advance_attempt`: attempts go this way.  Up to the runner they change nothing but files.
* `Run.advance_run_pending`: a run of a pending execution is its beginning, an attempt and
  `Run.finish`.
* `Run.starts`, `Run.advance_cancel_cases`, `Run.advance_create`: what a run up to the runner, a
  cancellation and a request **can do at all**; whoever asks what a call does splits these cases.
-/

namespace Rehearsal.Run

open Runner (Job Reply Token)

/-! ## Endings -/

/-- What a report, if there is one, credits to the cases of suites. -/
def creditedIn (suites : List Suite) : Option ParsedRun → List (Uuid × Outcome)
  | some run => (CaseIndex.ofSuites suites).credit run.outcomes
  | none => []

/-- Rows for outcomes, each for the one in its place. -/
def RowsFor (id : Uuid) (credited : List (Uuid × Outcome)) (rows : List CaseResult) : Prop :=
  List.Forall₂ (fun c row => ∃ rowId now, row = .ofOutcome rowId id c.1 now c.2) credited rows

/-- Rows belong to the execution they are added for. -/
lemma RowsFor.execution {id : Uuid} {credited : List (Uuid × Outcome)} {rows : List CaseResult}
    (h : RowsFor id credited rows) : ∀ r ∈ rows, r.execution = id := by
  induction h with
  | nil => simp
  | cons hrow _ ih =>
      obtain ⟨rowId, now, rfl⟩ := hrow
      exact List.forall_mem_cons.mpr ⟨rfl, ih⟩

/-- For one outcome there is one row. -/
lemma RowsFor.singleton {id : Uuid} {c : Uuid × Outcome} {rows : List CaseResult}
    (h : RowsFor id [c] rows) :
    ∃ row, rows = [row] ∧ row.case = c.1 ∧ row.verdict = c.2.verdict := by
  obtain ⟨row, rest, ⟨rowId, now, rfl⟩, hrest, rfl⟩ := List.forall₂_cons_left_iff.mp h
  rw [List.forall₂_nil_left_iff.mp hrest]
  exact ⟨_, rfl, rfl, rfl⟩

lemma advance_addRows {w : World} {id : Uuid} {e : Execution}
    (h : w.store.logbook.record? id = some e) (credited : List (Uuid × Outcome)) :
    ∃ v rows, w.advance (addRows id credited).run = (v, .ended (.ok ()))
      ∧ v.store.logbook = w.store.logbook.addRows rows ∧ RowsFor id credited rows := by
  induction credited generalizing w with
  | nil => exact ⟨w, [], rfl, by simp [Logbook.addRows], .nil⟩
  | cons c credited ih =>
      let drawn := { w with drawn := w.drawn + 1 }
      let row := CaseResult.ofOutcome w.nextId id c.1 w.now c.2
      have hid : w.advance Call.freshId.run = (drawn, .ended (.ok w.nextId)) := rfl
      have hnow : drawn.advance Call.clock.run = (drawn, .ended (.ok w.now)) := rfl
      have hrow : drawn.advance (Call.addRow row).run
          = (drawn.withLogbook (w.store.logbook.addRows [row]), .ended (.ok ())) :=
        World.advance_addRow h
      obtain ⟨v, rows, hv, hlog, hrows⟩ :=
        ih (w := drawn.withLogbook (w.store.logbook.addRows [row])) h
      refine ⟨v, row :: rows, ?_, ?_, .cons ⟨w.nextId, w.now, rfl⟩ hrows⟩
      · rw [addRows, World.advance_bind_ok hid, World.advance_bind_ok hnow,
          World.advance_bind_ok hrow, hv]
      · rw [hlog]
        simp [World.withLogbook, Logbook.addRows]

/-- The part of an ending that keeps the results of a report. -/
def keepResults (id : Uuid) (suites : List Suite) : Option ParsedRun → Call Unit
  | some run => storeResults id run suites
  | none => pure ()

/-- The part of an ending that tells of it. -/
def tell (id : Uuid) (update : Update) : Call Unit :=
  match update.status with
  | some status => Call.announce (.updated id status update.errorMessage)
  | none => pure ()

/-- Keeping results adds a row for each outcome that is credited. -/
lemma advance_keepResults {w : World} {id : Uuid} {e : Execution}
    (h : w.store.logbook.record? id = some e) (suites : List Suite) (report : Option ParsedRun) :
    ∃ v rows, w.advance (keepResults id suites report).run = (v, .ended (.ok ()))
      ∧ v.store.logbook = w.store.logbook.addRows rows
      ∧ RowsFor id (creditedIn suites report) rows := by
  cases report with
  | none => exact ⟨w, [], rfl, by simp [Logbook.addRows], .nil⟩
  | some run =>
      obtain ⟨v, rows, hv, hlog, hrows⟩ :=
        advance_addRows h ((CaseIndex.ofSuites suites).credit run.outcomes)
      exact ⟨_, rows, World.advance_bind_ok hv, hlog, hrows⟩

/-- Telling of an ending leaves the store alone. -/
lemma advance_tell (w : World) (id : Uuid) (update : Update) :
    ∃ v, w.advance (tell id update).run = (v, .ended (.ok ())) ∧ v.store = w.store := by
  cases h : update.status with
  | some status => exact ⟨(w.perform (.announce _)).1, by rw [tell, h]; rfl, rfl⟩
  | none => exact ⟨w, by rw [tell, h]; rfl, rfl⟩

section endings

variable [Libraries]

/-- The update that ends an execution. -/
def closing (now : Instant) (result : Except Error (Runner.Outcome × List Suite)) : Update :=
  { (ending result).1 with endTime := some now }

/-- What a result credits to cases. -/
def creditedBy (result : Except Error (Runner.Outcome × List Suite)) : List (Uuid × Outcome) :=
  creditedIn (ending result).2.2 (ending result).2.1

lemma conclude_eq (id : Uuid) (result : Except Error (Runner.Outcome × List Suite)) :
    conclude id result = do
      let endTime ← Call.clock
      let recorded ← Call.updateRecord id { (ending result).1 with endTime := some endTime }
      keepResults id (ending result).2.2 (ending result).2.1
      tell id (ending result).1
      return recorded := by
  rw [conclude]
  rcases ending result with ⟨⟨status, startTime, endTime, results, errorMessage⟩, report, suites⟩
  cases report <;> cases status <;> rfl

/-- An ending is one update of the record, and the rows that it credits. -/
theorem advance_conclude {w : World} {id : Uuid} {e : Execution}
    (h : w.store.logbook.record? id = some e)
    (result : Except Error (Runner.Outcome × List Suite)) :
    ∃ v rows, w.advance (conclude id result).run
        = (v, .ended (.ok (e.apply w.now (closing w.now result))))
      ∧ v.store.logbook
        = (w.store.logbook.put id (e.apply w.now (closing w.now result))).addRows rows
      ∧ RowsFor id (creditedBy result) rows := by
  have hnow : w.advance Call.clock.run = (w, .ended (.ok w.now)) := rfl
  have hupdate := World.advance_updateRecord h (closing w.now result)
  let recorded := e.apply w.now (closing w.now result)
  let written := w.withLogbook (w.store.logbook.put id recorded)
  have hfound : written.store.logbook.record? id = some recorded :=
    (Logbook.record?_put ..).trans (if_pos rfl)
  obtain ⟨v, rows, hv, hlog, hrows⟩ :=
    advance_keepResults hfound (ending result).2.2 (ending result).2.1
  obtain ⟨u, hu, hsame⟩ := advance_tell v id (ending result).1
  refine ⟨u, rows, ?_, by rw [hsame, hlog]; rfl, hrows⟩
  rw [conclude_eq, World.advance_bind_ok hnow]
  refine (World.advance_bind_ok hupdate).trans ?_
  refine (World.advance_bind_ok hv).trans ?_
  exact World.advance_bind_ok hu

end endings

/-! ## Attempts -/

/-- The suites that an execution runs, as they follow from the catalog. -/
def idsOf (c : Catalog) (e : Execution) : Except Error (List Uuid) :=
  match e.suite with
  | some id => .ok [id]
  | none => do
      let p ← foundOr (.unknownProject e.project) (c.project? e.project)
      if p.suites.isEmpty then .error (.emptyProject p.id) else .ok p.suites

/-- The suites that an execution runs, as they are stored. -/
def suitesOf (c : Catalog) (e : Execution) : List Suite :=
  match idsOf c e with
  | .ok ids => c.requested ids
  | .error _ => []

/-- What an attempt comes to after the runner replied. -/
def attempted (settings : RunSettings) (suites : List Suite) :
    Reply → Except Error (Runner.Outcome × List Suite)
  | .ended outcome => .ok (outcome, suites)
  | .refused cause => .error cause
  | .timedOut => .error (.timeout (limitSeconds settings.limit))

lemma advance_suiteIds (w : World) (e : Execution) :
    w.advance (suiteIds e).run = (w, .ended (idsOf w.store.catalog e)) := by
  rw [suiteIds, idsOf]
  cases e.suite with
  | some id => rfl
  | none =>
      refine World.advance_bind_reading (w.advance_project e.project) fun p => ?_
      by_cases hp : p.suites.isEmpty = true
      · simp only [hp, if_true]
        rfl
      · simp only [hp, Bool.false_eq_true, if_false]
        rfl

/-- The part of an attempt behind generation. -/
def handOver (settings : RunSettings) (e : Execution) (place : Path) (token : Token)
    (suites : List Suite) : Call (Runner.Outcome × List Suite) := do
  let path ← Call.given (testPath e suites)
  match ← Call.spawn ⟨place, path, e.browser, e.environment⟩ token with
  | .ended outcome => return (outcome, suites)
  | .refused cause => throw cause
  | .timedOut => throw (.timeout (limitSeconds settings.limit))

/-- What is told to run is handed to the runner.  With its reply the attempt is over. -/
lemma advance_handOver (settings : RunSettings) {e : Execution} {suites : List Suite}
    {path : String} (hpath : testPath e suites = .ok path) (place : Path) (token : Token)
    (w : World) : ∃ next, w.advance (handOver settings e place token suites).run
        = (w, .waiting ⟨place, path, e.browser, e.environment⟩ token next)
      ∧ ∀ reply, next reply = .done (attempted settings suites reply) := by
  have hgiven : w.advance (Call.given (.ok path)).run = (w, .ended (.ok path)) :=
    World.advance_given _
  have hspawn : ∀ job, w.advance (Call.spawn job token).run
      = (w, .waiting job token fun reply => .done (.ok reply)) := fun _ => rfl
  rw [handOver, hpath]
  refine ⟨_, (World.advance_bind_ok hgiven).trans (World.advance_bind_waiting (hspawn _)), ?_⟩
  intro reply
  cases reply <;> rfl

/-- If every suite has a path for its test file, there is something to tell the runner. -/
lemma exists_testPath (e : Execution) {suites : List Suite}
    (h : ∀ s ∈ suites, Plan.testPath s = .ok (Plan.testFile s)) :
    ∃ path, testPath e suites = .ok path := by
  unfold testPath
  split
  · exact ⟨_, h _ List.mem_cons_self⟩
  · exact ⟨_, rfl⟩

section attempts

variable [Libraries]

/-- Generating ends by itself and changes nothing but files; the suites it hands on are those that
were asked for, and each has a path for its test file. -/
lemma advance_generate (w : World) (style : Source.Style) (ids : List Uuid) (root : Path)
    (overrides : Json.Bag) :
    ∃ tree x, w.advance (Generation.generate style ids root overrides).run
        = ({ w with tree := tree }, .ended x)
      ∧ ∀ g suites, x = .ok (g, suites) → suites = w.store.catalog.requested ids
        ∧ ∀ s ∈ suites, Plan.testPath s = .ok (Plan.testFile s) := by
  by_cases hroot : root.isAbsolute = true
  · obtain ⟨tree, x, hx, hplan⟩ := Generation.advance_generate w style ids overrides hroot
    refine ⟨tree, x, hx, ?_⟩
    rintro g suites rfl
    cases hp : w.store.catalog.plan style ids overrides with
    | error e =>
        rw [hp] at hplan
        cases hplan
    | ok made =>
        rw [hp] at hplan
        rcases hplan with ⟨detail, hd⟩ | ⟨g', hg⟩
        · cases hd
        · cases hg
          exact ⟨Catalog.suites_of_plan hp, fun s hs => Catalog.testPath_of_plan hp hs⟩
  · exact ⟨w.tree, .error (.relativeRoot root.text),
      Generation.advance_generate_relative w style ids overrides hroot,
      fun g suites h => by cases h⟩

/-- How an attempt goes, from where its workspace is to what it comes to, by what the runner replies
to the job that it is handed.  Nothing is said here of `attempt` itself. -/
inductive Attempt (settings : RunSettings) (w : World) (e : Execution)
    (reply : World → Job → Reply) :
    Except Refusal Path → Except Error (Runner.Outcome × List Suite) → Prop
  /-- There is no path to the workspace. -/
  | unplaced (r : Refusal) : Attempt settings w e reply (.error r)
      (.error (.cannotResolveWorkDir settings.workDir.text r.text))
  /-- It cannot be told which suites to run. -/
  | unasked {place : Path} {fault : Error} (hids : idsOf w.store.catalog e = .error fault) :
      Attempt settings w e reply (.ok place) (.error fault)
  /-- Generation fails. -/
  | ungenerated {place : Path} {ids : List Uuid} {tree : FileTree} {fault : Error}
      (hids : idsOf w.store.catalog e = .ok ids)
      (hmade : w.result? (Generation.generate settings.style ids place (browserOverride e.browser))
        = ({ w with tree := tree }, some (.error fault))) :
      Attempt settings w e reply (.ok place) (.error fault)
  /-- What was generated is handed to the runner, which replies. -/
  | replied {place : Path} {ids : List Uuid} {tree : FileTree} {g : Generated} {path : String}
      (hids : idsOf w.store.catalog e = .ok ids)
      (hmade : w.result? (Generation.generate settings.style ids place (browserOverride e.browser))
        = ({ w with tree := tree }, some (.ok (g, w.store.catalog.requested ids))))
      (hpath : testPath e (w.store.catalog.requested ids) = .ok path) :
      Attempt settings w e reply (.ok place)
        (attempted settings (w.store.catalog.requested ids)
          (reply { w with tree := tree } ⟨place, path, e.browser, e.environment⟩))

/-- By itself an attempt fails, or it comes to wait for the runner, having changed nothing but
files.  With the runner's reply it is over. -/
theorem advance_attempt (settings : RunSettings) (e : Execution) (place : Except Refusal Path)
    (token : Token) (w : World) :
    (∃ tree fault, w.advance (attemptIn settings e token place).run
          = ({ w with tree := tree }, .ended (.error fault))
        ∧ ∀ reply, Attempt settings w e reply place (.error fault))
      ∨ ∃ tree job next, w.advance (attemptIn settings e token place).run
          = ({ w with tree := tree }, .waiting job token next)
        ∧ (∀ reply, next reply = .done (attempted settings (suitesOf w.store.catalog e) reply))
        ∧ ∀ reply, Attempt settings w e reply place
          (attempted settings (suitesOf w.store.catalog e)
            (reply { w with tree := tree } job)) := by
  cases place with
  | error r => exact .inl ⟨w.tree, _, rfl, fun _ => .unplaced r⟩
  | ok place =>
      have hx := advance_suiteIds w e
      cases hids : idsOf w.store.catalog e with
      | error fault =>
          rw [hids] at hx
          exact .inl ⟨w.tree, fault, World.advance_bind_error hx, fun _ => .unasked hids⟩
      | ok ids =>
          rw [hids] at hx
          obtain ⟨tree, made, hmade, hsuites⟩ := advance_generate w settings.style ids place
            (browserOverride e.browser)
          have hresult : w.result?
              (Generation.generate settings.style ids place (browserOverride e.browser))
                = ({ w with tree := tree }, some made) := by
            rw [World.result?, hmade]
          cases made with
          | error fault =>
              exact .inl ⟨tree, fault,
                (World.advance_bind_ok hx).trans (World.advance_bind_error hmade),
                fun _ => .ungenerated hids hresult⟩
          | ok made =>
              obtain ⟨g, suites⟩ := made
              obtain ⟨rfl, hfiles⟩ := hsuites g suites rfl
              have hstored : suitesOf w.store.catalog e = w.store.catalog.requested ids := by
                rw [suitesOf, hids]
              obtain ⟨path, hpath⟩ := exists_testPath e hfiles
              obtain ⟨next, hnext, hafter⟩ := advance_handOver settings hpath place token
                { w with tree := tree }
              rw [hstored]
              exact .inr ⟨tree, _, next,
                ((World.advance_bind_ok hx).trans (World.advance_bind_ok hmade)).trans hnext,
                hafter, fun _ => .replied hids hresult hpath⟩

end attempts

/-! ## Runs -/

/-- The update that begins an execution. -/
def opening (now : Instant) : Update := { status := some .running, startTime := some now }

/-- The record of an execution that has begun. -/
def running (w : World) (e : Execution) : Execution := e.apply w.now (opening w.now)

/-- The token that asks a run to stop. -/
def tokenOf (w : World) (id : Uuid) : Token := (w.perform (.claimToken id)).2

/-- The world in which the attempt of a run begins. -/
def begun (w : World) (id : Uuid) (e : Execution) : World :=
  { (w.perform (.claimToken id)).1 with
    store := { w.store with logbook := w.store.logbook.put id (running w e) }
    events := (w.perform (.claimToken id)).1.events ++ [.updated id .running none] }

/-- The workspace of a run, from the top of the tree, if there is a path to it. -/
def placeOf (settings : RunSettings) (w : World) (id : Uuid) : Except Refusal Path :=
  w.tree.locate (workspace settings.workDir id)

@[simp] lemma begun_store (w : World) (id : Uuid) (e : Execution) :
    (begun w id e).store = { w.store with logbook := w.store.logbook.put id (running w e) } := rfl

lemma record?_begun (w : World) (id : Uuid) (e : Execution) :
    (begun w id e).store.logbook.record? id = some (running w e) := by
  rw [begun_store, Logbook.record?_put, if_pos rfl]

/-! ### The beginning of a run -/

section beginning

variable {w : World} {id : Uuid} {e d : Execution}

/-- The world with a token for the run. -/
def claimed (w : World) (id : Uuid) : World := (w.perform (.claimToken id)).1

/-- The world in which the run is recorded as well. -/
def marked (w : World) (id : Uuid) (d : Execution) : World :=
  (claimed w id).withLogbook (w.store.logbook.put id (running w d))

lemma advance_claim :
    w.advance (Call.claimToken id).run = (claimed w id, .ended (.ok (tokenOf w id))) := rfl

lemma advance_clock_claimed :
    (claimed w id).advance Call.clock.run = (claimed w id, .ended (.ok w.now)) := by
  rw [← (w.perform_claimToken id).2]
  rfl

lemma record?_claimed (h : w.store.logbook.record? id = some d) :
    (claimed w id).store.logbook.record? id = some d := by
  rw [claimed, (w.perform_claimToken id).1, h]

lemma apply_claimed (u : Update) : d.apply (claimed w id).now u = d.apply w.now u := by
  rw [claimed, (w.perform_claimToken id).2]

lemma advance_mark (h : w.store.logbook.record? id = some d) :
    (claimed w id).advance (Call.updateRecord id (opening w.now)).run
      = (marked w id d, .ended (.ok (running w d))) := by
  rw [World.advance_updateRecord (record?_claimed h), apply_claimed, marked, claimed,
    (w.perform_claimToken id).1]
  rfl

lemma advance_tellRunning :
    (marked w id d).advance (Call.announce (.updated id .running none)).run
      = (begun w id d, .ended (.ok ())) := by
  show ({ claimed w id with
    store := { (claimed w id).store with logbook := w.store.logbook.put id (running w d) }
    events := (claimed w id).events ++ [Event.updated id .running none] },
    World.Rest.ended (Except.ok ())) = _
  rw [claimed, (w.perform_claimToken id).1]
  rfl

lemma tree_begun : (begun w id d).tree = w.tree := w.tree_claimToken id

lemma advance_place (settings : RunSettings) :
    (begun w id d).advance (Call.locate (workspace settings.workDir id)).run
      = (begun w id d, .ended (.ok (placeOf settings w id))) := by
  have htree : (begun w id d).tree = w.tree := tree_begun
  rw [placeOf, ← htree]
  rfl

variable [Libraries]

/-- What a run does after its attempt. -/
def finish (id : Uuid) (place : Except Refusal Path)
    (result : Except Error (Runner.Outcome × List Suite)) : Call Execution := do
  let recorded ← Call.outcome (conclude id result)
  discard place
  Call.releaseToken id
  Call.given recorded

/-- A run records how its attempt ended. -/
lemma advance_finish {w : World} {id : Uuid} {e : Execution}
    (h : w.store.logbook.record? id = some e) (place : Except Refusal Path)
    (result : Except Error (Runner.Outcome × List Suite)) :
    ∃ v rows, w.advance (finish id place result).run
        = (v, .ended (.ok (e.apply w.now (closing w.now result))))
      ∧ v.store.logbook
        = (w.store.logbook.put id (e.apply w.now (closing w.now result))).addRows rows
      ∧ RowsFor id (creditedBy result) rows := by
  obtain ⟨v, rows, hv, hlog, hrows⟩ := advance_conclude h result
  -- removing the workspace leaves the store alone, and so does having none to remove
  cases place <;>
    exact ⟨_, rows, World.advance_bind_ok (World.advance_outcome hv), hlog, hrows⟩

/-- What a run does once it has begun. -/
def goOn (settings : RunSettings) (w : World) (id : Uuid) (e : Execution) : Call Execution := do
  let result ← Call.outcome
    (attemptIn settings (running w e) (tokenOf w id) (placeOf settings w id))
  finish id (placeOf settings w id) result

/-- What a run does once it has read the record. -/
def proceed (settings : RunSettings) (id : Uuid) (e : Execution) : Call Execution := do
  if e.status == .cancelled then
    Call.releaseToken id
    return e
  let status ← Call.given (e.status.become .running)
  let token ← Call.claimToken id
  let startTime ← Call.clock
  let running ← Call.updateRecord id { status := some status, startTime := some startTime }
  Call.announce (.updated id status none)
  let place ← Call.locate (workspace settings.workDir id)
  let result ← Call.outcome (attemptIn settings running token place)
  finish id place result

lemma run_eq (settings : RunSettings) (id : Uuid) :
    run settings id = Call.record id >>= proceed settings id := rfl

/-- What a run does that has read that the execution is pending. -/
lemma proceed_pending (settings : RunSettings) (hpending : e.status = .pending) :
    proceed settings id e = (do
      let token ← Call.claimToken id
      let startTime ← Call.clock
      let running ← Call.updateRecord id (opening startTime)
      Call.announce (.updated id .running none)
      let place ← Call.locate (workspace settings.workDir id)
      let result ← Call.outcome (attemptIn settings running token place)
      finish id place result) := by
  have hnotCancelled : (e.status == Status.cancelled) = false := by
    rw [hpending]
    rfl
  have hbecome : e.status.become .running = .ok .running := by
    rw [hpending]
    rfl
  rw [proceed]
  simp only [hnotCancelled, Bool.false_eq_true, if_false, hbecome]
  rfl

/-- A run that has read that the execution is pending goes on with its beginning, whatever the
record has become in the meantime. -/
theorem advance_proceed (settings : RunSettings)
    (h : w.store.logbook.record? id = some d) (hpending : e.status = .pending) :
    w.advance (proceed settings id e).run
      = (begun w id d).advance (goOn settings w id d).run := by
  rw [proceed_pending settings hpending, World.advance_bind_ok advance_claim,
    World.advance_bind_ok advance_clock_claimed, World.advance_bind_ok (advance_mark h),
    World.advance_bind_ok advance_tellRunning, World.advance_bind_ok (advance_place settings), goOn]

end beginning

section starts

variable [Libraries]

/-- A run of a pending execution is its beginning, an attempt and an ending. -/
theorem advance_run_pending {w : World} {id : Uuid} {e : Execution} (settings : RunSettings)
    (h : w.store.logbook.record? id = some e) (hpending : e.status = .pending) :
    w.advance (run settings id).run = (begun w id e).advance (goOn settings w id e).run := by
  have hrecord : w.advance (Call.record id).run = (w, .ended (.ok e)) := by
    rw [World.advance_record, h]
    rfl
  rw [run_eq, World.advance_bind_ok hrecord]
  exact advance_proceed settings h hpending

/-- A run that has begun fails by itself, as attempts do, or comes to wait for the runner.  In both
cases it ends by recording what its attempt came to. -/
theorem advance_goOn (settings : RunSettings) (w : World) (id : Uuid) (e : Execution) :
    (∃ tree fault, (begun w id e).advance (goOn settings w id e).run
          = ({ begun w id e with tree := tree } : World).advance
            (finish id (placeOf settings w id) (.error fault)).run
        ∧ ∀ reply, Attempt settings (begun w id e) (running w e) reply (placeOf settings w id)
          (.error fault))
      ∨ ∃ tree job next, (begun w id e).advance (goOn settings w id e).run
          = ({ begun w id e with tree := tree }, .waiting job (tokenOf w id) next)
        ∧ ∀ reply, next reply = (finish id (placeOf settings w id)
          (attempted settings (suitesOf w.store.catalog (running w e)) reply)).run := by
  rcases advance_attempt settings (running w e) (placeOf settings w id) (tokenOf w id)
    (begun w id e) with ⟨tree, fault, hfault, hgoes⟩ | ⟨tree, job, next, hnext, hafter, -⟩
  · exact .inl ⟨tree, fault, World.advance_bind_ok (World.advance_outcome hfault), hgoes⟩
  · have houtcome := World.advance_outcome_waiting hnext
    refine .inr ⟨tree, job, _, World.advance_bind_waiting houtcome, fun reply => ?_⟩
    rw [hafter]
    rfl

/-- What a run comes to up to the runner. -/
inductive Starts (settings : RunSettings) (w : World) (id : Uuid) :
    World × World.Rest (Except Error Execution) → Prop
  /-- It begins, fails by itself and records this. -/
  | fails {e : Execution} (hrecord : w.store.logbook.record? id = some e)
      (hpending : e.status = .pending) (tree : FileTree) (fault : Error) :
      Starts settings w id (({ begun w id e with tree := tree } : World).advance
        (finish id (placeOf settings w id) (.error fault)).run)
  /-- It begins and waits for the runner.  All that it does with the reply is to record it. -/
  | waits {e : Execution} (hrecord : w.store.logbook.record? id = some e)
      (hpending : e.status = .pending) (tree : FileTree) (job : Job)
      {next : Reply → Procedure (Except Error Execution)}
      (hafter : ∀ reply, next reply = (finish id (placeOf settings w id)
        (attempted settings (suitesOf w.store.catalog (running w e)) reply)).run) :
      Starts settings w id ({ begun w id e with tree := tree }, .waiting job (tokenOf w id) next)
  /-- It is refused, and nothing has changed. -/
  | refused (fault : Error) : Starts settings w id (w, .ended (.error fault))
  /-- The execution was cancelled, and loses its token. -/
  | declined {e : Execution} (hrecord : w.store.logbook.record? id = some e)
      (hcancelled : e.status = .cancelled) :
      Starts settings w id ((w.perform (.releaseToken id)).1, .ended (.ok e))

lemma starts_pending {w : World} {id : Uuid} {e : Execution} (settings : RunSettings)
    (hrecord : w.store.logbook.record? id = some e) (hpending : e.status = .pending) :
    Starts settings w id (w.advance (run settings id).run) := by
  rw [advance_run_pending settings hrecord hpending]
  rcases advance_goOn settings w id e with
    ⟨tree, fault, hfault, -⟩ | ⟨tree, job, next, hnext, hafter⟩
  · rw [hfault]
    exact .fails hrecord hpending tree fault
  · rw [hnext]
    exact .waits hrecord hpending tree job hafter

/-- **What a run can do** before the runner replies.  Only an execution that is pending is begun. -/
theorem starts (settings : RunSettings) (w : World) (id : Uuid) :
    Starts settings w id (w.advance (run settings id).run) := by
  have hfound := w.advance_record id
  cases hrecord : w.store.logbook.record? id with
  | none =>
      rw [hrecord] at hfound
      rw [run_eq, World.advance_bind_error hfound]
      exact .refused _
  | some e =>
      rw [hrecord] at hfound
      cases hstatus : e.status with
      | pending => exact starts_pending settings hrecord hstatus
      | cancelled =>
          rw [run_eq, World.advance_bind_ok hfound, proceed, hstatus]
          exact .declined hrecord hstatus
      | _ =>
          rw [run_eq, World.advance_bind_ok hfound, proceed, hstatus]
          exact .refused _

/-- A run that waits for the runner has begun a pending execution, and will record what the runner
replies. -/
lemma eq_of_waiting {settings : RunSettings} {w v : World} {id : Uuid} {job : Job} {token : Token}
    {next : Reply → Procedure (Except Error Execution)}
    (h : w.advance (run settings id).run = (v, .waiting job token next)) :
    ∃ e tree, w.store.logbook.record? id = some e ∧ e.status = .pending
      ∧ v = { begun w id e with tree := tree }
      ∧ ∀ reply, next reply = (finish id (placeOf settings w id)
        (attempted settings (suitesOf w.store.catalog (running w e)) reply)).run := by
  have hstarts := starts settings w id
  rw [h] at hstarts
  generalize hrest : (v, World.Rest.waiting job token next) = rest at hstarts
  cases hstarts with
  | fails hrecord hpending tree fault =>
      obtain ⟨_, _, hended, -⟩ := advance_finish (w := { begun w id _ with tree := tree })
        (record?_begun w id _) (placeOf settings w id) (.error fault)
      cases hrest.trans hended
  | waits hrecord hpending tree job hafter =>
      cases hrest
      exact ⟨_, tree, hrecord, hpending, rfl, hafter⟩
  | refused fault => cases hrest
  | declined hrecord hcancelled => cases hrest

end starts

/-! ## Cancelling -/

/-- What has not ended can be cancelled. -/
lemma canBecome_cancelled_iff {s : Status} :
    s.canBecome .cancelled = true ↔ s = .pending ∨ s = .running := by
  cases s <;> simp [Status.canBecome]

lemma become_of_canBecome {s t : Status} (h : s.canBecome t = true) : s.become t = .ok t :=
  if_pos h

lemma become_of_not_canBecome {s t : Status} (h : s.canBecome t = false) :
    s.become t = .error (.invalidTransition s t) := by
  rw [Status.become, h]
  rfl

/-- A cancellation that has been recorded fires the token, if there is one, and is announced. -/
lemma advance_fireToken (w : World) (id : Uuid) (e : Execution) :
    ∃ v, w.advance (do
        match ← Call.findToken id with
        | some t => Call.fire t
        | none => pure ()
        Call.announce (.updated id .cancelled none)
        return e : Call Execution).run = (v, .ended (.ok e))
      ∧ v.store = w.store := by
  have hfind : w.advance (Call.findToken id).run = (w, .ended (.ok (w.tokens.get? id))) := rfl
  rw [World.advance_bind_ok hfind]
  cases w.tokens.get? id with
  | none => exact ⟨(w.perform (.announce (.updated id .cancelled none))).1, rfl, rfl⟩
  | some t =>
      exact ⟨((w.perform (.fire t)).1.perform (.announce (.updated id .cancelled none))).1,
        rfl, rfl⟩

/-- A cancellation is one update of one record. -/
theorem advance_cancel {w : World} {id : Uuid} {e : Execution}
    (h : w.store.logbook.record? id = some e) (hcan : e.status.canBecome .cancelled = true) :
    ∃ v, w.advance (cancel id).run
        = (v, .ended (.ok (e.apply w.now { status := some .cancelled })))
      ∧ v.store.logbook
        = w.store.logbook.put id (e.apply w.now { status := some .cancelled }) := by
  let written := w.withLogbook
    (w.store.logbook.put id (e.apply w.now { status := some .cancelled }))
  have hrecord := w.advance_record id
  rw [h] at hrecord
  have hbecome := become_of_canBecome hcan
  have hupdate := World.advance_updateRecord h { status := some .cancelled }
  obtain ⟨v, hv, hstore⟩ :=
    advance_fireToken written id (e.apply w.now { status := some .cancelled })
  refine ⟨v, ?_, by rw [hstore]; rfl⟩
  refine (World.advance_bind_ok hrecord).trans ?_
  simp only [hbecome]
  refine (World.advance_bind_ok rfl).trans ?_
  exact (World.advance_bind_ok hupdate).trans hv

/-- A cancellation that is refused changes nothing. -/
theorem advance_cancel_otherwise {w : World} {id : Uuid}
    (h : ∀ e, w.store.logbook.record? id = some e → e.status.canBecome .cancelled = false) :
    ∃ fault, w.advance (cancel id).run = (w, .ended (.error fault)) := by
  have hrecord := w.advance_record id
  cases hr : w.store.logbook.record? id with
  | none =>
      rw [hr] at hrecord
      exact ⟨_, World.advance_bind_error hrecord⟩
  | some e =>
      rw [hr] at hrecord
      have hbecome := become_of_not_canBecome (h e hr)
      refine ⟨.invalidTransition e.status .cancelled, ?_⟩
      refine (World.advance_bind_ok hrecord).trans ?_
      simp only [hbecome]
      rfl

/-- **What a cancellation can do**: it updates a record that has not ended, or it is refused and
changes nothing. -/
theorem advance_cancel_cases (w : World) (id : Uuid) :
    (∃ e v, w.store.logbook.record? id = some e ∧ (e.status = .pending ∨ e.status = .running)
        ∧ w.advance (cancel id).run
          = (v, .ended (.ok (e.apply w.now { status := some .cancelled })))
        ∧ v.store.logbook
          = w.store.logbook.put id (e.apply w.now { status := some .cancelled }))
      ∨ (¬∃ e, w.store.logbook.record? id = some e ∧ (e.status = .pending ∨ e.status = .running))
        ∧ ∃ fault, w.advance (cancel id).run = (w, .ended (.error fault)) := by
  by_cases h : ∃ e, w.store.logbook.record? id = some e
    ∧ (e.status = .pending ∨ e.status = .running)
  · obtain ⟨e, he, hstatus⟩ := h
    obtain ⟨v, hv, hlog⟩ := advance_cancel he (canBecome_cancelled_iff.mpr hstatus)
    exact .inl ⟨e, v, he, hstatus, hv, hlog⟩
  · refine .inr ⟨h, advance_cancel_otherwise fun e he => ?_⟩
    exact Bool.eq_false_iff.mpr fun hcan => h ⟨e, he, canBecome_cancelled_iff.mp hcan⟩

/-! ## Creating -/

/-- What a catalog says to the suite of a request. -/
def suiteAdmission (c : Catalog) (r : Request) : Except Error Unit :=
  match r.suite with
  | none => .ok ()
  | some id => do
      let s ← foundOr (.unknownSuite id) (c.suite? id)
      if s.project != r.project then .error (.foreignSuite id r.project) else .ok ()

/-- What a catalog says to a request. -/
def admission (c : Catalog) (r : Request) : Except Error Unit := do
  let _ ← foundOr (.unknownProject r.project) (c.project? r.project)
  suiteAdmission c r

lemma suiteAdmission_eq_ok_iff {c : Catalog} {r : Request} : suiteAdmission c r = .ok ()
    ↔ ∀ id, r.suite = some id → ∃ s, c.suite? id = some s ∧ s.project = r.project := by
  rw [suiteAdmission]
  cases r.suite with
  | none => simp
  | some id => simp [bind_eq_ok_iff, foundOr_eq_ok_iff]

/-- A request is admitted if its project is there, and its suite, if it has one, is one of it. -/
lemma admission_eq_ok_iff {c : Catalog} {r : Request} : admission c r = .ok ()
    ↔ (∃ p, c.project? r.project = some p)
      ∧ ∀ id, r.suite = some id → ∃ s, c.suite? id = some s ∧ s.project = r.project := by
  simp only [admission, bind_eq_ok_iff, foundOr_eq_ok_iff, suiteAdmission_eq_ok_iff,
    exists_and_right]

lemma advance_checkSuite (w : World) (r : Request) :
    w.advance (checkSuite r).run = (w, .ended (suiteAdmission w.store.catalog r)) := by
  rw [checkSuite, suiteAdmission]
  cases r.suite with
  | none => rfl
  | some id =>
      refine World.advance_bind_reading (w.advance_suite id) fun s => ?_
      by_cases hs : (s.project != r.project) = true
      · simp only [hs, if_true]
        rfl
      · simp only [hs, Bool.false_eq_true, if_false]
        rfl

/-- What is left to do for a request that is admitted. -/
def enroll (r : Request) : Call Execution := do
  let e := r.toExecution (← Call.freshId) (← Call.clock)
  Call.createRecord e
  let _ ← Call.claimToken e.id
  Call.announce (.ofExecution e)
  return e

/-- The execution that is requested. -/
def enrolled (w : World) (r : Request) : Execution := r.toExecution w.nextId w.now

/-- The world in which it is recorded. -/
def recorded (w : World) (r : Request) : World :=
  ({ w with drawn := w.drawn + 1 } : World).withLogbook
    (w.store.logbook.put w.nextId (enrolled w r))

/-- A request is looked at before anything is written. -/
lemma advance_create_eq (w : World) (r : Request) :
    w.advance (create r).run = match admission w.store.catalog r with
      | .error fault => (w, .ended (.error fault))
      | .ok _ => w.advance (enroll r).run := by
  have hcreate : create r
      = Call.project r.project >>= fun _ => checkSuite r >>= fun _ => enroll r := rfl
  have hproject := w.advance_project r.project
  have hsuite := advance_checkSuite w r
  rw [hcreate, admission]
  cases hp : foundOr (.unknownProject r.project) (w.store.catalog.project? r.project) with
  | error fault =>
      rw [hp] at hproject
      exact World.advance_bind_error hproject
  | ok p =>
      rw [hp] at hproject
      rw [World.advance_bind_ok hproject]
      cases hs : suiteAdmission w.store.catalog r with
      | error fault =>
          rw [hs] at hsuite
          exact World.advance_bind_error hsuite
      | ok _ =>
          rw [hs] at hsuite
          exact World.advance_bind_ok hsuite

/-- An identifier that is taken is refused. -/
lemma advance_enroll_taken {w : World} {d : Execution} (r : Request)
    (h : w.store.logbook.record? w.nextId = some d) : w.advance (enroll r).run
      = ({ w with drawn := w.drawn + 1 }, .ended (.error (.duplicateExecution w.nextId))) := by
  have hid : w.advance Call.freshId.run
      = ({ w with drawn := w.drawn + 1 }, .ended (.ok w.nextId)) := rfl
  have htaken := World.advance_createRecord_taken (w := { w with drawn := w.drawn + 1 })
    (e := enrolled w r) h
  refine (World.advance_bind_ok hid).trans ?_
  refine (World.advance_bind_ok rfl).trans ?_
  exact World.advance_bind_error htaken

/-- A free identifier gets a record that is pending, and a token, and this is announced. -/
lemma advance_enroll {w : World} (r : Request)
    (h : w.store.logbook.record? w.nextId = none) : w.advance (enroll r).run
      = ({ ((recorded w r).perform (.claimToken w.nextId)).1 with
          events := ((recorded w r).perform (.claimToken w.nextId)).1.events
            ++ [.ofExecution (enrolled w r)] }, .ended (.ok (enrolled w r))) := by
  have hid : w.advance Call.freshId.run
      = ({ w with drawn := w.drawn + 1 }, .ended (.ok w.nextId)) := rfl
  have hcreated := World.advance_createRecord (w := { w with drawn := w.drawn + 1 })
    (e := enrolled w r) h
  refine (World.advance_bind_ok hid).trans ?_
  refine (World.advance_bind_ok rfl).trans ?_
  exact World.advance_bind_ok hcreated

/-- What comes of a request: nothing but an identifier that is used up, or a record that is pending
under an identifier that was free, and a token. -/
theorem advance_create (w : World) (r : Request) :
    (∃ drawn fault, w.advance (create r).run
        = ({ w with drawn := drawn }, .ended (.error fault)))
      ∨ ∃ v id, w.advance (create r).run = (v, .ended (.ok (r.toExecution id w.now)))
        ∧ w.store.logbook.record? id = none
        ∧ v.store.logbook = w.store.logbook.put id (r.toExecution id w.now)
        ∧ ∃ t, v.tokens.get? id = some t := by
  rw [advance_create_eq]
  cases admission w.store.catalog r with
  | error fault => exact .inl ⟨w.drawn, fault, rfl⟩
  | ok _ =>
      cases hr : w.store.logbook.record? w.nextId with
      | some d => exact .inl ⟨w.drawn + 1, _, advance_enroll_taken r hr⟩
      | none =>
          have hstore := ((recorded w r).perform_claimToken w.nextId).1
          refine .inr ⟨_, w.nextId, advance_enroll r hr, hr, ?_, _,
            (recorded w r).get?_claimToken w.nextId⟩
          exact congrArg Store.logbook hstore

/-- An execution that was created is pending, under an identifier that was free. -/
lemma create_eq_ok {w v : World} {r : Request} {e : Execution}
    (h : w.result? (create r) = (v, some (.ok e))) :
    e = r.toExecution e.id w.now ∧ w.store.logbook.record? e.id = none
      ∧ v.store.logbook = w.store.logbook.put e.id e := by
  rcases advance_create w r with ⟨drawn, fault, hu⟩ | ⟨u, id, hu, hfree, hlog, -⟩
  · rw [World.result?, hu] at h
    cases h
  · rw [World.result?, hu] at h
    cases h
    exact ⟨rfl, hfree, hlog⟩

/-- An execution that was created has a token. -/
lemma token_of_create {w v : World} {r : Request} {e : Execution}
    (h : w.result? (create r) = (v, some (.ok e))) : ∃ t, v.tokens.get? e.id = some t := by
  rcases advance_create w r with ⟨drawn, fault, hu⟩ | ⟨u, id, hu, -, -, htoken⟩
  · rw [World.result?, hu] at h
    cases h
  · rw [World.result?, hu] at h
    cases h
    exact htoken

end Rehearsal.Run
