import Mathlib
import Rehearsal.Proofs.Run

/-!
# How runs end

A run is followed from its call to its end.  While its runner is at work anything may happen to
the world except to the execution itself.

* `Runner.Course`: what becomes of the world while a runner is at work, and its reply.
* `World.play`: carries a procedure on to its end along such a course.
* `Run.Table`: what the record and the rows say, for **each way an attempt can go**.
* `Run.run_ends`: a run of a pending execution ends, with what the table says of its attempt.  The
  suites that rows are credited to are those of **the moment at which the run was called**.
-/

namespace Rehearsal

open Runner (Job Reply Token)

/-- What becomes of the world while a runner is at work, and the runner's reply. -/
abbrev Runner.Course := World → Job → Token → World × Reply

/-- A course in which nothing happens to an execution. -/
structure Runner.Course.Spares (course : Runner.Course) (id : Uuid) : Prop where
  record : ∀ w job token,
    (course w job token).1.store.logbook.record? id = w.store.logbook.record? id
  rows : ∀ w job token,
    (course w job token).1.store.logbook.rowsOf id = w.store.logbook.rowsOf id

namespace World

variable {α β : Type} {course : Runner.Course}

/-- Carries a procedure on to its end. -/
def play (course : Runner.Course) (w : World) : Procedure α → World × α
  | .done a => (w, a)
  | .act a next =>
    match w.perform a with
    | (v, answer) => v.play course (next answer)
  | .spawn job token next =>
    match course w job token with
    | (v, reply) => v.play course (next reply)

/-- Up to the runner's job, a procedure goes as it goes by itself. -/
lemma play_eq (w : World) (p : Procedure α) :
    w.play course p = match w.advance p with
      | (v, .ended a) => (v, a)
      | (v, .waiting job token next) =>
          (course v job token).1.play course (next (course v job token).2) := by
  induction p generalizing w with
  | done a => rfl
  | act a next ih => exact ih _ _
  | spawn job token next => rfl

/-- What ends by itself is not touched by the course. -/
lemma play_of_ended {w v : World} {p : Procedure α} {a : α} (h : w.advance p = (v, .ended a)) :
    w.play course p = (v, a) := by
  rw [play_eq, h]

/-- Procedures that go the same way by themselves go the same way along a course. -/
lemma play_congr {w v : World} {p q : Procedure α} (h : w.advance p = v.advance q) :
    w.play course p = v.play course q := by
  rw [play_eq, play_eq, h]

lemma play_bind (w : World) (p : Procedure α) (f : α → Procedure β) :
    w.play course (p >>= f)
      = (w.play course p).1.play course (f (w.play course p).2) := by
  induction p generalizing w with
  | done a => rfl
  | act a next ih => exact ih _ _
  | spawn job token next ih => exact ih _ _

/-- What a call comes to, a fault or not, is what follows goes on with. -/
lemma play_outcome_bind (w : World) (c : Call α) (f : Except Error α → Call β) :
    w.play course (Call.outcome c >>= f).run
      = (w.play course c.run).1.play course (f (w.play course c.run).2).run := by
  have hsplit : (Call.outcome c >>= f).run
      = (c.run >>= fun x => .done (.ok x)) >>= ExceptT.bindCont f := rfl
  rw [hsplit, play_bind, play_bind]
  rfl

end World

namespace Run

lemma success_iff {o : Runner.Output} : o.success = true ↔ o.exitCode = some 0 := by
  rw [Runner.Output.success, beq_iff_eq]

section

variable [Libraries]

/-! ## What is recorded -/

/-- What a record and the rows of its execution say, by what the attempt came to. -/
structure Table (id : Uuid) (result : Except Error (Runner.Outcome × List Suite)) (e : Execution)
    (rows : List CaseResult) : Prop where
  /-- The files could not be generated, the runner could not be started, or its time was up. -/
  fault : ∀ fault, result = .error fault →
    e.status = .failed ∧ e.results = none ∧ e.errorMessage = some fault.message ∧ rows = []
  cancelled : ∀ suites, result = .ok (.cancelled, suites) →
    e.status = .cancelled ∧ e.results = none ∧ e.errorMessage = none ∧ rows = []
  completed : ∀ o suites run, result = .ok (.finished o, suites) → o.exitCode = some 0 →
    ParsedRun.parse o.stdout = .ok run →
      e.status = .completed ∧ e.results = some run.document ∧ e.errorMessage = none
        ∧ RowsFor id ((CaseIndex.ofSuites suites).credit run.outcomes) rows
  /-- A program that succeeded without a report has failed. -/
  unreadable : ∀ o suites cause, result = .ok (.finished o, suites) → o.exitCode = some 0 →
    ParsedRun.parse o.stdout = .error cause →
      e.status = .failed ∧ e.results = none ∧ e.errorMessage = some cause.message ∧ rows = []
  failed : ∀ o suites, result = .ok (.finished o, suites) → o.exitCode ≠ some 0 →
    e.status = .failed ∧ e.errorMessage = some o.stderr
  /-- One that failed keeps the report that it managed to write. -/
  kept : ∀ o suites run, result = .ok (.finished o, suites) → o.exitCode ≠ some 0 →
    ParsedRun.parse o.stdout = .ok run →
      e.results = some run.document
        ∧ RowsFor id ((CaseIndex.ofSuites suites).credit run.outcomes) rows
  lost : ∀ o suites cause, result = .ok (.finished o, suites) → o.exitCode ≠ some 0 →
    ParsedRun.parse o.stdout = .error cause → e.results = none ∧ rows = []

/-! ### Programs that ended -/

section finished

variable {o : Runner.Output} {run : ParsedRun} {cause : Error}

lemma finished_completed (hcode : o.exitCode = some 0) (hp : ParsedRun.parse o.stdout = .ok run) :
    finished o = ({ status := some .completed, results := some run.document }, some run) := by
  simp only [finished, hp, success_iff.mpr hcode, if_true]

lemma finished_unreadable (hcode : o.exitCode = some 0)
    (hp : ParsedRun.parse o.stdout = .error cause) :
    finished o = ({ status := some .failed, errorMessage := some cause.message }, none) := by
  simp only [finished, hp, success_iff.mpr hcode, if_true]

lemma finished_kept (hcode : o.exitCode ≠ some 0) (hp : ParsedRun.parse o.stdout = .ok run) :
    finished o = ({
      status := some .failed
      results := some run.document
      errorMessage := some o.stderr }, some run) := by
  have hfailed : ¬o.success = true := fun h => hcode (success_iff.mp h)
  simp only [finished, hp, hfailed, Bool.false_eq_true, if_false]

lemma finished_lost (hcode : o.exitCode ≠ some 0)
    (hp : ParsedRun.parse o.stdout = .error cause) :
    finished o = ({ status := some .failed, errorMessage := some o.stderr }, none) := by
  have hfailed : ¬o.success = true := fun h => hcode (success_iff.mp h)
  simp only [finished, hp, hfailed, Bool.false_eq_true, if_false]

end finished

/-- An ending says nothing about the beginning. -/
lemma startTime_closing (e : Execution) (now : Instant)
    (result : Except Error (Runner.Outcome × List Suite)) :
    (e.apply now (closing now result)).startTime = e.startTime := by
  rcases result with fault | ⟨o | _, suites⟩
  · rfl
  · cases hp : ParsedRun.parse o.stdout <;> cases hs : o.success <;>
      simp [Execution.apply, closing, ending, finished, hp, hs]
  · rfl

/-- The update that ends an execution says what the table says, if nothing was recorded before. -/
lemma table_closing {id : Uuid} {e : Execution} {now : Instant}
    {result : Except Error (Runner.Outcome × List Suite)} {rows : List CaseResult}
    (hresults : e.results = none) (hmessage : e.errorMessage = none)
    (hrows : RowsFor id (creditedBy result) rows) :
    Table id result (e.apply now (closing now result)) rows := by
  constructor
  case fault =>
    rintro fault rfl
    have hnone : rows = [] := List.forall₂_nil_left_iff.mp hrows
    simp [Execution.apply, closing, ending, hresults, hnone]
  case cancelled =>
    rintro suites rfl
    have hnone : rows = [] := List.forall₂_nil_left_iff.mp hrows
    simp [Execution.apply, closing, ending, hresults, hmessage, hnone]
  case completed =>
    rintro o suites run rfl hcode hp
    have hf := finished_completed hcode hp
    rw [creditedBy, ending, hf] at hrows
    have hrecord : (e.apply now (closing now (.ok (.finished o, suites)))).status = .completed
        ∧ (e.apply now (closing now (.ok (.finished o, suites)))).results = some run.document
        ∧ (e.apply now (closing now (.ok (.finished o, suites)))).errorMessage = none := by
      simp [Execution.apply, closing, ending, hf, hmessage]
    exact ⟨hrecord.1, hrecord.2.1, hrecord.2.2, hrows⟩
  case unreadable =>
    rintro o suites cause rfl hcode hp
    have hf := finished_unreadable hcode hp
    rw [creditedBy, ending, hf] at hrows
    have hnone : rows = [] := List.forall₂_nil_left_iff.mp hrows
    simp [Execution.apply, closing, ending, hf, hresults, hnone]
  case failed =>
    rintro o suites rfl hcode
    cases hp : ParsedRun.parse o.stdout with
    | ok run => simp [Execution.apply, closing, ending, finished_kept hcode hp]
    | error cause => simp [Execution.apply, closing, ending, finished_lost hcode hp]
  case kept =>
    rintro o suites run rfl hcode hp
    have hf := finished_kept hcode hp
    rw [creditedBy, ending, hf] at hrows
    exact ⟨by simp [Execution.apply, closing, ending, hf], hrows⟩
  case lost =>
    rintro o suites cause rfl hcode hp
    have hf := finished_lost hcode hp
    rw [creditedBy, ending, hf] at hrows
    have hnone : rows = [] := List.forall₂_nil_left_iff.mp hrows
    simp [Execution.apply, closing, ending, hf, hresults, hnone]

/-! ## From the call to the end -/

section course

variable {course : Runner.Course} {id : Uuid}

/-- An attempt leaves its execution alone, and goes as attempts go. -/
lemma play_attempt (hcourse : course.Spares id) (settings : RunSettings) (e : Execution)
    (place : Except Refusal Path) (token : Token) (w : World) :
    (w.play course (attemptIn settings e token place).run).1.store.logbook.record? id
        = w.store.logbook.record? id
      ∧ (w.play course (attemptIn settings e token place).run).1.store.logbook.rowsOf id
        = w.store.logbook.rowsOf id
      ∧ Attempt settings w e (fun v job => (course v job token).2) place
        (w.play course (attemptIn settings e token place).run).2 := by
  rcases advance_attempt settings e place token w with
    ⟨tree, fault, hfault, hgoes⟩ | ⟨tree, job, next, hnext, hafter, hgoes⟩
  · rw [World.play_of_ended hfault]
    exact ⟨rfl, rfl, hgoes fun v job => (course v job token).2⟩
  · have hplay : w.play course (attemptIn settings e token place).run
        = ((course { w with tree := tree } job token).1,
          attempted settings (suitesOf w.store.catalog e)
            (course { w with tree := tree } job token).2) := by
      rw [World.play_eq, hnext]
      simp only [hafter]
      rfl
    rw [hplay]
    exact ⟨hcourse.record _ _ _, hcourse.rows _ _ _, hgoes fun v job => (course v job token).2⟩

/-- A run that has begun is played as its attempt and then its ending. -/
lemma play_goOn (settings : RunSettings) (w : World) (e : Execution) (u : World) :
    u.play course (goOn settings w id e).run
      = (u.play course (attemptIn settings (running w e) (tokenOf w id)
          (placeOf settings w id)).run).1.play course (finish id (placeOf settings w id)
            (u.play course (attemptIn settings (running w e) (tokenOf w id)
              (placeOf settings w id)).run).2).run := by
  rw [goOn]
  exact World.play_outcome_bind ..

/-- An ending writes what the table says, if nothing was recorded before. -/
lemma play_finish (course : Runner.Course) {u : World} {e : Execution}
    (hrecord : u.store.logbook.record? id = some e)
    (hrows : u.store.logbook.rowsOf id = []) (hresults : e.results = none)
    (hmessage : e.errorMessage = none) (place : Except Refusal Path)
    (result : Except Error (Runner.Outcome × List Suite)) :
    ∃ v ended, u.play course (finish id place result).run = (v, .ok ended)
      ∧ v.store.logbook.record? id = some ended
      ∧ ended.startTime = e.startTime
      ∧ ended.endTime = some u.now
      ∧ Table id result ended (v.store.logbook.rowsOf id) := by
  obtain ⟨v, rows, hv, hlog, hfor⟩ := advance_finish hrecord place result
  refine ⟨v, _, World.play_of_ended hv, ?_, startTime_closing e u.now result, rfl, ?_⟩
  · rw [hlog, Logbook.record?_addRows, Logbook.record?_put, if_pos rfl]
  · rw [hlog, Logbook.rowsOf_addRows_self hfor.execution, Logbook.rowsOf_put, hrows,
      List.nil_append]
    exact table_closing hresults hmessage hfor

/-- **A run of an execution as it was created ends, and what it leaves is what the table says of its
attempt**: of what was at fault before there was a job, or else of the runner's reply to this job.
The record that it returns is the one that is stored.  What happens to pages, suites and projects
while the runner is at work makes no difference. -/
theorem run_ends {before created w : World} {r : Request} {e : Execution}
    (hstore : before.store.Reachable)
    (hcreate : before.result? (create r) = (created, some (.ok e)))
    (hrecord : w.store.logbook.record? e.id = created.store.logbook.record? e.id)
    (hrows : w.store.logbook.rowsOf e.id = created.store.logbook.rowsOf e.id)
    (hcourse : course.Spares e.id) (settings : RunSettings) :
    ∃ v ended result,
      w.play course (run settings e.id).run = (v, .ok ended)
      ∧ v.store.logbook.record? e.id = some ended
      ∧ ended.startTime = some w.now ∧ ended.endTime.isSome
      ∧ Attempt settings (begun w e.id e) (running w e)
          (fun u job => (course u job (tokenOf w e.id)).2) (placeOf settings w e.id) result
      ∧ Table e.id result ended (v.store.logbook.rowsOf e.id) := by
  obtain ⟨hshape, hfree, hcreated⟩ := create_eq_ok hcreate
  have hfound : w.store.logbook.record? e.id = some e := by
    rw [hrecord, hcreated, Logbook.record?_put, if_pos rfl]
  have hnone : w.store.logbook.rowsOf e.id = [] := by
    rw [hrows, hcreated, Logbook.rowsOf_put]
    exact Logbook.rowsOf_eq_nil hstore.logbook_sound hfree
  have hpending : e.status = .pending := by
    rw [hshape]
    rfl
  have hattempt := play_attempt hcourse settings (running w e) (placeOf settings w e.id)
    (tokenOf w e.id) (begun w e.id e)
  set played := (begun w e.id e).play course
    (attemptIn settings (running w e) (tokenOf w e.id) (placeOf settings w e.id)).run with hplayed
  obtain ⟨hrunning, hnoRows, hgoes⟩ := hattempt
  have hrunning' : played.1.store.logbook.record? e.id = some (running w e) := by
    rw [hrunning, record?_begun]
  have hnoRows' : played.1.store.logbook.rowsOf e.id = [] := by
    rw [hnoRows, begun_store, Logbook.rowsOf_put, hnone]
  have hblank : (running w e).results = none ∧ (running w e).errorMessage = none := by
    rw [hshape]
    exact ⟨rfl, rfl⟩
  obtain ⟨v, ended, hv, hstored, hstart, hend, htable⟩ := play_finish course hrunning' hnoRows'
    hblank.1 hblank.2 (placeOf settings w e.id) played.2
  refine ⟨v, ended, played.2, ?_, hstored, hstart, ?_, hgoes, htable⟩
  · rw [World.play_congr (advance_run_pending settings hfound hpending), play_goOn, ← hplayed, hv]
  · rw [hend]
    rfl

end course

end

/-! ### Worlds with one project -/

section smoke

open scoped Libraries.Lenient

/-- A project without suites. -/
def demoProject : Project := .make ⟨5⟩ "Demo"

/-- A world in which this project is all that is stored. -/
def demoWorld : World :=
  { World.bare with store := Store.empty.callAll [(default, .putProject demoProject)] }

/-- A world in which a project with one suite is all that is stored. -/
def smokeWorld : World :=
  { World.bare with
    store := Store.empty.callAll
      [(default, .putProject (.make ⟨2⟩ "Smoke tests")),
        (default, .putSuite Generation.smokeSuite)] }

/-! ### A run whose runner writes a report -/

/-- The suite is asked for. -/
def smokeRequest : Request := .forSuite ⟨2⟩ ⟨1⟩

def smokeSettings : RunSettings := ⟨⟨"/work"⟩, 1000, .standard⟩

/-- The world in which it has been asked for, ... -/
def requestedWorld : World := (smokeWorld.result? (create smokeRequest)).1

/-- ... and its first execution. -/
def smokeExecution : Execution := smokeRequest.toExecution ⟨1⟩ default

/-- What a runner writes that saw its one case pass. -/
def smokeOutput : Runner.Output :=
  ⟨some 0, "\x7b\"suites\":[\x7b\"title\":\"Smoke\","
    ++ "\"specs\":[\x7b\"title\":\"sends\",\"ok\":true\x7d]\x7d]\x7d", ""⟩

/-- A course that empties the catalog while the runner writes this. -/
def emptying : Runner.Course := fun w _ _ =>
  ({ w with store := { w.store with catalog := .empty } }, .ended (.finished smokeOutput))

/-- Where the execution has its workspace. -/
def smokePlace : Path := ⟨"/work/test_00000000-0000-0000-0000-000000000001"⟩

lemma placeOf_smoke : placeOf smokeSettings requestedWorld ⟨1⟩ = .ok smokePlace := by
  decide +kernel

lemma generates_smoke : (((begun requestedWorld ⟨1⟩ smokeExecution).result?
    (Generation.generate smokeSettings.style [⟨1⟩] smokePlace
      (browserOverride (running requestedWorld smokeExecution).browser))).2.map
        fun x => x.toOption.isSome) = some true := by
  decide +kernel

/-- The report credits its one test to the case of the suite. -/
lemma credited_smoke : ∃ report, ParsedRun.parse smokeOutput.stdout = .ok report
    ∧ ∃ c, (CaseIndex.ofSuites [Generation.smokeSuite]).credit report.outcomes = [c]
      ∧ c.1 = ⟨3⟩ ∧ c.2.verdict = .passed := by
  have hcredited : (ParsedRun.parse smokeOutput.stdout).toOption.map (fun report =>
      ((CaseIndex.ofSuites [Generation.smokeSuite]).credit report.outcomes).map
        fun c => (c.1, c.2.verdict)) = some [(⟨3⟩, .passed)] := by
    decide +kernel
  cases hreport : ParsedRun.parse smokeOutput.stdout with
  | error fault => simp [hreport, Except.toOption] at hcredited
  | ok report =>
      rw [hreport] at hcredited
      obtain ⟨c, hc, hpassed⟩ := List.map_eq_singleton_iff.mp (Option.some.inj hcredited)
      obtain ⟨hcase, hverdict⟩ := Prod.mk.inj hpassed
      exact ⟨report, rfl, c, hc, hcase, hverdict⟩

/-- Generation succeeds, so the attempt is what the runner makes of it. -/
lemma attempt_smoke {reply : World → Job → Reply}
    {result : Except Error (Runner.Outcome × List Suite)}
    (hreply : ∀ v job, reply v job = .ended (.finished smokeOutput))
    (h : Attempt smokeSettings (begun requestedWorld ⟨1⟩ smokeExecution)
      (running requestedWorld smokeExecution) reply (.ok smokePlace) result) :
    result = .ok (.finished smokeOutput, [Generation.smokeSuite]) := by
  have hids : idsOf (begun requestedWorld ⟨1⟩ smokeExecution).store.catalog
      (running requestedWorld smokeExecution) = .ok [⟨1⟩] := rfl
  cases h with
  | unasked hfault => cases hids.symm.trans hfault
  | ungenerated hasked hfault =>
      cases hids.symm.trans hasked
      have hmade := generates_smoke
      rw [hfault] at hmade
      cases hmade
  | replied hasked _ _ =>
      cases hids.symm.trans hasked
      rw [hreply]
      rfl

/-- So the run comes to wait for the runner. -/
lemma waits_smoke : (requestedWorld.advance (run smokeSettings ⟨1⟩).run).2.waits = true := by
  have hrecord : requestedWorld.store.logbook.record? ⟨1⟩ = some smokeExecution := rfl
  rw [advance_run_pending smokeSettings hrecord rfl]
  rcases advance_goOn smokeSettings requestedWorld ⟨1⟩ smokeExecution with
    ⟨tree, fault, -, hgoes⟩ | ⟨tree, job, next, hnext, -⟩
  · rw [placeOf_smoke] at hgoes
    cases attempt_smoke (fun _ _ => rfl) (hgoes fun _ _ => .ended (.finished smokeOutput))
  · rw [hnext]
    rfl

/-- The report is kept, and a row for its case, whatever has become of the suite. -/
theorem run_ends_smoke :
    ∃ v ended report row, requestedWorld.play emptying (run smokeSettings ⟨1⟩).run = (v, .ok ended)
      ∧ v.store.logbook.record? ⟨1⟩ = some ended ∧ ended.endTime.isSome
      ∧ ParsedRun.parse smokeOutput.stdout = .ok report
      ∧ ended.status = .completed ∧ ended.results = some report.document
      ∧ ended.errorMessage = none
      ∧ v.store.logbook.rowsOf ⟨1⟩ = [row] ∧ row.case = ⟨3⟩ ∧ row.verdict = .passed := by
  have hspares : emptying.Spares ⟨1⟩ := ⟨fun _ _ _ => rfl, fun _ _ _ => rfl⟩
  have hcreate : smokeWorld.result? (create smokeRequest)
      = (requestedWorld, some (.ok smokeExecution)) := rfl
  obtain ⟨v, ended, result, hv, hstored, -, hend, hattempt, htable⟩ :=
    run_ends ⟨_, rfl⟩ hcreate rfl rfl hspares smokeSettings
  rw [show smokeExecution.id = ⟨1⟩ from rfl, placeOf_smoke] at hattempt
  have hresult := attempt_smoke (fun _ _ => rfl) hattempt
  obtain ⟨report, hreport, c, hc, hcase, hverdict⟩ := credited_smoke
  obtain ⟨hstatus, hresults, hmessage, hrows⟩ :=
    htable.completed smokeOutput _ report hresult rfl hreport
  rw [hc] at hrows
  obtain ⟨row, hrow, hsame, hpassed⟩ := hrows.singleton
  exact ⟨v, ended, report, row, hv, hstored, hend, hreport, hstatus, hresults, hmessage, hrow,
    hsame.trans hcase, hpassed.trans hverdict⟩

end smoke

end Run

end Rehearsal
