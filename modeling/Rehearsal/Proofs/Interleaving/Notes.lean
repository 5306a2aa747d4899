import Mathlib
import Rehearsal.Proofs.Consists

/-!
# What calls leave behind

Of what a procedure does, records, rows and announcements can be seen afterwards.  They are noted
in the order in which they come about.

* `World.notes`: the notes of a procedure, until it ends or waits for the runner.
* `Replays`: a world is what it was before, and the notes.  **Every procedure replays**
  (`World.replays_advance`).
* `Run.notes_create_eq`, `notes_cancel`, `notes_run_pending`, `notes_finish`: what each call on
  executions leaves behind, whole.
-/

namespace Rehearsal

open Runner (Job Reply Token)

variable {α β : Type}

/-- A thing that can be seen of an execution. -/
inductive Note where
  | created (execution : Execution)
  /-- An update of a record, and the record then. -/
  | updated (id : Uuid) (update : Update) (record : Execution)
  | added (row : CaseResult)
  | announced (event : Event)
  /-- The runner of the execution has replied. -/
  | replied (id : Uuid) (reply : Reply)

namespace Note

/-- What is to be noted of an operation. -/
def of? : (a : Operation) → a.Answer → Option Note
  | .createRecord e, .ok _ => some (.created e)
  | .updateRecord id u, .ok e => some (.updated id u e)
  | .addRow r, .ok _ => some (.added r)
  | .announce e, _ => some (.announced e)
  | _, _ => none

/-- The execution that the note is about. -/
def execution : Note → Uuid
  | .created e => e.id
  | .updated id _ _ => id
  | .added r => r.execution
  | .announced e => e.execution
  | .replied id _ => id

/-- The event that is announced. -/
def event? : Note → Option Event
  | .announced e => some e
  | _ => none

/-- The row that is added. -/
def row? : Note → Option CaseResult
  | .added r => some r
  | _ => none

/-- The record of an execution, if it is written. -/
def record? (id : Uuid) : Note → Option Execution
  | .created e => if e.id = id then some e else none
  | .updated k _ e => if k = id then some e else none
  | _ => none

end Note

/-! ## The notes of a procedure -/

namespace World

/-- What is noted of a procedure until it ends or waits for the runner. -/
def notes (w : World) : Procedure α → List Note
  | .done _ => []
  | .act a next =>
    (Note.of? a (w.perform a).2).toList ++ (w.perform a).1.notes (next (w.perform a).2)
  | .spawn _ _ _ => []

lemma notes_bind (w : World) (p : Procedure α) (f : α → Procedure β) :
    w.notes (p >>= f) = w.notes p ++ match w.advance p with
      | (v, .ended a) => v.notes (f a)
      | (_, .waiting _ _ _) => [] := by
  induction p generalizing w with
  | done a => rfl
  | act a next ih =>
      refine (congrArg _ (ih _ _)).trans ?_
      rw [← List.append_assoc]
      rfl
  | spawn job token next => rfl

section call

variable {w v : World} {c : Call α} {f : α → Call β}

lemma notes_bind_ok {a : α} (h : w.advance c.run = (v, .ended (.ok a))) :
    w.notes (c >>= f).run = w.notes c.run ++ v.notes (f a).run := by
  rw [ExceptT.run_bind, notes_bind, h]

lemma notes_bind_error {e : Error} (h : w.advance c.run = (v, .ended (.error e))) :
    w.notes (c >>= f).run = w.notes c.run := by
  rw [ExceptT.run_bind, notes_bind, h]
  exact List.append_nil _

lemma notes_bind_waiting {job : Job} {token : Token} {next : Reply → Procedure (Except Error α)}
    (h : w.advance c.run = (v, .waiting job token next)) :
    w.notes (c >>= f).run = w.notes c.run := by
  rw [ExceptT.run_bind, notes_bind, h]
  exact List.append_nil _

lemma notes_sure (p : Procedure α) : w.notes (Call.sure p).run = w.notes p := by
  have hmap : (Call.sure p).run = p >>= fun a => .done (.ok a) := rfl
  rw [hmap, notes_bind]
  rcases w.advance p with ⟨v, a | ⟨job, token, next⟩⟩ <;> exact List.append_nil _

lemma notes_ask (a : Operation) :
    w.notes (Procedure.ask a) = (Note.of? a (w.perform a).2).toList :=
  List.append_nil _

lemma notes_outcome (c : Call α) : w.notes (Call.outcome c).run = w.notes c.run := notes_sure _

end call

end World

/-! ## Replaying -/

/-- A world is another one and the notes that were made since. -/
structure Replays (w : World) (ns : List Note) (v : World) : Prop where
  events : v.events = w.events ++ ns.filterMap Note.event?
  rows : v.store.logbook.rows = w.store.logbook.rows ++ ns.filterMap Note.row?
  record : ∀ id, v.store.logbook.record? id
    = (ns.filterMap (Note.record? id)).getLast?.or (w.store.logbook.record? id)

namespace Replays

variable {w v u : World} {ns ms : List Note}

/-- What is not noted changes nothing that could be seen. -/
lemma of_eq (hevents : v.events = w.events) (hlog : v.store.logbook = w.store.logbook) :
    Replays w [] v where
  events := by rw [hevents, List.filterMap_nil, List.append_nil]
  rows := by rw [hlog, List.filterMap_nil, List.append_nil]
  record id := by
    rw [hlog]
    rfl

lemma refl (w : World) : Replays w [] w := of_eq rfl rfl

lemma trans (h : Replays w ns v) (h' : Replays v ms u) : Replays w (ns ++ ms) u where
  events := by rw [h'.events, h.events, List.filterMap_append, List.append_assoc]
  rows := by rw [h'.rows, h.rows, List.filterMap_append, List.append_assoc]
  record id := by
    rw [h'.record, h.record, List.filterMap_append, List.getLast?_append]
    cases (ms.filterMap (Note.record? id)).getLast? <;> rfl

/-- With a record put. -/
lemma put {id : Uuid} {e : Execution} {n : Note} (hevent : n.event? = none) (hrow : n.row? = none)
    (hrecord : ∀ k, n.record? k = if id = k then some e else none) (w : World) :
    Replays w [n] (w.withLogbook (w.store.logbook.put id e)) where
  events := by simp [hevent, World.withLogbook]
  rows := by simp [hrow, World.withLogbook, Logbook.put]
  record k := by
    have hput : (w.withLogbook (w.store.logbook.put id e)).store.logbook.record? k
        = if k = id then some e else w.store.logbook.record? k := Logbook.record?_put _ _ _ _
    rw [hput]
    by_cases hk : k = id
    · simp [hrecord, hk]
    · simp [hrecord, hk, Ne.symm hk]

end Replays

namespace World

variable {w : World}

/-- Each operation replays. -/
lemma replays_perform (w : World) (a : Operation) :
    Replays w (Note.of? a (w.perform a).2).toList (w.perform a).1 := by
  cases a with
  | createRecord e =>
      rw [perform_createRecord_eq, Logbook.create]
      split_ifs
      · exact .refl w
      · exact .put rfl rfl (fun _ => rfl) w
  | updateRecord id u =>
      cases h : w.store.logbook.record? id with
      | none =>
          rw [perform_updateRecord_missing h]
          exact .refl w
      | some e =>
          rw [perform_updateRecord h]
          exact .put rfl rfl (fun _ => rfl) w
  | addRow r =>
      rw [perform_addRow_eq, Logbook.addRow]
      split_ifs
      · exact ⟨(List.append_nil _).symm, rfl, fun _ => rfl⟩
      · exact .refl w
  | announce e => exact ⟨rfl, (List.append_nil _).symm, fun _ => rfl⟩
  | claimToken id =>
      cases h : w.tokens.get? id with
      | none =>
          rw [w.perform_claimToken_new h]
          exact .of_eq rfl rfl
      | some t =>
          rw [w.perform_claimToken_found h]
          exact .refl w
  | makeDirectory steps =>
      rw [perform_makeDirectory_eq]
      cases w.tree.makeDirectory steps <;> exact .of_eq rfl rfl
  | openFile path =>
      rw [perform_openFile_eq]
      cases w.tree.openFile path <;> exact .of_eq rfl rfl
  | _ => exact .of_eq rfl rfl

/-- **Every procedure replays.** -/
theorem replays_advance (w : World) (p : Procedure α) :
    Replays w (w.notes p) (w.advance p).1 := by
  induction p generalizing w with
  | done a => exact .refl w
  | act a next ih => exact (w.replays_perform a).trans (ih _ _)
  | spawn job token next => exact .refl w

/-- Writing to the logbook is noted if it is carried out. -/
lemma notes_createRecord {e : Execution} (h : w.store.logbook.record? e.id = none) :
    w.notes (Call.createRecord e).run = [.created e] := by
  have hfree : ¬w.store.logbook.records.contains e.id = true := by
    intro hc
    obtain ⟨d, hd⟩ := Table.contains_iff.mp hc
    cases hd.symm.trans h
  refine (w.notes_ask _).trans ?_
  rw [perform_createRecord_eq, Logbook.create, if_neg hfree]
  rfl

lemma notes_createRecord_taken {e d : Execution} (h : w.store.logbook.record? e.id = some d) :
    w.notes (Call.createRecord e).run = [] := by
  refine (w.notes_ask _).trans ?_
  rw [perform_createRecord_eq, Logbook.create, if_pos (Table.contains_iff.mpr ⟨d, h⟩)]
  rfl

lemma notes_updateRecord {id : Uuid} {e : Execution} (h : w.store.logbook.record? id = some e)
    (u : Update) : w.notes (Call.updateRecord id u).run = [.updated id u (e.apply w.now u)] := by
  refine (w.notes_ask _).trans ?_
  rw [perform_updateRecord h]
  rfl

lemma notes_addRow {r : CaseResult} {e : Execution}
    (h : w.store.logbook.record? r.execution = some e) :
    w.notes (Call.addRow r).run = [.added r] := by
  refine (w.notes_ask _).trans ?_
  rw [perform_addRow_eq, Logbook.addRow, if_pos (Table.contains_iff.mpr ⟨e, h⟩)]
  rfl

end World

/-! ## Procedures that leave nothing -/

/-- Nothing is noted of the procedure, up to its job for the runner. -/
def Silent (p : Procedure α) : Prop := ∀ w : World, w.notes p = []

namespace Silent

lemma bind {p : Procedure α} {f : α → Procedure β} (hp : Silent p) (hf : ∀ a, Silent (f a)) :
    Silent (p >>= f) := by
  intro w
  rw [World.notes_bind, hp w]
  rcases w.advance p with ⟨v, a | ⟨job, token, next⟩⟩
  · exact hf a v
  · rfl

lemma bind_call {c : Call α} {f : α → Call β} (hc : Silent c.run) (hf : ∀ a, Silent (f a).run) :
    Silent (c >>= f).run := by
  rw [ExceptT.run_bind]
  refine hc.bind fun x => ?_
  cases x with
  | ok a => exact hf a
  | error e => exact fun _ => rfl

lemma of_consists {P : Operation → Prop} (hP : ∀ a, P a → ∀ answer, Note.of? a answer = none)
    {p : Procedure α} (hp : Consists P p) : Silent p := by
  induction p with
  | done a => exact fun _ => rfl
  | act a next ih =>
      intro w
      rw [World.notes, hP a hp.1, ih _ (hp.2 _)]
      rfl
  | spawn job token next => cases hp

lemma builds {p : Procedure α} (hp : Consists Operation.Builds p) : Silent p := by
  refine of_consists (fun a ha answer => ?_) hp
  cases a <;> first | rfl | cases ha

/-- Looking up a record. -/
lemma record (id : Uuid) : Silent (Call.record id).run := by
  refine of_consists (P := fun a => a = .record id) (fun a ha answer => ?_)
    (.bind_call (.sure (.ask rfl)) fun _ => .found _ _)
  cases ha
  rfl

end Silent

namespace Run

/-- Attempts leave nothing but files. -/
lemma silent_attempt [Libraries] (settings : RunSettings) (e : Execution)
    (place : Except Refusal Path) (token : Token) :
    Silent (attemptIn settings e token place).run := by
  cases place with
  | error r => exact fun w => rfl
  | ok place =>
  refine .bind_call (.builds (consists_suiteIds e)) fun ids => ?_
  refine .bind_call (.builds (Generation.consists_generate ..)) fun made => ?_
  refine .bind_call (.builds (.given _)) fun path => ?_
  intro w
  rfl

/-! ## What endings leave -/

/-- How many rows have a verdict. -/
def tally (v : Verdict) (rows : List CaseResult) : Nat := rows.countP fun r => r.verdict == v

/-- What is noted of the results of a report: its rows, and what is told of them. -/
def kept (id : Uuid) (rows : List CaseResult) : List Note :=
  rows.map .added
    ++ [.announced (.resultsAvailable id (tally .passed rows) (tally .failed rows) rows.length)]

section endings

variable {w : World} {id : Uuid} {e : Execution}

/-- Rows have the verdicts of the outcomes that they are for. -/
lemma RowsFor.countOf {credited : List (Uuid × Outcome)} {rows : List CaseResult}
    (h : RowsFor id credited rows) (v : Verdict) : countOf v credited = tally v rows := by
  induction h with
  | nil => rfl
  | cons hrow _ ih =>
      obtain ⟨rowId, now, rfl⟩ := hrow
      rw [Run.countOf, List.countP_cons, tally, List.countP_cons]
      exact congrArg₂ _ ih rfl

lemma notes_addRows (h : w.store.logbook.record? id = some e) (credited : List (Uuid × Outcome)) :
    ∃ rows, w.notes (addRows id credited).run = rows.map .added ∧ RowsFor id credited rows := by
  induction credited generalizing w with
  | nil => exact ⟨[], rfl, .nil⟩
  | cons c credited ih =>
      let drawn := { w with drawn := w.drawn + 1 }
      let row := CaseResult.ofOutcome w.nextId id c.1 w.now c.2
      have hrow : drawn.advance (Call.addRow row).run
          = (drawn.withLogbook (w.store.logbook.addRows [row]), .ended (.ok ())) :=
        World.advance_addRow h
      obtain ⟨rows, hnotes, hrows⟩ :=
        ih (w := drawn.withLogbook (w.store.logbook.addRows [row])) h
      refine ⟨row :: rows, ?_, .cons ⟨w.nextId, w.now, rfl⟩ hrows⟩
      have hadded : drawn.notes (Call.addRow row).run = [.added row] :=
        World.notes_addRow h
      rw [addRows, World.notes_bind_ok rfl, World.notes_bind_ok rfl, World.notes_bind_ok hrow,
        hadded, hnotes]
      rfl

/-- With a report, its rows are stored before they are told of. -/
lemma notes_keepResults (h : w.store.logbook.record? id = some e) (suites : List Suite)
    (report : Option ParsedRun) :
    ∃ rows, RowsFor id (creditedIn suites report) rows
      ∧ w.notes (keepResults id suites report).run
        = if report.isSome then kept id rows else [] := by
  cases report with
  | none => exact ⟨[], .nil, rfl⟩
  | some run =>
      obtain ⟨rows, hnotes, hrows⟩ :=
        notes_addRows h ((CaseIndex.ofSuites suites).credit run.outcomes)
      obtain ⟨v, -, hv, -, -⟩ :=
        advance_addRows h ((CaseIndex.ofSuites suites).credit run.outcomes)
      refine ⟨rows, hrows, ?_⟩
      rw [keepResults, storeResults, World.notes_bind_ok hv, hnotes, hrows.countOf, hrows.countOf,
        hrows.length_eq]
      rfl

/-- What is noted of a status that is written: the update, the results that come with it, and that
it was written. -/
def written (id : Uuid) (u : Update) (status : Status) (e : Execution)
    (rows : Option (List CaseResult)) : List Note :=
  .updated id u e :: (rows.elim [] (kept id) ++ [.announced (.updated id status u.errorMessage)])

/-- All of it is about one execution. -/
lemma execution_written {u : Update} {status : Status} {rows : Option (List CaseResult)}
    (hrows : ∀ kept, rows = some kept → ∀ r ∈ kept, r.execution = id) :
    ∀ n ∈ written id u status e rows, n.execution = id := by
  have hkept : ∀ n ∈ rows.elim [] (kept id), n.execution = id := by
    cases rows with
    | none => simp
    | some rows =>
        refine List.forall_mem_append.mpr ⟨List.forall_mem_map.mpr (hrows rows rfl), ?_⟩
        exact List.forall_mem_singleton.mpr rfl
  refine List.forall_mem_cons.mpr ⟨rfl, ?_⟩
  exact List.forall_mem_append.mpr ⟨hkept, List.forall_mem_singleton.mpr rfl⟩

/-- An ending is the end of its execution. -/
lemma status_ending [Libraries] (result : Except Error (Runner.Outcome × List Suite)) :
    ∃ status, (ending result).1.status = some status ∧ status.isTerminal = true := by
  rcases result with fault | ⟨o | _, suites⟩
  · exact ⟨.failed, rfl, rfl⟩
  · rw [ending, finished]
    cases ParsedRun.parse o.stdout <;> cases o.success <;> exact ⟨_, rfl, rfl⟩
  · exact ⟨.cancelled, rfl, rfl⟩

/-- **What is noted of an ending.** -/
theorem notes_finish [Libraries] (h : w.store.logbook.record? id = some e)
    (place : Except Refusal Path) (result : Except Error (Runner.Outcome × List Suite)) :
    ∃ status rows, (closing w.now result).status = some status ∧ status.isTerminal = true
      ∧ RowsFor id (creditedBy result) rows
      ∧ w.notes (finish id place result).run
        = written id (closing w.now result) status (e.apply w.now (closing w.now result))
          (if (ending result).2.1.isSome then some rows else none) := by
  have hupdate := World.advance_updateRecord h (closing w.now result)
  let recorded := e.apply w.now (closing w.now result)
  let after := w.withLogbook (w.store.logbook.put id recorded)
  have hfound : after.store.logbook.record? id = some recorded :=
    (Logbook.record?_put ..).trans (if_pos rfl)
  obtain ⟨rows, hrows, hkept⟩ := notes_keepResults hfound (ending result).2.2 (ending result).2.1
  obtain ⟨v, -, hv, -, -⟩ := advance_keepResults hfound (ending result).2.2 (ending result).2.1
  obtain ⟨status, hstatus, hterminal⟩ := status_ending result
  obtain ⟨u, -, hu, -, -⟩ := advance_conclude h result
  refine ⟨status, rows, hstatus, hterminal, hrows, ?_⟩
  have hconclude : w.notes (conclude id result).run = written id (closing w.now result) status
      recorded (if (ending result).2.1.isSome then some rows else none) := by
    have htell : v.notes (tell id (ending result).1 >>= fun _ => pure recorded : Call _).run
        = [.announced (.updated id status (closing w.now result).errorMessage)] := by
      rw [tell, hstatus]
      rfl
    rw [conclude_eq, World.notes_bind_ok rfl]
    refine (World.notes_bind_ok hupdate).trans ?_
    rw [World.notes_updateRecord h]
    refine congrArg _ ((World.notes_bind_ok hv).trans ?_)
    rw [hkept, htell]
    split_ifs <;> rfl
  rw [finish, World.notes_bind_ok (World.advance_outcome hu), World.notes_outcome, hconclude]
  cases place <;> exact List.append_nil _

end endings

/-! ## What calls leave -/

section calls

variable {w : World} {id : Uuid} {e : Execution}

/-- A cancellation writes a status and tells of it. -/
theorem notes_cancel (h : w.store.logbook.record? id = some e)
    (hcan : e.status.canBecome .cancelled = true) : w.notes (cancel id).run
      = written id { status := some .cancelled } .cancelled
        (e.apply w.now { status := some .cancelled }) none := by
  have hrecord := w.advance_record id
  rw [h] at hrecord
  have hbecome := become_of_canBecome hcan
  have hupdate := World.advance_updateRecord h { status := some .cancelled }
  refine (World.notes_bind_ok hrecord).trans ?_
  rw [Silent.record id w]
  simp only [hbecome]
  refine (World.notes_bind_ok rfl).trans ?_
  refine (World.notes_bind_ok hupdate).trans ?_
  rw [World.notes_updateRecord h]
  refine congrArg _ ((World.notes_bind_ok rfl).trans ?_)
  split <;> rfl

lemma notes_cancel_otherwise
    (h : ∀ e, w.store.logbook.record? id = some e → e.status.canBecome .cancelled = false) :
    w.notes (cancel id).run = [] := by
  have hrecord := w.advance_record id
  cases hr : w.store.logbook.record? id with
  | none =>
      rw [hr] at hrecord
      exact (World.notes_bind_error hrecord).trans (Silent.record id w)
  | some e =>
      rw [hr] at hrecord
      have hbecome := become_of_not_canBecome (h e hr)
      refine (World.notes_bind_ok hrecord).trans ?_
      rw [Silent.record id w]
      simp only [hbecome]
      rfl

section

variable [Libraries]

lemma notes_run_otherwise (settings : RunSettings)
    (h : ∀ e, w.store.logbook.record? id = some e → e.status ≠ .pending) :
    w.notes (run settings id).run = [] := by
  have hrecord := w.advance_record id
  cases hr : w.store.logbook.record? id with
  | none =>
      rw [hr] at hrecord
      exact (World.notes_bind_error hrecord).trans (Silent.record id w)
  | some e =>
      rw [hr] at hrecord
      rw [run_eq, World.notes_bind_ok hrecord, Silent.record id w, proceed]
      cases hs : e.status with
      | pending => exact absurd hs (h e hr)
      | _ => rfl

/-- A run of a pending execution writes that it is running, and tells of it. -/
theorem notes_run_pending (settings : RunSettings) (h : w.store.logbook.record? id = some e)
    (hpending : e.status = .pending) : w.notes (run settings id).run
      = written id (opening w.now) .running (running w e) none
        ++ (begun w id e).notes (goOn settings w id e).run := by
  have hrecord := w.advance_record id
  rw [h] at hrecord
  have hmark : (claimed w id).notes (Call.updateRecord id (opening w.now)).run
      = [.updated id (opening w.now) (running w e)] := by
    rw [World.notes_updateRecord (record?_claimed h), apply_claimed]
    rfl
  have hquiet : w.notes (Call.claimToken id).run = []
      ∧ (claimed w id).notes Call.clock.run = []
      ∧ (begun w id e).notes (Call.locate (workspace settings.workDir id)).run = [] :=
    ⟨rfl, rfl, rfl⟩
  have htold : (marked w id e).notes (Call.announce (.updated id .running none)).run
      = [.announced (.updated id .running none)] := rfl
  rw [run_eq, World.notes_bind_ok hrecord, Silent.record id w, proceed_pending settings hpending,
    World.notes_bind_ok advance_claim, World.notes_bind_ok advance_clock_claimed,
    World.notes_bind_ok (advance_mark h), World.notes_bind_ok advance_tellRunning,
    World.notes_bind_ok (advance_place settings), hquiet.1, hquiet.2.1, hquiet.2.2, hmark, htold,
    goOn]
  simp only [List.nil_append, written]
  rfl

/-- What a run leaves once it has begun: what it records if it fails by itself, and nothing before
the runner replies. -/
lemma notes_goOn (settings : RunSettings) (w : World) (id : Uuid) (e : Execution) :
    (∃ tree fault, (begun w id e).advance (goOn settings w id e).run
          = ({ begun w id e with tree := tree } : World).advance
            (finish id (placeOf settings w id) (.error fault)).run
        ∧ (begun w id e).notes (goOn settings w id e).run
          = ({ begun w id e with tree := tree } : World).notes
            (finish id (placeOf settings w id) (.error fault)).run)
      ∨ (begun w id e).notes (goOn settings w id e).run = [] := by
  have hsilent := silent_attempt settings (running w e) (placeOf settings w id) (tokenOf w id)
    (begun w id e)
  rcases advance_attempt settings (running w e) (placeOf settings w id) (tokenOf w id)
    (begun w id e) with ⟨tree, fault, hfault, -⟩ | ⟨tree, job, next, hnext, -⟩
  · refine .inl ⟨tree, fault, World.advance_bind_ok (World.advance_outcome hfault), ?_⟩
    rw [goOn, World.notes_bind_ok (World.advance_outcome hfault), World.notes_outcome, hsilent,
      List.nil_append]
  · right
    rw [goOn, World.notes_bind_waiting (World.advance_outcome_waiting hnext),
      World.notes_outcome, hsilent]

/-- A run that waits for the runner has told of its beginning only. -/
lemma notes_run_waiting {settings : RunSettings} {v : World} {job : Job} {token : Token}
    {next : Reply → Procedure (Except Error Execution)}
    (h : w.store.logbook.record? id = some e) (hpending : e.status = .pending)
    (hwaits : w.advance (run settings id).run = (v, .waiting job token next)) :
    w.notes (run settings id).run
      = written id (opening w.now) .running (running w e) none := by
  rw [notes_run_pending settings h hpending]
  rcases notes_goOn settings w id e with ⟨tree, fault, hfault, -⟩ | hnotes
  · obtain ⟨_, _, hended, -⟩ := advance_finish (w := { begun w id e with tree := tree })
      (record?_begun w id e) (placeOf settings w id) (.error fault)
    rw [advance_run_pending settings h hpending, hfault, hended] at hwaits
    cases hwaits
  · rw [hnotes, List.append_nil]

end

lemma notes_enroll (r : Request) (h : w.store.logbook.record? w.nextId = none) :
    w.notes (enroll r).run
      = [.created (enrolled w r), .announced (.ofExecution (enrolled w r))] := by
  have hid : w.advance Call.freshId.run
      = ({ w with drawn := w.drawn + 1 }, .ended (.ok w.nextId)) := rfl
  have hcreated := World.advance_createRecord (w := { w with drawn := w.drawn + 1 })
    (e := enrolled w r) h
  have hnoted := World.notes_createRecord (w := { w with drawn := w.drawn + 1 })
    (e := enrolled w r) h
  refine (World.notes_bind_ok hid).trans ?_
  refine (World.notes_bind_ok rfl).trans ?_
  refine (World.notes_bind_ok hcreated).trans ?_
  rw [hnoted]
  rfl

lemma notes_enroll_taken {d : Execution} (r : Request)
    (h : w.store.logbook.record? w.nextId = some d) : w.notes (enroll r).run = [] := by
  have hid : w.advance Call.freshId.run
      = ({ w with drawn := w.drawn + 1 }, .ended (.ok w.nextId)) := rfl
  have htaken := World.advance_createRecord_taken (w := { w with drawn := w.drawn + 1 })
    (e := enrolled w r) h
  refine (World.notes_bind_ok hid).trans ?_
  refine (World.notes_bind_ok rfl).trans ?_
  exact (World.notes_bind_error htaken).trans (World.notes_createRecord_taken h)

lemma consists_checkSuite (r : Request) : Consists Operation.Builds (checkSuite r).run := by
  rw [checkSuite]
  split
  · trivial
  · refine .bind_call (Call.consists_suite _) fun s => ?_
    split_ifs <;> trivial

lemma notes_create_eq (w : World) (r : Request) :
    w.notes (create r).run = match admission w.store.catalog r with
      | .error _ => []
      | .ok _ => w.notes (enroll r).run := by
  have hcreate : create r
      = Call.project r.project >>= fun _ => checkSuite r >>= fun _ => enroll r := rfl
  have hproject := w.advance_project r.project
  have hsuite := advance_checkSuite w r
  have hlooking : w.notes (Call.project r.project).run = [] ∧ w.notes (checkSuite r).run = [] :=
    ⟨Silent.builds (Call.consists_project _) w, Silent.builds (consists_checkSuite r) w⟩
  rw [hcreate, admission]
  cases hp : foundOr (.unknownProject r.project) (w.store.catalog.project? r.project) with
  | error fault =>
      rw [hp] at hproject
      rw [World.notes_bind_error hproject]
      exact hlooking.1
  | ok p =>
      rw [hp] at hproject
      rw [World.notes_bind_ok hproject, hlooking.1]
      cases hs : suiteAdmission w.store.catalog r with
      | error fault =>
          rw [hs] at hsuite
          rw [World.notes_bind_error hsuite]
          exact hlooking.2
      | ok _ =>
          rw [hs] at hsuite
          rw [World.notes_bind_ok hsuite, hlooking.2]
          rfl

end calls

end Run

end Rehearsal
