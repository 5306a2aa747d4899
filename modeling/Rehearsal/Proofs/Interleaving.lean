import Mathlib
import Rehearsal.Proofs.Ending

/-!
# Calls that interleave

Any number of calls on executions share one world.  A run is taken in two steps, up to its runner
and from there on, and between the two anything may happen.

* `Scene`: a world, and the runs whose runners are at work.  `Scene.Step` is a single step.
* `Consistent`: what holds of a record and the rows of its execution.
* `Scene.Sound`: the invariant.  **Each run at work owes its execution an ending**
  (`Owing`), and no execution is owed two.
* `Scene.Keeps`: what a step may do to a record that is there.
* `Scene.records_consistent`: in every scene that steps lead to, all records are consistent, and
  later steps change them only as they may.
-/

namespace Rehearsal

open Runner (Job Reply Token)
open Relation (ReflTransGen)

/-! ## Scenes -/

/-- A run whose runner is at work: how it goes on after the reply. -/
structure Flight where
  id : Uuid
  next : Reply → Procedure (Except Error Execution)

/-- A world, and the runs whose runners are at work. -/
structure Scene where
  world : World
  flights : List Flight

/-- A run that came to wait for its runner is one at work. -/
def Flight.of (id : Uuid) : World.Rest (Except Error Execution) → List Flight
  | .ended _ => []
  | .waiting _ _ next => [⟨id, next⟩]

lemma Flight.id_of {id : Uuid} {rest : World.Rest (Except Error Execution)} {f : Flight}
    (hf : f ∈ Flight.of id rest) : f.id = id := by
  cases rest with
  | ended x => cases hf
  | waiting job token next =>
      obtain rfl := List.mem_singleton.mp hf
      rfl

lemma Flight.nodup_of (id : Uuid) (rest : World.Rest (Except Error Execution)) :
    ((Flight.of id rest).map Flight.id).Nodup := by
  cases rest with
  | ended x => exact List.nodup_nil
  | waiting job token next => exact List.nodup_singleton id

namespace Scene

/-- A single step. -/
inductive Step [Libraries] : Scene → Scene → Prop
  | create (w : World) (fs : List Flight) (r : Request) :
      Step ⟨w, fs⟩ ⟨(w.advance (Run.create r).run).1, fs⟩
  | cancel (w : World) (fs : List Flight) (id : Uuid) :
      Step ⟨w, fs⟩ ⟨(w.advance (Run.cancel id).run).1, fs⟩
  /-- A run up to its runner, or to its end if it does not come so far. -/
  | call (w : World) (fs : List Flight) (settings : RunSettings) (id : Uuid) :
      Step ⟨w, fs⟩ ⟨(w.advance (Run.run settings id).run).1,
        fs ++ Flight.of id (w.advance (Run.run settings id).run).2⟩
  /-- A run from its runner's reply on. -/
  | reply (w : World) (before : List Flight) (f : Flight) (after : List Flight) (r : Reply) :
      Step ⟨w, before ++ f :: after⟩ ⟨(w.advance (f.next r)).1,
        before ++ Flight.of f.id (w.advance (f.next r)).2 ++ after⟩
  /-- Anything else that leaves the logbook alone. -/
  | other (w v : World) (fs : List Flight) (h : v.store.logbook = w.store.logbook) :
      Step ⟨w, fs⟩ ⟨v, fs⟩

/-- Nothing has been recorded yet. -/
def Initial (s : Scene) : Prop := s.world.store.logbook = .empty ∧ s.flights = []

/-- What steps lead to. -/
def Reachable [Libraries] (s : Scene) : Prop := ∃ start, Initial start ∧ ReflTransGen Step start s

/-- The record of an execution. -/
def record? (s : Scene) (id : Uuid) : Option Execution := s.world.store.logbook.record? id

/-- The rows of an execution. -/
def rowsOf (s : Scene) (id : Uuid) : List CaseResult := s.world.store.logbook.rowsOf id

/-- A run of the execution has its runner at work. -/
def InFlight (s : Scene) (id : Uuid) : Prop := ∃ f ∈ s.flights, f.id = id

end Scene

/-! ## Records -/

/-- What holds of a record and the rows of its execution. -/
structure Consistent (e : Execution) (rows : List CaseResult) : Prop where
  pending : e.status = .pending →
    e.startTime = none ∧ e.endTime = none ∧ e.results = none ∧ e.errorMessage = none
  running : e.status = .running →
    e.startTime.isSome ∧ e.endTime = none ∧ e.results = none ∧ e.errorMessage = none
  completed : e.status = .completed →
    e.startTime.isSome ∧ e.endTime.isSome ∧ e.results.isSome ∧ e.errorMessage = none
  failed : e.status = .failed → e.startTime.isSome ∧ e.endTime.isSome ∧ e.errorMessage.isSome
  ended : e.endTime.isSome → e.startTime.isSome ∧ e.status.isTerminal
  rows : rows ≠ [] → e.results.isSome

/-- A record whose execution is owed an ending: it runs, or it was cancelled while it ran, and
nothing of an ending is recorded. -/
structure Owing (e : Execution) : Prop where
  status : e.status = .running ∨ e.status = .cancelled
  started : e.startTime.isSome
  endTime : e.endTime = none
  results : e.results = none
  errorMessage : e.errorMessage = none

lemma Status.ne_of_isTerminal {s : Status} (h : s.isTerminal = true) :
    s ≠ .pending ∧ s ≠ .running := by
  constructor <;> rintro rfl <;> cases h

/-- Without results there are no rows. -/
lemma Consistent.rows_eq_nil {e : Execution} {rows : List CaseResult} (h : Consistent e rows)
    (hresults : e.results = none) : rows = [] := by
  by_contra hne
  have hsome := h.rows hne
  rw [hresults] at hsome
  cases hsome

/-- A run that has begun, and is owed an ending, has a consistent record. -/
lemma Owing.consistent {e : Execution} (h : Owing e) (hrunning : e.status = .running) :
    Consistent e [] where
  pending hs := by cases hrunning.symm.trans hs
  running _ := ⟨h.started, h.endTime, h.results, h.errorMessage⟩
  completed hs := by cases hrunning.symm.trans hs
  failed hs := by cases hrunning.symm.trans hs
  ended hs := by
    rw [h.endTime] at hs
    cases hs
  rows hne := absurd rfl hne

section final

variable {e : Execution} {rows : List CaseResult}

/-- In a final state few things are left to say. -/
lemma Consistent.of_isTerminal (hterminal : e.status.isTerminal = true)
    (hstart : e.startTime.isSome) (hend : e.endTime.isSome)
    (hcompleted : e.status = .completed → e.results.isSome ∧ e.errorMessage = none)
    (hfailed : e.status = .failed → e.errorMessage.isSome)
    (hrows : rows ≠ [] → e.results.isSome) : Consistent e rows where
  pending h := absurd h (Status.ne_of_isTerminal hterminal).1
  running h := absurd h (Status.ne_of_isTerminal hterminal).2
  completed h := ⟨hstart, hend, hcompleted h⟩
  failed h := ⟨hstart, hend, hfailed h⟩
  ended _ := ⟨hstart, hterminal⟩
  rows := hrows

lemma Consistent.of_completed (hstatus : e.status = .completed) (hstart : e.startTime.isSome)
    (hend : e.endTime.isSome) (hresults : e.results.isSome) (hmessage : e.errorMessage = none) :
    Consistent e rows := by
  have hterminal : e.status.isTerminal = true := by
    rw [hstatus]
    rfl
  refine .of_isTerminal hterminal hstart hend (fun _ => ⟨hresults, hmessage⟩) ?_ fun _ => hresults
  intro hfailed
  cases hstatus.symm.trans hfailed

lemma Consistent.of_failed (hstatus : e.status = .failed) (hstart : e.startTime.isSome)
    (hend : e.endTime.isSome) (hmessage : e.errorMessage.isSome)
    (hrows : rows ≠ [] → e.results.isSome) : Consistent e rows := by
  have hterminal : e.status.isTerminal = true := by
    rw [hstatus]
    rfl
  refine .of_isTerminal hterminal hstart hend ?_ (fun _ => hmessage) hrows
  intro hcompleted
  cases hstatus.symm.trans hcompleted

lemma Consistent.of_cancelled (hstatus : e.status = .cancelled) (hstart : e.startTime.isSome)
    (hend : e.endTime.isSome) : Consistent e [] := by
  have hterminal : e.status.isTerminal = true := by
    rw [hstatus]
    rfl
  refine .of_isTerminal hterminal hstart hend ?_ ?_ (fun hne => absurd rfl hne)
  · intro hcompleted
    cases hstatus.symm.trans hcompleted
  · intro hfailed
    cases hstatus.symm.trans hfailed

end final

/-- The update that ends an execution leaves a consistent record. -/
lemma consistent_closing [Libraries] {id : Uuid} {e : Execution} {rows : List CaseResult}
    (h : Owing e)
    (now : Instant) (result : Except Error (Runner.Outcome × List Suite))
    (hrows : Run.RowsFor id (Run.creditedBy result) rows) :
    Consistent (e.apply now (Run.closing now result)) rows := by
  have htable : Run.Table id result (e.apply now (Run.closing now result)) rows :=
    Run.table_closing h.results h.errorMessage hrows
  have hstart : (e.apply now (Run.closing now result)).startTime.isSome := by
    rw [Run.startTime_closing]
    exact h.started
  have hend : (e.apply now (Run.closing now result)).endTime.isSome := rfl
  -- From here on only the table says what the record is.
  generalize e.apply now (Run.closing now result) = ended at htable hstart hend
  rcases result with fault | ⟨o | _, suites⟩
  · obtain ⟨hstatus, -, hmessage, rfl⟩ := htable.fault fault rfl
    exact .of_failed hstatus hstart hend (by simp [hmessage]) fun hne => absurd rfl hne
  · by_cases hcode : o.exitCode = some 0
    · cases hp : ParsedRun.parse o.stdout with
      | ok run =>
          obtain ⟨hstatus, hresults, hmessage, -⟩ := htable.completed o suites run rfl hcode hp
          exact .of_completed hstatus hstart hend (by simp [hresults]) hmessage
      | error cause =>
          obtain ⟨hstatus, -, hmessage, rfl⟩ := htable.unreadable o suites cause rfl hcode hp
          exact .of_failed hstatus hstart hend (by simp [hmessage]) fun hne => absurd rfl hne
    · obtain ⟨hstatus, hmessage⟩ := htable.failed o suites rfl hcode
      refine .of_failed hstatus hstart hend (by simp [hmessage]) fun hne => ?_
      cases hp : ParsedRun.parse o.stdout with
      | ok run => simp [(htable.kept o suites run rfl hcode hp).1]
      | error cause => exact absurd (htable.lost o suites cause rfl hcode hp).2 hne
  · obtain ⟨hstatus, -, -, rfl⟩ := htable.cancelled suites rfl
    exact .of_cancelled hstatus hstart hend

namespace Run

/-- The second half of a run ends, and leaves a consistent record in a final state. -/
lemma advance_finish_consistent [Libraries] {w : World} {id : Uuid} {e : Execution}
    (hrecord : w.store.logbook.record? id = some e) (howing : Owing e)
    (hnone : w.store.logbook.rowsOf id = []) (place : Except Refusal Path)
    (result : Except Error (Runner.Outcome × List Suite)) :
    ∃ v ended, w.advance (finish id place result).run = (v, .ended (.ok ended))
      ∧ v.store.logbook.record? id = some ended
      ∧ ended.status.isTerminal = true
      ∧ Consistent ended (v.store.logbook.rowsOf id)
      ∧ ∀ k ≠ id, v.store.logbook.record? k = w.store.logbook.record? k
        ∧ v.store.logbook.rowsOf k = w.store.logbook.rowsOf k := by
  obtain ⟨v, rows, hv, hlog, hfor⟩ := advance_finish hrecord place result
  have hconsistent := consistent_closing howing w.now result hfor
  refine ⟨v, _, hv, ?_, (hconsistent.ended rfl).2, ?_, fun k hk => ⟨?_, ?_⟩⟩
  · rw [hlog, Logbook.record?_addRows, Logbook.record?_put, if_pos rfl]
  · rw [hlog, Logbook.rowsOf_addRows_self hfor.execution, Logbook.rowsOf_put, hnone,
      List.nil_append]
    exact hconsistent
  · rw [hlog, Logbook.record?_addRows, (Logbook.put_elsewhere _ _ hk).1]
  · rw [hlog, Logbook.rowsOf_addRows_of_ne hfor.execution hk, Logbook.rowsOf_put]

end Run

/-! ## The invariant -/

/-- All that the run does after the reply is to end its execution. -/
def Flight.Closes [Libraries] (f : Flight) : Prop :=
  ∃ place settings suites, ∀ reply : Reply,
    f.next reply = (Run.finish f.id place (Run.attempted settings suites reply)).run

namespace Scene

section

variable [Libraries]

/-- The invariant. -/
structure Sound (s : Scene) : Prop where
  consistent : ∀ id e, s.record? id = some e → Consistent e (s.rowsOf id)
  blank : ∀ id, s.record? id = none → s.rowsOf id = []
  owing : ∀ f ∈ s.flights, ∃ e, s.record? f.id = some e ∧ Owing e
  closes : ∀ f ∈ s.flights, f.Closes
  /-- No execution is owed two endings. -/
  distinct : (s.flights.map Flight.id).Nodup

lemma Initial.sound {s : Scene} (hs : s.Initial) : s.Sound := by
  obtain ⟨hlog, hflights⟩ := hs
  constructor
  case consistent =>
    intro id e he
    rw [record?, hlog] at he
    cases he
  case blank =>
    intro id _
    rw [rowsOf, hlog]
    rfl
  case owing => simp [hflights]
  case closes => simp [hflights]
  case distinct => simp [hflights]

/-- A run at work owes the record that is there. -/
lemma Sound.owing_record {s : Scene} (hs : s.Sound) {f : Flight} (hf : f ∈ s.flights)
    {e : Execution} (he : s.record? f.id = some e) : Owing e := by
  obtain ⟨d, hd, howing⟩ := hs.owing f hf
  rw [he] at hd
  cases hd
  exact howing

/-- What a run at work is owed: an ending of its execution, which has no rows yet. -/
lemma Sound.due {s : Scene} (hs : s.Sound) {f : Flight} (hf : f ∈ s.flights) :
    ∃ e, s.record? f.id = some e ∧ Owing e ∧ s.rowsOf f.id = [] ∧ f.Closes := by
  obtain ⟨e, he, howing⟩ := hs.owing f hf
  have hrows := (hs.consistent f.id e he).rows_eq_nil howing.results
  exact ⟨e, he, howing, hrows, hs.closes f hf⟩

/-! ## What a step can do -/

/-- What a step that writes one record comes to. -/
structure Writes (s : Scene) (id : Uuid) (e : Execution) (t : Scene) : Prop where
  record : t.record? id = some e
  consistent : Consistent e (t.rowsOf id)
  elsewhere : ∀ k ≠ id, t.record? k = s.record? k ∧ t.rowsOf k = s.rowsOf k
  own : ∀ f ∈ t.flights, f.id = id → Owing e ∧ f.Closes
  others : ∀ f ∈ t.flights, f.id ≠ id → f ∈ s.flights
  distinct : (t.flights.map Flight.id).Nodup
  /-- Only what was not there becomes pending. -/
  pending : e.status = .pending → s.record? id = none
  /-- Only an ending that is owed replaces what was cancelled. -/
  before : ∀ d, s.record? id = some d →
    d.status = .pending ∨ d.status = .running ∨ d.status = .cancelled ∧ s.InFlight id

/-- What a step can do: nothing, as far as records go, or write one. -/
def Changes (s t : Scene) : Prop :=
  (t.world.store.logbook = s.world.store.logbook ∧ t.flights = s.flights)
    ∨ ∃ id e, s.Writes id e t

/-- Whatever a step does, the invariant is kept. -/
lemma Sound.changes {s t : Scene} (hs : s.Sound) (h : s.Changes t) : t.Sound := by
  rcases h with ⟨hlog, hflights⟩ | ⟨id, e, h⟩
  · have hrecord : t.record? = s.record? := by
      funext k
      rw [record?, record?, hlog]
    have hrows : t.rowsOf = s.rowsOf := by
      funext k
      rw [rowsOf, rowsOf, hlog]
    constructor
    case consistent => simpa only [hrecord, hrows] using hs.consistent
    case blank => simpa only [hrecord, hrows] using hs.blank
    case owing => simpa only [hrecord, hflights] using hs.owing
    case closes => simpa only [hflights] using hs.closes
    case distinct => simpa only [hflights] using hs.distinct
  · constructor
    case consistent =>
      intro k d hd
      by_cases hk : k = id
      · subst hk
        rw [h.record] at hd
        cases hd
        exact h.consistent
      · rw [(h.elsewhere k hk).1] at hd
        rw [(h.elsewhere k hk).2]
        exact hs.consistent k d hd
    case blank =>
      intro k hnone
      by_cases hk : k = id
      · rw [hk, h.record] at hnone
        cases hnone
      · rw [(h.elsewhere k hk).1] at hnone
        rw [(h.elsewhere k hk).2]
        exact hs.blank k hnone
    case owing =>
      intro f hf
      by_cases hid : f.id = id
      · exact ⟨e, hid ▸ h.record, (h.own f hf hid).1⟩
      · rw [(h.elsewhere f.id hid).1]
        exact hs.owing f (h.others f hf hid)
    case closes =>
      intro f hf
      by_cases hid : f.id = id
      · exact (h.own f hf hid).2
      · exact hs.closes f (h.others f hf hid)
    case distinct => exact h.distinct

end

section changes

variable [Libraries] {w : World} {fs : List Flight}

/-- A run at work has a record that is not pending. -/
lemma Sound.not_pending {s : Scene} (hs : s.Sound) {id : Uuid} {e : Execution}
    (he : s.record? id = some e) (hpending : e.status = .pending) {f : Flight}
    (hf : f ∈ s.flights) : f.id ≠ id := by
  rintro rfl
  rcases (hs.owing_record hf he).status with hrunning | hcancelled
  · cases hpending.symm.trans hrunning
  · cases hpending.symm.trans hcancelled

/-- What is written of an execution that no run is at work on, by a call that may bring one to
work. -/
lemma Writes.of_idle (hs : Sound ⟨w, fs⟩) {id : Uuid} (hidle : ∀ f ∈ fs, f.id ≠ id) {v : World}
    {e : Execution} {rest : World.Rest (Except Error Execution)}
    (hrecord : v.store.logbook.record? id = some e)
    (hconsistent : Consistent e (v.store.logbook.rowsOf id))
    (helse : ∀ k ≠ id, v.store.logbook.record? k = w.store.logbook.record? k
      ∧ v.store.logbook.rowsOf k = w.store.logbook.rowsOf k)
    (hnew : ∀ f ∈ Flight.of id rest, Owing e ∧ f.Closes)
    (hpending : e.status = .pending → w.store.logbook.record? id = none)
    (hbefore : ∀ d, w.store.logbook.record? id = some d → d.status = .pending) :
    Writes ⟨w, fs⟩ id e ⟨v, fs ++ Flight.of id rest⟩ := by
  constructor
  case record => exact hrecord
  case consistent => exact hconsistent
  case elsewhere => exact helse
  case own =>
    intro f hf hid
    rcases List.mem_append.mp hf with hold | hadded
    · exact absurd hid (hidle f hold)
    · exact hnew f hadded
  case others =>
    intro f hf hid
    rcases List.mem_append.mp hf with hold | hadded
    · exact hold
    · exact absurd (Flight.id_of hadded) hid
  case distinct =>
    rw [List.map_append]
    refine List.nodup_append'.mpr ⟨hs.distinct, Flight.nodup_of id rest, ?_⟩
    intro k hk hk'
    obtain ⟨f, hf, rfl⟩ := List.mem_map.mp hk
    obtain ⟨g, hg, hfg⟩ := List.mem_map.mp hk'
    exact hidle f hf (hfg.symm.trans (Flight.id_of hg))
  case pending => exact hpending
  case before => exact fun d hd => .inl (hbefore d hd)

lemma changes_create (hs : Sound ⟨w, fs⟩) (r : Request) :
    Changes ⟨w, fs⟩ ⟨(w.advance (Run.create r).run).1, fs⟩ := by
  rcases Run.advance_create w r with ⟨drawn, fault, hv⟩ | ⟨v, id, hv, hfree, hlog, -⟩
  · rw [hv]
    exact .inl ⟨rfl, rfl⟩
  · have hidle : ∀ f ∈ fs, f.id ≠ id := by
      rintro f hf rfl
      obtain ⟨e, he, -⟩ := hs.owing f hf
      cases hfree.symm.trans he
    have hrows : v.store.logbook.rowsOf id = [] := by
      rw [hlog, Logbook.rowsOf_put]
      exact hs.blank id hfree
    have hwrites : Writes ⟨w, fs⟩ id (r.toExecution id w.now)
        ⟨v, fs ++ Flight.of id (.ended (.ok (r.toExecution id w.now)))⟩ := by
      refine .of_idle hs hidle ?_ ?_ ?_ ?_ (fun _ => hfree) ?_
      · rw [hlog, Logbook.record?_put, if_pos rfl]
      · rw [hrows]
        constructor <;> simp [Request.toExecution]
      · rw [hlog]
        exact fun k hk => Logbook.put_elsewhere _ _ hk
      · intro f hf
        cases hf
      · intro d hd
        cases hfree.symm.trans hd
    rw [Flight.of, List.append_nil] at hwrites
    rw [hv]
    exact .inr ⟨id, _, hwrites⟩

/-- What has not ended has neither an ending nor rows. -/
lemma Sound.unended (hs : Sound ⟨w, fs⟩) {id : Uuid} {e : Execution}
    (he : w.store.logbook.record? id = some e)
    (hstatus : e.status = .pending ∨ e.status = .running) :
    e.endTime = none ∧ e.results = none ∧ e.errorMessage = none
      ∧ w.store.logbook.rowsOf id = [] := by
  have hconsistent := hs.consistent id e he
  have hblank : e.endTime = none ∧ e.results = none ∧ e.errorMessage = none := by
    rcases hstatus with hpending | hrunning
    · exact (hconsistent.pending hpending).2
    · exact (hconsistent.running hrunning).2
  exact ⟨hblank.1, hblank.2.1, hblank.2.2, hconsistent.rows_eq_nil hblank.2.1⟩

/-- What is cancelled keeps owing what it owed. -/
lemma changes_cancel (hs : Sound ⟨w, fs⟩) (id : Uuid) :
    Changes ⟨w, fs⟩ ⟨(w.advance (Run.cancel id).run).1, fs⟩ := by
  rcases Run.advance_cancel_cases w id with ⟨e, v, he, hbefore, hv, hlog⟩ | ⟨-, fault, hv⟩
  · obtain ⟨hend, -, -, hrows⟩ := hs.unended he hbefore
    rw [hv]
    refine .inr ⟨id, e.apply w.now { status := some .cancelled }, ?_⟩
    constructor
    case record => rw [record?, hlog, Logbook.record?_put, if_pos rfl]
    case consistent =>
      rw [rowsOf, hlog, Logbook.rowsOf_put, hrows]
      constructor <;> simp [Execution.apply, hend]
    case elsewhere =>
      intro k hk
      rw [record?, rowsOf, hlog]
      exact Logbook.put_elsewhere _ _ hk
    case own =>
      rintro f hf rfl
      have howing := hs.owing_record hf he
      exact ⟨⟨.inr rfl, howing.started, howing.endTime, howing.results, howing.errorMessage⟩,
        hs.closes f hf⟩
    case others => exact fun f hf _ => hf
    case distinct => exact hs.distinct
    case pending =>
      intro hpending
      cases hpending
    case before =>
      intro d hd
      cases he.symm.trans hd
      exact hbefore.imp_right .inl
  · rw [hv]
    exact .inl ⟨rfl, rfl⟩

/-- With its beginning a run comes to owe an ending. -/
lemma Sound.owing_running (hs : Sound ⟨w, fs⟩) {id : Uuid} {e : Execution}
    (he : w.store.logbook.record? id = some e) (hpending : e.status = .pending) :
    Owing (Run.running w e) ∧ w.store.logbook.rowsOf id = [] := by
  obtain ⟨hend, hresults, hmessage, hrows⟩ := hs.unended he (.inl hpending)
  exact ⟨⟨.inl rfl, rfl, hend, hresults, hmessage⟩, hrows⟩

/-- What a run writes of an execution that it has begun. -/
lemma Writes.of_begun (hs : Sound ⟨w, fs⟩) {id : Uuid} {e d : Execution}
    (he : w.store.logbook.record? id = some e) (hpending : e.status = .pending) {v : World}
    {rest : World.Rest (Except Error Execution)} (hrecord : v.store.logbook.record? id = some d)
    (hstatus : d.status ≠ .pending) (hconsistent : Consistent d (v.store.logbook.rowsOf id))
    (helse : ∀ k ≠ id,
      v.store.logbook.record? k = (Run.begun w id e).store.logbook.record? k
        ∧ v.store.logbook.rowsOf k = (Run.begun w id e).store.logbook.rowsOf k)
    (hnew : ∀ f ∈ Flight.of id rest, Owing d ∧ f.Closes) :
    Writes ⟨w, fs⟩ id d ⟨v, fs ++ Flight.of id rest⟩ := by
  refine .of_idle hs (fun f hf => hs.not_pending he hpending hf) hrecord hconsistent
    (fun k hk => ?_) hnew (fun hp => absurd hp hstatus) fun c hc => ?_
  · obtain ⟨hrecordOf, hrowsOf⟩ := helse k hk
    rw [hrecordOf, hrowsOf, Run.begun_store]
    exact Logbook.put_elsewhere _ _ hk
  · cases he.symm.trans hc
    exact hpending

/-- A run of a pending execution fails at once, or it comes to owe an ending; any other run is
refused. -/
lemma changes_call (hs : Sound ⟨w, fs⟩) (settings : RunSettings) (id : Uuid) :
    Changes ⟨w, fs⟩ ⟨(w.advance (Run.run settings id).run).1,
      fs ++ Flight.of id (w.advance (Run.run settings id).run).2⟩ := by
  have hstarts := Run.starts settings w id
  generalize w.advance (Run.run settings id).run = gone at hstarts ⊢
  cases hstarts with
  | @fails e he hpending tree fault =>
      obtain ⟨howing, hrows⟩ := hs.owing_running he hpending
      obtain ⟨v, ended, hv, hrecord, hterminal, hconsistent, helse⟩ :=
        Run.advance_finish_consistent (w := { Run.begun w id e with tree := tree })
          (Run.record?_begun w id e) howing hrows (Run.placeOf settings w id) (.error fault)
      rw [hv]
      refine .inr ⟨id, ended, .of_begun hs he hpending hrecord
        (Status.ne_of_isTerminal hterminal).1 hconsistent helse fun f hf => ?_⟩
      cases hf
  | @waits e he hpending tree job next hafter =>
      obtain ⟨howing, hrows⟩ := hs.owing_running he hpending
      have hconsistent : Consistent (Run.running w e) (w.store.logbook.rowsOf id) := by
        rw [hrows]
        exact howing.consistent rfl
      refine .inr ⟨id, Run.running w e, .of_begun hs he hpending (Run.record?_begun w id e)
        (fun hp => by cases hp) hconsistent (fun _ _ => ⟨rfl, rfl⟩) fun f hf => ?_⟩
      obtain rfl := List.mem_singleton.mp hf
      exact ⟨howing, Run.placeOf settings w id, settings,
        Run.suitesOf w.store.catalog (Run.running w e), hafter⟩
  | refused fault =>
      rw [Flight.of, List.append_nil]
      exact .inl ⟨rfl, rfl⟩
  | declined hrecord hcancelled =>
      rw [Flight.of, List.append_nil]
      exact .inl ⟨rfl, rfl⟩

/-- With its reply a run pays what it owes, also if it was cancelled in the meantime. -/
lemma changes_reply {before after : List Flight} {f : Flight}
    (hs : Sound ⟨w, before ++ f :: after⟩) (r : Reply) :
    Changes ⟨w, before ++ f :: after⟩ ⟨(w.advance (f.next r)).1,
      before ++ Flight.of f.id (w.advance (f.next r)).2 ++ after⟩ := by
  have hmem : f ∈ before ++ f :: after := List.mem_append_right before List.mem_cons_self
  obtain ⟨e, he, howing, hrows, place, settings, suites, hclose⟩ := hs.due hmem
  obtain ⟨v, ended, hv, hrecord, hterminal, hconsistent, helse⟩ :=
    Run.advance_finish_consistent he howing hrows place (Run.attempted settings suites r)
  rw [hclose, hv, Flight.of, List.append_nil]
  have hdistinct : (f.id :: (before ++ after).map Flight.id).Nodup := by
    have hperm : (before ++ f :: after).Perm (f :: (before ++ after)) := List.perm_middle
    exact (hperm.map Flight.id).nodup_iff.mp hs.distinct
  obtain ⟨hother, hrest⟩ := List.nodup_cons.mp hdistinct
  refine .inr ⟨f.id, ended, ?_⟩
  constructor
  case record => exact hrecord
  case consistent => exact hconsistent
  case elsewhere => exact helse
  case own => exact fun g hg hid => absurd (hid ▸ List.mem_map_of_mem hg) hother
  case others =>
    intro g hg _
    rcases List.mem_append.mp hg with hbefore | hafter
    · exact List.mem_append_left _ hbefore
    · exact List.mem_append_right _ (List.mem_cons_of_mem f hafter)
  case distinct => exact hrest
  case pending => exact fun hp => absurd hp (Status.ne_of_isTerminal hterminal).1
  case before =>
    intro d hd
    cases he.symm.trans hd
    rcases howing.status with hrunning | hcancelled
    · exact .inr (.inl hrunning)
    · exact .inr (.inr ⟨hcancelled, f, hmem, rfl⟩)

end changes

/-- Each step does one of these things. -/
lemma Step.changes [Libraries] {s t : Scene} (h : Step s t) (hs : s.Sound) : s.Changes t := by
  cases h with
  | create w fs r => exact changes_create hs r
  | cancel w fs id => exact changes_cancel hs id
  | call w fs settings id => exact changes_call hs settings id
  | reply w before f after r => exact changes_reply hs r
  | other w v fs hlog => exact .inl ⟨hlog, rfl⟩

lemma Reachable.sound [Libraries] {s : Scene} (hs : s.Reachable) : s.Sound := by
  obtain ⟨start, hstart, hsteps⟩ := hs
  induction hsteps with
  | refl => exact hstart.sound
  | tail _ hstep ih => exact ih.changes (hstep.changes ih)

/-! ## What becomes of a record -/

/-- What may become of a record between two scenes. -/
structure Becomes (s : Scene) (id : Uuid) (e : Execution) (t : Scene) (d : Execution) : Prop where
  pending : d.status = .pending → e.status = .pending
  final : e.status = .completed ∨ e.status = .failed → d = e
  cancelled : e.status = .cancelled → ¬s.InFlight id → d = e ∧ ¬t.InFlight id

/-- Records stay, and become only what they may. -/
def Keeps (s t : Scene) : Prop :=
  ∀ id e, s.record? id = some e → ∃ d, t.record? id = some d ∧ s.Becomes id e t d

lemma Keeps.refl (s : Scene) : s.Keeps s :=
  fun _ e he => ⟨e, he, id, fun _ => rfl, fun _ hnone => ⟨rfl, hnone⟩⟩

lemma Keeps.trans {s t u : Scene} (hst : s.Keeps t) (htu : t.Keeps u) : s.Keeps u := by
  intro id e he
  obtain ⟨d, hd, hed⟩ := hst id e he
  obtain ⟨c, hc, hdc⟩ := htu id d hd
  refine ⟨c, hc, ?_⟩
  constructor
  case pending => exact fun hp => hed.pending (hdc.pending hp)
  case final =>
    intro hfinal
    obtain rfl := hed.final hfinal
    exact hdc.final hfinal
  case cancelled =>
    intro hcancelled hnone
    obtain ⟨rfl, hnone'⟩ := hed.cancelled hcancelled hnone
    exact hdc.cancelled hcancelled hnone'

section

variable [Libraries]

/-- Whatever a step does, records become only what they may. -/
lemma Changes.keeps {s t : Scene} (h : s.Changes t) : s.Keeps t := by
  intro k c hc
  rcases h with ⟨hlog, hflights⟩ | ⟨id, e, h⟩
  · refine ⟨c, ?_, fun hp => hp, fun _ => rfl, fun _ hnone => ⟨rfl, ?_⟩⟩
    · rw [record?, hlog]
      exact hc
    · rw [InFlight, hflights]
      exact hnone
  by_cases hk : k = id
  · subst hk
    refine ⟨e, h.record, ?_⟩
    constructor
    case pending =>
      intro hp
      cases (h.pending hp).symm.trans hc
    case final =>
      intro hfinal
      rcases h.before c hc with hs | hs | ⟨hs, -⟩ <;> simp [hs] at hfinal
    case cancelled =>
      intro hcancelled hnone
      rcases h.before c hc with hs | hs | ⟨-, hflight⟩
      · cases hs.symm.trans hcancelled
      · cases hs.symm.trans hcancelled
      · exact absurd hflight hnone
  · refine ⟨c, (h.elsewhere k hk).1.trans hc, fun hp => hp, fun _ => rfl, fun _ hnone => ⟨rfl, ?_⟩⟩
    rintro ⟨f, hf, hid⟩
    exact hnone ⟨f, h.others f hf (hid ▸ hk), hid⟩

/-- However calls and replies follow each other, records become only what they may. -/
lemma Sound.keeps {s t : Scene} (hs : s.Sound) (h : ReflTransGen Step s t) : s.Keeps t := by
  have hboth : t.Sound ∧ s.Keeps t := by
    induction h with
    | refl => exact ⟨hs, .refl s⟩
    | tail _ hstep ih =>
        obtain ⟨hsound, hkeeps⟩ := ih
        have hchanges := hstep.changes hsound
        exact ⟨hsound.changes hchanges, hkeeps.trans hchanges.keeps⟩
  exact hboth.2

/-- **Records are consistent in every order of steps.**  No later step makes one pending again, or
touches one that is completed or failed; one that was cancelled changes only if a run of its
execution had its runner at work. -/
theorem records_consistent {s : Scene} (hs : s.Reachable) {id : Uuid} {e : Execution}
    (he : s.record? id = some e) :
    Consistent e (s.rowsOf id)
      ∧ ∀ t, ReflTransGen Step s t → ∃ d, t.record? id = some d
        ∧ (e.status ≠ .pending → d.status ≠ .pending)
        ∧ (e.status = .completed ∨ e.status = .failed → d = e)
        ∧ (e.status = .cancelled → d ≠ e → s.InFlight id) := by
  have hsound := hs.sound
  refine ⟨hsound.consistent id e he, fun t ht => ?_⟩
  obtain ⟨d, hd, hbecomes⟩ := hsound.keeps ht id e he
  refine ⟨d, hd, fun hne hp => hne (hbecomes.pending hp), hbecomes.final, ?_⟩
  intro hcancelled hne
  by_contra hnone
  exact hne (hbecomes.cancelled hcancelled hnone).1

end

section

open scoped Libraries.Lenient

/-- An execution that was created and cancelled stays as it is. -/
theorem records_consistent_cancelled :
    ∃ s e, s.Reachable ∧ s.record? ⟨1⟩ = some e ∧ Consistent e (s.rowsOf ⟨1⟩)
      ∧ ∀ t, ReflTransGen Step s t → t.record? ⟨1⟩ = some e := by
  let start : Scene := ⟨Run.demoWorld, []⟩
  let created : Scene := ⟨(Run.demoWorld.advance (Run.create (.forProject ⟨5⟩)).run).1, []⟩
  let cancelled : Scene := ⟨(created.world.advance (Run.cancel ⟨1⟩).run).1, []⟩
  have hreachable : cancelled.Reachable :=
    ⟨start, ⟨rfl, rfl⟩, (ReflTransGen.single (.create Run.demoWorld [] (.forProject ⟨5⟩))).tail
      (.cancel created.world [] ⟨1⟩)⟩
  obtain ⟨e, he, hstatus⟩ : ∃ e, cancelled.record? ⟨1⟩ = some e ∧ e.status = .cancelled :=
    ⟨_, rfl, rfl⟩
  obtain ⟨hconsistent, hlater⟩ := records_consistent hreachable he
  refine ⟨cancelled, e, hreachable, he, hconsistent, fun t ht => ?_⟩
  obtain ⟨d, hd, -, -, hkept⟩ := hlater t ht
  by_cases hde : d = e
  · rw [hd, hde]
  · obtain ⟨f, hf, -⟩ := hkept hstatus hde
    cases hf

end

end Scene

end Rehearsal
