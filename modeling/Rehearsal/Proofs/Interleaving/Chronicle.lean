import Mathlib
import Rehearsal.Proofs.Interleaving
import Rehearsal.Proofs.Interleaving.Notes

/-!
# Events replay to the record

While calls interleave, everything that can be seen of their executions is noted.  The notes of one
execution tell a story: it is created, and then its status is written again and again, each time
with the results that come with it and with the event that tells of it.

* `Scene.Turn`: a step of a scene, and what is noted of it.  `Chronicle`: any number of them.
* `Passage`: what is noted of **one status that is written**.
* `Story`: the notes of one execution, with its record then.  Each turn continues the story of
  every execution (`Turn.continues`).
* `Chronicle.events_replay`: the events of an execution are its creation and **one event for each
  status that was written**, and results are told of right before the event that tells of the end.
-/

namespace Rehearsal

open Runner (Job Reply Token)

/-! ## Turns -/

namespace Scene

section

variable [Libraries]

/-- A single step, and what is noted of it. -/
inductive Turn : Scene → List Note → Scene → Prop
  | create (w : World) (fs : List Flight) (r : Request) :
      Turn ⟨w, fs⟩ (w.notes (Run.create r).run) ⟨(w.advance (Run.create r).run).1, fs⟩
  | cancel (w : World) (fs : List Flight) (id : Uuid) :
      Turn ⟨w, fs⟩ (w.notes (Run.cancel id).run) ⟨(w.advance (Run.cancel id).run).1, fs⟩
  /-- A run up to its runner, or to its end if it does not come so far. -/
  | call (w : World) (fs : List Flight) (settings : RunSettings) (id : Uuid) :
      Turn ⟨w, fs⟩ (w.notes (Run.run settings id).run)
        ⟨(w.advance (Run.run settings id).run).1,
          fs ++ Flight.of id (w.advance (Run.run settings id).run).2⟩
  /-- A run from its runner's reply on. -/
  | reply (w : World) (before : List Flight) (f : Flight) (after : List Flight) (r : Reply) :
      Turn ⟨w, before ++ f :: after⟩ (.replied f.id r :: w.notes (f.next r))
        ⟨(w.advance (f.next r)).1, before ++ Flight.of f.id (w.advance (f.next r)).2 ++ after⟩
  /-- Entities are stored, files change, and time passes. -/
  | edit (w : World) (fs : List Flight) (catalog : Catalog) (tree : FileTree) (now : Instant) :
      Turn ⟨w, fs⟩ []
        ⟨{ w with store := { w.store with catalog := catalog }, tree := tree, now := now }, fs⟩

lemma Turn.step {s t : Scene} {ns : List Note} (h : Turn s ns t) : Step s t := by
  cases h with
  | create w fs r => exact .create w fs r
  | cancel w fs id => exact .cancel w fs id
  | call w fs settings id => exact .call w fs settings id
  | reply w before f after r => exact .reply w before f after r
  | edit w fs catalog tree now => exact .other w _ fs rfl

lemma Turn.replays {s t : Scene} {ns : List Note} (h : Turn s ns t) :
    Replays s.world ns t.world := by
  cases h with
  | create w fs r => exact w.replays_advance _
  | cancel w fs id => exact w.replays_advance _
  | call w fs settings id => exact w.replays_advance _
  | reply w before f after r => exact ⟨(w.replays_advance _).events, (w.replays_advance _).rows,
      (w.replays_advance _).record⟩
  | edit w fs catalog tree now => exact .of_eq rfl rfl

end

/-- Nothing has been recorded or told yet. -/
def Begins (s : Scene) : Prop := s.Initial ∧ s.world.events = []

end Scene

/-- What is noted while a scene changes turn by turn. -/
inductive Chronicle [Libraries] (start : Scene) : List Note → Scene → Prop
  | start : Chronicle start [] start
  | next {ns ms : List Note} {s t : Scene} (h : Chronicle start ns s) (turn : s.Turn ms t) :
      Chronicle start (ns ++ ms) t

namespace Chronicle

variable {start s : Scene} {ns : List Note}

lemma replays [Libraries] (h : Chronicle start ns s) : Replays start.world ns s.world := by
  induction h with
  | start => exact .refl _
  | next _ turn ih => exact ih.trans turn.replays

lemma sound [Libraries] (h : Chronicle start ns s) (hstart : start.Initial) : s.Sound := by
  induction h with
  | start => exact hstart.sound
  | next _ turn ih => exact ih.changes (turn.step.changes ih)

end Chronicle

/-! ## What is noted of one execution -/

/-- The notes about an execution. -/
def about (id : Uuid) (ns : List Note) : List Note := ns.filter fun n => n.execution = id

section about

variable {id k : Uuid} {ns ms : List Note}

lemma about_append : about id (ns ++ ms) = about id ns ++ about id ms := List.filter_append ..

lemma about_self (h : ∀ n ∈ ns, n.execution = id) : about id ns = ns :=
  List.filter_eq_self.mpr fun n hn => decide_eq_true (h n hn)

lemma about_other (h : ∀ n ∈ ns, n.execution = k) (hk : k ≠ id) : about id ns = [] :=
  List.filter_eq_nil_iff.mpr fun n hn hid => hk ((h n hn).symm.trans (of_decide_eq_true hid))

/-- What is read off the notes of an execution is what concerns it. -/
lemma filter_filterMap {α : Type} {f : Note → Option α} {execution : α → Uuid}
    (h : ∀ n a, f n = some a → execution a = n.execution) (id : Uuid) (ns : List Note) :
    (ns.filterMap f).filter (fun a => execution a = id) = (about id ns).filterMap f := by
  induction ns with
  | nil => rfl
  | cons n ns ih =>
      rw [about, List.filter_cons, List.filterMap_cons]
      cases hn : f n with
      | none =>
          split_ifs
          · rw [List.filterMap_cons, hn]
            exact ih
          · exact ih
      | some a =>
          rw [List.filter_cons, h n a hn]
          split_ifs
          · rw [List.filterMap_cons, hn]
            exact congrArg _ ih
          · exact ih

end about

/-- What is noted of one status that is written. -/
structure Passage where
  /-- The runner's reply that made the run write it. -/
  reply : Option Reply
  update : Update
  status : Status
  /-- The record then. -/
  record : Execution
  /-- The rows of the report, if the reply came with one. -/
  rows : Option (List CaseResult)

namespace Passage

/-- The reply, the update, the results, and the event that tells of the status. -/
def notes (id : Uuid) (p : Passage) : List Note :=
  (p.reply.map (Note.replied id)).toList
    ++ Run.written id p.update p.status p.record p.rows

/-- The events among them. -/
def events (id : Uuid) (p : Passage) : List Event :=
  (p.rows.elim [] fun rows =>
    [.resultsAvailable id (Run.tally .passed rows) (Run.tally .failed rows) rows.length])
    ++ [.updated id p.status p.update.errorMessage]

/-- The passage says what was written, and comes with rows just if a runner has finished and its
output can be read. -/
structure Fits [Libraries] (id : Uuid) (p : Passage) : Prop where
  status : p.update.status = some p.status
  record : p.record.status = p.status ∧ p.record.errorMessage = p.update.errorMessage
  rows : p.rows.isSome = true ↔ ∃ o run, p.reply = some (.ended (.finished o))
    ∧ ParsedRun.parse o.stdout = .ok run
  own : ∀ rows, p.rows = some rows → ∀ r ∈ rows, r.execution = id
  terminal : p.reply.isSome → p.status.isTerminal = true

variable {id : Uuid} {p : Passage}

lemma Fits.execution [Libraries] (h : p.Fits id) : ∀ n ∈ p.notes id, n.execution = id := by
  refine List.forall_mem_append.mpr ⟨?_, Run.execution_written h.own⟩
  cases p.reply <;> simp [Note.execution]

/-- A passage writes one record, ... -/
lemma record?_notes : (p.notes id).filterMap (Note.record? id) = [p.record] := by
  have hadded : ∀ rows : List CaseResult,
      (rows.map Note.added).filterMap (Note.record? id) = [] := fun rows => by
    simp [List.filterMap_map, Note.record?]
  cases hreply : p.reply <;> cases hrows : p.rows <;>
    simp [notes, Run.written, Run.kept, hreply, hrows, hadded, Note.record?, List.filterMap_cons]

/-- ... tells of it after the results, if there are any, ... -/
lemma event?_notes : (p.notes id).filterMap Note.event? = p.events id := by
  have hadded : ∀ rows : List CaseResult,
      (rows.map Note.added).filterMap Note.event? = [] := fun rows => by
    simp [List.filterMap_map, Note.event?]
  cases hreply : p.reply <;> cases hrows : p.rows <;>
    simp [notes, events, Run.written, Run.kept, hreply, hrows, hadded, Note.event?,
      List.filterMap_cons]

/-- ... and adds the rows of the results. -/
lemma row?_notes : (p.notes id).filterMap Note.row? = p.rows.getD [] := by
  have hadded : ∀ rows : List CaseResult,
      (rows.map Note.added).filterMap Note.row? = rows := fun rows => by
    rw [List.filterMap_map]
    exact List.filterMap_some
  cases hreply : p.reply <;> cases hrows : p.rows <;>
    simp [notes, Run.written, Run.kept, hreply, hrows, hadded, Note.row?, List.filterMap_cons]

end Passage

/-- The notes of one execution, and its record then. -/
inductive Story [Libraries] (id : Uuid) : List Note → Option Execution → Prop
  | nothing : Story id [] none
  | creation (first : Execution) (hid : first.id = id) (hpending : first.status = .pending)
      (hmessage : first.errorMessage = none) :
      Story id [.created first, .announced (.ofExecution first)] (some first)
  | passage {ns : List Note} {e : Execution} (h : Story id ns (some e)) (p : Passage)
      (hp : p.Fits id) : Story id (ns ++ p.notes id) (some p.record)

namespace Story

variable {id : Uuid} {ns : List Note}

lemma eq_nil [Libraries] (h : Story id ns none) : ns = [] := by
  cases h
  rfl

/-- A story is a creation and passages. -/
lemma passages [Libraries] {e : Execution} (h : Story id ns (some e)) :
    ∃ (first : Execution) (ps : List Passage), first.id = id ∧ first.status = .pending
      ∧ first.errorMessage = none
      ∧ ns = .created first :: .announced (.ofExecution first) :: ps.flatMap (Passage.notes id)
      ∧ (∀ p ∈ ps, p.Fits id)
      ∧ e = (ps.getLast?.map Passage.record).getD first := by
  generalize ho : some e = o at h
  induction h generalizing e with
  | nothing => cases ho
  | creation first hid hpending hmessage =>
      cases ho
      exact ⟨_, [], hid, hpending, hmessage, rfl, by simp, rfl⟩
  | passage h p hp ih =>
      cases ho
      obtain ⟨first, ps, hid, hpending, hmessage, rfl, hps, -⟩ := ih rfl
      refine ⟨first, ps ++ [p], hid, hpending, hmessage, ?_, ?_, ?_⟩
      · simp
      · simpa [or_imp, forall_and] using ⟨hps, hp⟩
      · simp

end Story

/-! ## What a turn adds -/

/-- The record of an execution after notes. -/
def recordAfter (id : Uuid) (ns : List Note) (old : Option Execution) : Option Execution :=
  (ns.filterMap (Note.record? id)).getLast?.or old

lemma recordAfter_append {id : Uuid} {ns ms : List Note} {old : Option Execution} :
    recordAfter id (ns ++ ms) old = recordAfter id ms (recordAfter id ns old) := by
  rw [recordAfter, recordAfter, recordAfter, List.filterMap_append, List.getLast?_append]
  cases (ms.filterMap (Note.record? id)).getLast? <;> rfl

/-- Notes about another execution do not change the record. -/
lemma recordAfter_other {id k : Uuid} {ns : List Note} (h : ∀ n ∈ ns, n.execution = k)
    (hk : k ≠ id) (old : Option Execution) : recordAfter id ns old = old := by
  have hnone : ns.filterMap (Note.record? id) = [] := by
    refine List.filterMap_eq_nil_iff.mpr fun n hn => ?_
    have hne : n.execution ≠ id := (h n hn).trans_ne hk
    cases n with
    | created e => exact if_neg hne
    | updated k u e => exact if_neg hne
    | _ => rfl
  rw [recordAfter, hnone]
  rfl

/-- A creation begins the story of its execution, and goes on with no other. -/
lemma Story.create [Libraries] {id : Uuid} {old : List Note} {record : Option Execution}
    {first : Execution}
    (hold : Story id old record) (hfree : first.id = id → record = none)
    (hpending : first.status = .pending) (hmessage : first.errorMessage = none) :
    Story id (old ++ about id [.created first, .announced (.ofExecution first)])
      (recordAfter id [.created first, .announced (.ofExecution first)] record) := by
  have hall : ∀ n ∈ [Note.created first, .announced (.ofExecution first)],
      n.execution = first.id := by simp [Note.execution, Event.ofExecution, Event.execution]
  by_cases hid : first.id = id
  · rw [hfree hid] at hold ⊢
    subst hid
    obtain rfl := hold.eq_nil
    have hafter : recordAfter first.id [Note.created first, .announced (.ofExecution first)]
        none = some first := by simp [recordAfter, Note.record?, List.filterMap_cons]
    rw [about_self hall, List.nil_append, hafter]
    exact .creation first rfl hpending hmessage
  · rw [about_other hall hid, List.append_nil, recordAfter_other hall hid]
    exact hold

/-- What can be noted of a turn that creates nothing: nothing at all, or passages about one
execution. -/
inductive Retold [Libraries] (w : World) : List Note → Prop
  | nothing : Retold w []
  | passages (k : Uuid) {e : Execution} (hrecord : w.store.logbook.record? k = some e)
      (ps : List Passage) (hps : ∀ p ∈ ps, p.Fits k) : Retold w (ps.flatMap (Passage.notes k))

namespace Retold

variable [Libraries] {w : World} {ns : List Note} {id k : Uuid}

lemma execution_flatMap {ps : List Passage} (hps : ∀ p ∈ ps, p.Fits k) :
    ∀ n ∈ ps.flatMap (Passage.notes k), n.execution = k := by
  intro n hn
  obtain ⟨p, hp, hmem⟩ := List.mem_flatMap.mp hn
  exact (hps p hp).execution n hmem

/-- Passages go on with the story of their execution, and with no other. -/
lemma continues (h : Retold w ns) {old : List Note}
    (hold : Story id old (w.store.logbook.record? id)) :
    Story id (old ++ about id ns) (recordAfter id ns (w.store.logbook.record? id)) := by
  cases h with
  | nothing => exact (List.append_nil old).symm ▸ hold
  | @passages k e hrecord ps hps =>
      by_cases hid : k = id
      · subst hid
        rw [hrecord] at hold ⊢
        clear hrecord
        induction ps generalizing old e with
        | nil => exact (List.append_nil old).symm ▸ hold
        | cons p ps ih =>
            obtain ⟨hp, hps⟩ := List.forall_mem_cons.mp hps
            have hnext := Story.passage hold p hp
            have hafter : recordAfter k (p.notes k) (some e) = some p.record := by
              rw [recordAfter, Passage.record?_notes]
              rfl
            rw [List.flatMap_cons, recordAfter_append, hafter, about_append,
              about_self hp.execution, ← List.append_assoc]
            exact ih hps hnext
      · have hall := execution_flatMap hps
        rw [about_other hall hid, List.append_nil, recordAfter_other hall hid]
        exact hold

/-- Only what has a record is told of. -/
lemma known (h : Retold w ns) {e : Execution}
    (he : recordAfter id ns (w.store.logbook.record? id) = some e) :
    ∃ d, w.store.logbook.record? id = some d := by
  cases h with
  | nothing => exact ⟨e, he⟩
  | @passages k d hrecord ps hps =>
      by_cases hid : k = id
      · exact ⟨d, hid ▸ hrecord⟩
      · rw [recordAfter_other (execution_flatMap hps) hid] at he
        exact ⟨e, he⟩

end Retold

namespace Scene

variable [Libraries] {s t : Scene} {ns : List Note}

lemma retold_cancel {w : World} {fs : List Flight} (hs : Sound ⟨w, fs⟩) (id : Uuid) :
    Retold w (w.notes (Run.cancel id).run) := by
  by_cases h : ∃ e, w.store.logbook.record? id = some e ∧ e.status.canBecome .cancelled = true
  · obtain ⟨e, he, hcan⟩ := h
    obtain ⟨-, -, hmessage, -⟩ := hs.unended he (Run.canBecome_cancelled_iff.mp hcan)
    let p : Passage := ⟨none, { status := some .cancelled }, .cancelled,
      e.apply w.now { status := some .cancelled }, none⟩
    have hp : p.Fits id := ⟨rfl, ⟨rfl, hmessage⟩, by simp [p], by simp [p], by simp [p]⟩
    have hnotes : w.notes (Run.cancel id).run = [p].flatMap (Passage.notes id) := by
      rw [Run.notes_cancel he hcan]
      exact (List.append_nil _).symm
    rw [hnotes]
    exact .passages id he [p] (by simpa using hp)
  · have hrefused : ∀ e, w.store.logbook.record? id = some e →
        e.status.canBecome .cancelled = false := fun e he =>
      Bool.eq_false_iff.mpr fun hcan => h ⟨e, he, hcan⟩
    rw [Run.notes_cancel_otherwise hrefused]
    exact .nothing

/-- The passage of an ending. -/
lemma fits_ending {w : World} {id : Uuid} {e : Execution} (h : w.store.logbook.record? id = some e)
    (hmessage : e.errorMessage = none) (place : Except Refusal Path) {reply : Option Reply}
    {result : Except Error (Runner.Outcome × List Suite)}
    (hresult : (Run.ending result).2.1.isSome = true ↔ ∃ o run,
      reply = some (.ended (.finished o)) ∧ ParsedRun.parse o.stdout = .ok run) :
    ∃ p : Passage, p.Fits id ∧ (reply.map (Note.replied id)).toList
      ++ w.notes (Run.finish id place result).run = p.notes id := by
  obtain ⟨status, rows, hstatus, hterminal, hrows, hnotes⟩ := Run.notes_finish h place result
  refine ⟨⟨reply, Run.closing w.now result, status,
    e.apply w.now (Run.closing w.now result),
    if (Run.ending result).2.1.isSome then some rows else none⟩, ?_, ?_⟩
  · constructor
    case status => exact hstatus
    case record => simp [Execution.apply, hstatus, hmessage]
    case rows =>
      rw [← hresult]
      split_ifs with hsome <;> simp [hsome]
    case own =>
      intro kept hkept
      obtain ⟨-, hsame⟩ := Option.ite_none_right_eq_some.mp hkept
      exact Option.some.inj hsame ▸ hrows.execution
    case terminal => exact fun _ => hterminal
  · rw [hnotes]
    rfl

lemma retold_call {w : World} {fs : List Flight} (hs : Sound ⟨w, fs⟩) (settings : RunSettings)
    (id : Uuid) : Retold w (w.notes (Run.run settings id).run) := by
  by_cases h : ∃ e, w.store.logbook.record? id = some e ∧ e.status = .pending
  · obtain ⟨e, he, hpending⟩ := h
    obtain ⟨-, -, hmessage, -⟩ := hs.unended he (.inl hpending)
    let p : Passage := ⟨none, Run.opening w.now, .running, Run.running w e, none⟩
    have hp : p.Fits id := ⟨rfl, ⟨rfl, hmessage⟩, by simp [p], by simp [p], by simp [p]⟩
    rw [Run.notes_run_pending settings he hpending]
    rcases Run.notes_goOn settings w id e with ⟨tree, fault, -, hnotes⟩ | hnotes
    · -- The run fails before it has a runner: it writes two statuses.
      have hrunning : ({ Run.begun w id e with tree := tree } : World).store.logbook.record? id
          = some (Run.running w e) := Run.record?_begun w id e
      have hnone : (Run.ending (.error fault)).2.1.isSome = true
          ↔ ∃ o run, (none : Option Reply) = some (.ended (.finished o))
            ∧ ParsedRun.parse o.stdout = .ok run := by simp [Run.ending]
      obtain ⟨q, hq, hending⟩ := fits_ending hrunning hmessage (Run.placeOf settings w id) hnone
      rw [hnotes]
      have hboth : Retold w ([p, q].flatMap (Passage.notes id)) :=
        .passages id he [p, q] (by simpa using ⟨hp, hq⟩)
      rw [List.flatMap_cons, List.flatMap_cons, List.flatMap_nil, List.append_nil, ← hending]
        at hboth
      exact hboth
    · have hone : Retold w ([p].flatMap (Passage.notes id)) :=
        .passages id he [p] (by simpa using hp)
      rw [List.flatMap_cons, List.flatMap_nil] at hone
      rw [hnotes]
      exact hone
  · have hne : ∀ e, w.store.logbook.record? id = some e → e.status ≠ .pending :=
      fun e he hpending => h ⟨e, he, hpending⟩
    rw [Run.notes_run_otherwise settings hne]
    exact .nothing

lemma retold_reply {w : World} {fs : List Flight} (hs : Sound ⟨w, fs⟩) {f : Flight} (hf : f ∈ fs)
    (r : Reply) : Retold w (.replied f.id r :: w.notes (f.next r)) := by
  obtain ⟨e, he, howing, -, place, settings, suites, hclose⟩ := hs.due hf
  have hparsed : (Run.ending (Run.attempted settings suites r)).2.1.isSome = true
      ↔ ∃ o run, some r = some (Reply.ended (.finished o))
        ∧ ParsedRun.parse o.stdout = .ok run := by
    rcases r with (o | _) | cause | _
    · cases hp : ParsedRun.parse o.stdout <;> cases hsuccess : o.success <;>
        simp [Run.attempted, Run.ending, Run.finished, hp, hsuccess]
    all_goals simp [Run.attempted, Run.ending]
  obtain ⟨p, hp, hnotes⟩ := fits_ending he howing.errorMessage place hparsed
  have hone : Retold w ([p].flatMap (Passage.notes f.id)) :=
    .passages f.id he [p] (by simpa using hp)
  rw [List.flatMap_cons, List.flatMap_nil, List.append_nil, ← hnotes] at hone
  rw [hclose]
  exact hone

/-- A turn creates a record under the identifier that is drawn next, or it tells more of what has a
record. -/
lemma Turn.cases (h : Turn s ns t) (hs : s.Sound) :
    (∃ r, s.world.store.logbook.record? s.world.nextId = none
        ∧ ns = [.created (Run.enrolled s.world r),
          .announced (.ofExecution (Run.enrolled s.world r))]
        ∧ t.world.drawn = s.world.drawn + 1)
      ∨ Retold s.world ns := by
  cases h with
  | create w fs r =>
      rw [Run.notes_create_eq, Run.advance_create_eq]
      cases Run.admission w.store.catalog r with
      | error fault => exact .inr .nothing
      | ok _ =>
          cases hr : w.store.logbook.record? w.nextId with
          | some d =>
              refine .inr ?_
              simp only [Run.notes_enroll_taken r hr]
              exact .nothing
          | none =>
              refine .inl ⟨r, rfl, Run.notes_enroll r hr, ?_⟩
              rw [Run.advance_enroll r hr]
              exact (Run.recorded w r).drawn_claimToken w.nextId
  | cancel w fs id => exact .inr (retold_cancel hs id)
  | call w fs settings id => exact .inr (retold_call hs settings id)
  | reply w before f after r =>
      exact .inr (retold_reply hs (List.mem_append_right before List.mem_cons_self) r)
  | edit w fs catalog tree now => exact .inr .nothing

/-- **Each turn continues the story of every execution.** -/
theorem Turn.continues (h : Turn s ns t) (hs : s.Sound) (id : Uuid) {old : List Note}
    (hold : Story id old (s.record? id)) : Story id (old ++ about id ns) (t.record? id) := by
  rw [record?, h.replays.record]
  rcases h.cases hs with ⟨r, hfree, rfl, -⟩ | hretold
  · refine hold.create (fun hid => ?_) rfl rfl
    rw [record?, ← hid]
    exact hfree
  · exact hretold.continues hold

end Scene

/-- Of a program that succeeded and wrote a report, the report is kept. -/
lemma Run.notes_finish_completed [Libraries] {w : World} {id : Uuid} {e : Execution}
    (h : w.store.logbook.record? id = some e) (place : Except Refusal Path) (suites : List Suite)
    {o : Runner.Output} {report : ParsedRun} (hcode : o.exitCode = some 0)
    (hp : ParsedRun.parse o.stdout = .ok report) :
    ∃ rows, RowsFor id ((CaseIndex.ofSuites suites).credit report.outcomes) rows
      ∧ w.notes (finish id place (.ok (.finished o, suites))).run
        = let u : Update := {
            status := some .completed
            results := some report.document
            endTime := some w.now }
          written id u .completed (e.apply w.now u) (some rows) := by
  obtain ⟨status, rows, hstatus, -, hrows, hnotes⟩ :=
    notes_finish h place (.ok (.finished o, suites))
  rw [creditedBy, ending, finished_completed hcode hp] at hrows
  rw [closing, ending, finished_completed hcode hp] at hstatus hnotes
  cases hstatus
  exact ⟨rows, hrows, hnotes⟩

namespace Chronicle

variable {start s : Scene} {ns : List Note}

section

variable [Libraries]

/-- What is noted of an execution is a story that comes to its record. -/
lemma story (h : Chronicle start ns s) (hstart : start.Begins) (id : Uuid) :
    Story id (about id ns) (s.record? id) := by
  induction h with
  | start =>
      have hnone : start.record? id = none := by
        rw [Scene.record?, hstart.1.1]
        rfl
      rw [hnone]
      exact .nothing
  | next h turn ih =>
      rw [about_append]
      exact turn.continues (h.sound hstart.1) id ih

/-- The events of an execution are those of its notes. -/
lemma events_eq (h : Chronicle start ns s) (hstart : start.Begins) (id : Uuid) :
    s.world.events.filter (fun event => event.execution = id)
      = (about id ns).filterMap Note.event? := by
  rw [h.replays.events, hstart.2, List.nil_append]
  refine filter_filterMap (fun n event hn => ?_) id ns
  cases n with
  | announced e =>
      cases hn
      rfl
  | _ => cases hn

/-- And so are its rows. -/
lemma rowsOf_eq (h : Chronicle start ns s) (hstart : start.Begins) (id : Uuid) :
    s.rowsOf id = (about id ns).filterMap Note.row? := by
  have hrows : s.world.store.logbook.rows = ns.filterMap Note.row? := by
    rw [h.replays.rows, hstart.1.1]
    rfl
  have hsame : ∀ rows : List CaseResult, rows.filter (fun r => r.execution == id)
      = rows.filter fun r => r.execution = id := fun rows => by
    simp only [beq_eq_decide]
  rw [Scene.rowsOf, Logbook.rowsOf, hrows, hsame]
  refine filter_filterMap (fun n r hn => ?_) id ns
  cases n with
  | added r =>
      cases hn
      rfl
  | _ => cases hn

/-- **Events replay to the record**, however calls interleave.  An execution that has no record has
no events.  Of one that has a record, everything that was noted is its creation and then, one after
another, the statuses that were written to it; its events are told with them, each status as it was
written, and the results of a run after its rows and right before its end; the rows are those of its
reports; and the record says what the last of the events says. -/
theorem events_replay (h : Chronicle start ns s) (hstart : start.Begins) (id : Uuid) :
    (s.record? id = none →
      about id ns = [] ∧ s.world.events.filter (fun event => event.execution = id) = [])
    ∧ ∀ e, s.record? id = some e → ∃ (first : Execution) (ps : List Passage),
      about id ns = .created first :: .announced (.ofExecution first)
          :: ps.flatMap (Passage.notes id)
        ∧ s.world.events.filter (fun event => event.execution = id)
          = .ofExecution first :: ps.flatMap (Passage.events id)
        ∧ s.rowsOf id = ps.flatMap (fun p => p.rows.getD [])
        ∧ (∀ p ∈ ps, p.Fits id)
        ∧ (e.status, e.errorMessage)
          = (ps.getLast?.map fun p => (p.status, p.update.errorMessage)).getD (.pending, none) := by
  have hstory := h.story hstart id
  refine ⟨fun hnone => ?_, fun e he => ?_⟩
  · rw [hnone] at hstory
    rw [h.events_eq hstart, hstory.eq_nil]
    exact ⟨rfl, rfl⟩
  · rw [he] at hstory
    obtain ⟨first, ps, -, hpending, hmessage, hnotes, hps, hlast⟩ := hstory.passages
    refine ⟨first, ps, hnotes, ?_, ?_, hps, ?_⟩
    · rw [h.events_eq hstart, hnotes, List.filterMap_cons, List.filterMap_cons,
        List.filterMap_flatMap]
      simp only [Passage.event?_notes, Note.event?]
    · rw [h.rowsOf_eq hstart, hnotes, List.filterMap_cons, List.filterMap_cons,
        List.filterMap_flatMap]
      simp only [Passage.row?_notes, Note.row?]
    · cases hp : ps.getLast? with
      | none =>
          rw [hlast, hp]
          exact Prod.ext hpending hmessage
      | some p =>
          rw [hlast, hp]
          exact Prod.ext (hps p (List.mem_of_getLast? hp)).record.1
            (hps p (List.mem_of_getLast? hp)).record.2

end

section smoke

open scoped Libraries.Lenient

open Run (smokeWorld requestedWorld smokeRequest smokeSettings smokeExecution smokeOutput)

/-- What is noted of a request, of the beginning of its run, and of the report of the runner. -/
def smokeNotes (u : Update) (ended : Execution) (row : CaseResult) : List Note :=
  [.created smokeExecution, .announced (.ofExecution smokeExecution)]
    ++ Run.written ⟨1⟩ (Run.opening requestedWorld.now) .running
      (Run.running requestedWorld smokeExecution) none
    ++ .replied ⟨1⟩ (.ended (.finished smokeOutput))
      :: Run.written ⟨1⟩ u .completed ended (some [row])

/-- This is what is noted. -/
lemma noted_smoke : ∃ u ended row s, Chronicle ⟨smokeWorld, []⟩ (smokeNotes u ended row) s
    ∧ u.errorMessage = none ∧ ended.status = .completed
    ∧ row.execution = ⟨1⟩ ∧ row.case = ⟨3⟩ ∧ row.verdict = .passed := by
  obtain ⟨report, hreport, c, hcredited, hcase, hverdict⟩ := Run.credited_smoke
  obtain ⟨v, job, token, next, hwaits⟩ := World.exists_of_waits Run.waits_smoke
  obtain ⟨e, tree, hrecord, hpending, rfl, hnext⟩ := Run.eq_of_waiting hwaits
  obtain rfl : e = smokeExecution := Option.some.inj (hrecord.symm.trans rfl)
  let atWork : World := { Run.begun requestedWorld ⟨1⟩ smokeExecution with tree := tree }
  have hrunning : atWork.store.logbook.record? ⟨1⟩
      = some (Run.running requestedWorld smokeExecution) := Run.record?_begun ..
  obtain ⟨rows, hrows, hended⟩ := Run.notes_finish_completed hrunning
    (Run.placeOf smokeSettings requestedWorld ⟨1⟩) [Generation.smokeSuite] rfl hreport
  rw [hcredited] at hrows
  have hown := hrows.execution
  obtain ⟨row, rfl, hsame, hpassed⟩ := hrows.singleton
  -- The three turns: the request, the call up to the runner, and the runner's reply.
  have hcreate : Scene.Turn ⟨smokeWorld, []⟩
      [.created smokeExecution, .announced (.ofExecution smokeExecution)]
      ⟨requestedWorld, []⟩ := .create smokeWorld [] smokeRequest
  have hcall := Scene.Turn.call requestedWorld [] smokeSettings ⟨1⟩
  rw [hwaits, Run.notes_run_waiting hrecord hpending hwaits] at hcall
  have hreply := Scene.Turn.reply atWork [] ⟨⟨1⟩, next⟩ [] (.ended (.finished smokeOutput))
  have hnotes := (congrArg atWork.notes (hnext (.ended (.finished smokeOutput)))).trans hended
  rw [hnotes] at hreply
  exact ⟨_, _, row, _, .next (.next (.next .start hcreate) hcall) hreply, rfl, rfl,
    hown row (List.mem_singleton_self row), hsame.trans hcase, hpassed.trans hverdict⟩

/-- Of a run whose runner writes a report, the beginning is told, the report, and the end; its
record and its row say the same. -/
theorem events_replay_smoke :
    ∃ ns s e row, Chronicle ⟨smokeWorld, []⟩ ns s
      ∧ s.record? ⟨1⟩ = some e ∧ e.status = .completed
      ∧ s.rowsOf ⟨1⟩ = [row] ∧ row.case = ⟨3⟩ ∧ row.verdict = .passed
      ∧ s.world.events.filter (fun event => event.execution = ⟨1⟩)
        = [.ofExecution smokeExecution, .updated ⟨1⟩ .running none, .resultsAvailable ⟨1⟩ 1 0 1,
          .updated ⟨1⟩ .completed none] := by
  obtain ⟨u, ended, row, s, h, hmessage, hcompleted, hown, hcase, hpassed⟩ := noted_smoke
  have hwritten : s.record? ⟨1⟩ = some ended := (h.replays.record ⟨1⟩).trans rfl
  obtain ⟨first, ps, habout, hevents, hrows, -, -⟩ :=
    (h.events_replay ⟨⟨rfl, rfl⟩, rfl⟩ ⟨1⟩).2 ended hwritten
  have hall : about ⟨1⟩ (smokeNotes u ended row) = smokeNotes u ended row := by
    refine about_self (List.forall_mem_append.mpr ⟨List.forall_mem_append.mpr ⟨?_, ?_⟩,
      List.forall_mem_cons.mpr ⟨rfl, ?_⟩⟩)
    · exact List.forall_mem_cons.mpr ⟨rfl, List.forall_mem_singleton.mpr rfl⟩
    · exact Run.execution_written nofun
    · exact Run.execution_written fun _ hkept =>
        Option.some.inj hkept ▸ List.forall_mem_singleton.mpr hown
  rw [hall] at habout
  -- What the passages tell and add is what is read off the notes.
  have hseen := congrArg (List.filterMap Note.event?) habout
  have hkept := congrArg (List.filterMap Note.row?) habout
  simp only [List.filterMap_cons, List.filterMap_flatMap, Passage.event?_notes,
    Passage.row?_notes, Note.event?, Note.row?] at hseen hkept
  rw [← hseen] at hevents
  rw [← hkept] at hrows
  have htally : Run.tally .passed [row] = 1 ∧ Run.tally .failed [row] = 0 := by
    simp [Run.tally, hpassed]
  refine ⟨_, s, ended, row, h, hwritten, hcompleted, hrows.trans rfl, hcase, hpassed,
    hevents.trans ?_⟩
  show [_, _, Event.resultsAvailable ⟨1⟩ (Run.tally .passed [row]) (Run.tally .failed [row]) 1,
    Event.updated ⟨1⟩ .completed u.errorMessage] = _
  rw [htally.1, htally.2, hmessage]
  rfl

end smoke

end Chronicle

end Rehearsal
