import Mathlib
import Rehearsal.Proofs.Store

/-!
# A store is its history

What a logbook holds can be read off the calls that were not refused: who created a record first,
what the last update said of each of its fields, and which rows were added.

* `Store.accepted`: the calls that were not refused, the oldest first.
* `History.recalled`: the record of an execution, field by field, as the calls have left it.
* `Store.objection`: why the logbook refuses a call.  It **changes nothing** then
  (`call_of_objection`), and is carried out otherwise (`call_of_logs`).
* `Store.Recalls`: a store holds what its history says.  A call keeps this (`Recalls.call`), so it
  holds after **every list of calls**, refused or not (`callAll_holds_history`).
-/

namespace Rehearsal

/-- Calls that were carried out, each at its time, the oldest first. -/
abbrev History : Type := List (Instant × Store.Call)

namespace History

/-! ## What calls have said -/

/-- The record that a call creates, if it creates one under this identifier. -/
def creation (id : Uuid) : Instant × Store.Call → Option Execution
  | (_, .create e) => if e.id = id then some e else none
  | _ => none

/-- The update that a call makes of this record. -/
def updating (id : Uuid) : Instant × Store.Call → Option (Instant × Update)
  | (t, .update k u) => if k = id then some (t, u) else none
  | _ => none

/-- The row that a call adds. -/
def adding : Instant × Store.Call → Option CaseResult
  | (_, .addRow r) => some r
  | _ => none

/-- The record as it was created. -/
def created (h : History) (id : Uuid) : Option Execution := h.findSome? (creation id)

/-- The updates of a record, the oldest first. -/
def updates (h : History) (id : Uuid) : List (Instant × Update) := h.filterMap (updating id)

/-- The rows that were added, the oldest first. -/
def rows (h : History) : List CaseResult := h.filterMap adding

/-- What the last update that mentions a field says of it. -/
def latest {α : Type} (field : Update → Option α) (us : List (Instant × Update)) : Option α :=
  (us.filterMap fun u => field u.2).getLast?

/-- A record after updates: of each field, the last one that mentions it decides. -/
def overwritten (us : List (Instant × Update)) (e : Execution) : Execution :=
  { e with
    status := (latest Update.status us).getD e.status
    startTime := latest Update.startTime us <|> e.startTime
    endTime := latest Update.endTime us <|> e.endTime
    results := latest Update.results us <|> e.results
    errorMessage := latest Update.errorMessage us <|> e.errorMessage
    updatedAt := (us.getLast?.map Prod.fst).getD e.updatedAt }

/-- The record as the calls have left it. -/
def recalled (h : History) (id : Uuid) : Option Execution :=
  (h.created id).map (overwritten (h.updates id))

section laws

variable (h : History) (id : Uuid)

lemma created_concat (c : Instant × Store.Call) :
    created (h ++ [c]) id = (h.created id).or (creation id c) := by
  rw [created, List.findSome?_append, List.findSome?_singleton, created]

lemma updates_concat (c : Instant × Store.Call) :
    updates (h ++ [c]) id = h.updates id ++ (updating id c).toList := by
  rw [updates, List.filterMap_append, updates]
  cases hc : updating id c <;> simp [hc]

variable {h id} in
/-- A call that is silent about an execution. -/
lemma recalled_concat {c : Instant × Store.Call} (hc : creation id c = none)
    (hu : updating id c = none) : recalled (h ++ [c]) id = h.recalled id := by
  rw [recalled, created_concat, updates_concat, hc, hu, Option.or_none, Option.toList_none,
    List.append_nil, recalled]

lemma rows_concat (c : Instant × Store.Call) :
    rows (h ++ [c]) = h.rows ++ (adding c).toList := by
  rw [rows, List.filterMap_append, rows]
  cases hc : adding c <;> simp [hc]

lemma latest_concat {α : Type} (field : Update → Option α) (us : List (Instant × Update))
    (u : Instant × Update) : latest field (us ++ [u]) = (field u.2 <|> latest field us) := by
  rw [latest, List.filterMap_append, List.getLast?_append, latest]
  cases hu : field u.2 <;> simp [hu]

@[simp] lemma overwritten_nil (e : Execution) : overwritten [] e = e := rfl

/-- One more update overwrites what it mentions. -/
lemma overwritten_concat (us : List (Instant × Update)) (t : Instant) (u : Update)
    (e : Execution) : overwritten (us ++ [(t, u)]) e = (overwritten us e).apply t u := by
  simp only [overwritten, Execution.apply, latest_concat, List.getLast?_concat, Option.map_some,
    Option.getD_some]
  cases u.status <;> cases u.startTime <;> cases u.endTime <;> cases u.results <;>
    cases u.errorMessage <;> rfl

end laws

end History

open History

namespace Store

/-! ## Refused calls -/

/-- Why the logbook refuses a call, if it does. -/
def objection (l : Logbook) : Call → Option Error
  | .create e => if (l.record? e.id).isSome then some (.duplicateExecution e.id) else none
  | .update id _ => if (l.record? id).isSome then none else some (.unknownExecution id)
  | .addRow r =>
      if (l.record? r.execution).isSome then none else some (.unknownExecution r.execution)
  | _ => none

/-- The logbook after a call that it does not refuse. -/
def logged (l : Logbook) (now : Instant) : Call → Logbook
  | .create e => l.put e.id e
  | .update id u => ((l.record? id).map fun e => l.put id (e.apply now u)).getD l
  | .addRow r => l.addRows [r]
  | _ => l

/-- Calls that are about the logbook. -/
def Call.Logs : Call → Prop
  | .create _ | .update .. | .addRow _ => True
  | _ => False

section calls

variable [Libraries] {s : Store} {now : Instant} {c : Call}

/-- A call that the logbook refuses changes nothing. -/
lemma call_of_objection {e : Error} (h : objection s.logbook c = some e) :
    s.call now c = (s, .error e) := by
  cases c with
  | create d =>
      rw [objection, Option.ite_none_right_eq_some] at h
      rw [call, Logbook.create, Table.contains, ← Logbook.record?, if_pos h.1, withLogbook,
        Option.some.inj h.2]
  | update id u =>
      rw [objection, Option.ite_none_left_eq_some, Bool.not_eq_true, Option.isSome_eq_false_iff,
        Option.isNone_iff_eq_none] at h
      rw [call, Logbook.update, h.1, ← Option.some.inj h.2]
      rfl
  | addRow r =>
      rw [objection, Option.ite_none_left_eq_some] at h
      rw [call, Logbook.addRow, Table.contains, ← Logbook.record?, if_neg h.1, withLogbook,
        Option.some.inj h.2]
  | _ => cases h

/-- A call that is about the logbook is carried out unless the logbook refuses it. -/
lemma call_of_logs (hc : c.Logs) (h : objection s.logbook c = none) :
    s.call now c = ({ s with logbook := logged s.logbook now c }, .ok ()) := by
  cases c with
  | create d =>
      rw [objection, ite_eq_right_iff] at h
      have hfree : ¬ (s.logbook.record? d.id).isSome = true := fun hd => by cases h hd
      rw [call, Logbook.create, Table.contains, ← Logbook.record?, if_neg hfree]
      rfl
  | update id u =>
      cases hd : s.logbook.record? id with
      | none => simp [objection, hd] at h
      | some d =>
          rw [call, Logbook.update, hd, logged, hd]
          rfl
  | addRow r =>
      rw [objection, ite_eq_left_iff] at h
      have hthere : (s.logbook.record? r.execution).isSome = true := by
        by_contra hr
        cases h hr
      rw [call, Logbook.addRow, Table.contains, ← Logbook.record?, if_pos hthere]
      rfl
  | _ => exact hc.elim

/-- Other calls leave the logbook alone. -/
lemma logbook_call (hc : ¬ c.Logs) : (s.call now c).1.logbook = s.logbook := by
  have hcat : ∀ d : Except Error Catalog, (s.withCatalog d).1.logbook = s.logbook := by
    intro d
    cases d <;> rfl
  cases c with
  | putPage | putSuite | putProject => exact hcat _
  | load => rfl
  | create | update | addRow => exact (hc trivial).elim

end calls

/-! ## Stores and their histories -/

/-- Whether a call is carried out. -/
def accepts [Libraries] (s : Store) (c : Instant × Call) : Bool := (s.call c.1 c.2).2.isOk

/-- The calls that are carried out. -/
def accepted [Libraries] : Store → List (Instant × Call) → History
  | _, [] => []
  | s, c :: cs =>
    (if s.accepts c then [c] else []) ++ accepted (s.call c.1 c.2).1 cs

/-- A store holds what its history says. -/
structure Recalls (s : Store) (h : History) : Prop where
  record : ∀ id, s.logbook.record? id = h.recalled id
  /-- Nothing was updated before it was created. -/
  updates : ∀ id, h.created id = none → h.updates id = []
  rows : s.logbook.rows = h.rows

namespace Recalls

variable {s t : Store} {h : History}

lemma empty : Store.empty.Recalls [] where
  record _ := rfl
  updates _ _ := rfl
  rows := rfl

lemma congr (hs : s.Recalls h) (hlog : t.logbook = s.logbook) : t.Recalls h where
  record id := by rw [hlog, hs.record]
  updates := hs.updates
  rows := by rw [hlog, hs.rows]

/-- There is no record of what was not created. -/
lemma created_eq_none (hs : s.Recalls h) {id : Uuid} (hid : s.logbook.record? id = none) :
    h.created id = none := by
  rwa [hs.record, recalled, Option.map_eq_none_iff] at hid

/-- What a call comes to for a record, by what the history says of it then. -/
lemma concat (hs : s.Recalls h) (c : Instant × Call)
    (hrecord : ∀ id, t.logbook.record? id = (h ++ [c]).recalled id)
    (hupdates : ∀ id, updating id c = none ∨ h.created id ≠ none)
    (hrows : t.logbook.rows = s.logbook.rows ++ (adding c).toList) : t.Recalls (h ++ [c]) where
  record := hrecord
  updates id hid := by
    rw [created_concat, Option.or_eq_none_iff] at hid
    rw [updates_concat, hs.updates id hid.1, (hupdates id).resolve_right (not_not.mpr hid.1)]
    rfl
  rows := by rw [hrows, hs.rows, rows_concat]

/-- Calls that are not about the logbook say nothing. -/
lemma unlogged (hs : s.Recalls h) {now : Instant} {c : Call} (hc : ¬ c.Logs) :
    s.Recalls (h ++ [(now, c)]) := by
  have hsilent : (∀ id, creation id (now, c) = none ∧ updating id (now, c) = none)
      ∧ adding (now, c) = none := by
    cases c with
    | create | update | addRow => exact (hc trivial).elim
    | putPage | putSuite | putProject | load => exact ⟨fun _ => ⟨rfl, rfl⟩, rfl⟩
  refine hs.concat _ (fun id => ?_) (fun id => .inl (hsilent.1 id).2) ?_
  · rw [hs.record, recalled_concat (hsilent.1 id).1 (hsilent.1 id).2]
  · rw [hsilent.2, Option.toList_none, List.append_nil]

lemma create (hs : s.Recalls h) (now : Instant) {e : Execution}
    (hfree : s.logbook.record? e.id = none) :
    Recalls { s with logbook := s.logbook.put e.id e } (h ++ [(now, .create e)]) := by
  refine hs.concat _ (fun id => ?_) (fun id => .inl rfl) (List.append_nil _).symm
  have hnone := hs.created_eq_none hfree
  rw [Logbook.record?_put]
  split_ifs with hid
  · rw [hid, recalled, created_concat, updates_concat, hnone, hs.updates e.id hnone]
    simp [creation, updating]
  · have hother : creation id (now, .create e) = none := if_neg (Ne.symm hid)
    rw [hs.record, recalled_concat hother rfl]

lemma update (hs : s.Recalls h) (now : Instant) {k : Uuid} (u : Update) {e : Execution}
    (hk : s.logbook.record? k = some e) :
    Recalls { s with logbook := s.logbook.put k (e.apply now u) } (h ++ [(now, .update k u)]) := by
  rw [hs.record, recalled, Option.map_eq_some_iff] at hk
  obtain ⟨d, hcreated, rfl⟩ := hk
  refine hs.concat _ (fun id => ?_) (fun id => ?_) (List.append_nil _).symm
  · rw [Logbook.record?_put]
    split_ifs with hid
    · rw [hid, recalled, created_concat, updates_concat, hcreated]
      simp [creation, updating, overwritten_concat]
    · have hother : updating id (now, .update k u) = none := if_neg (Ne.symm hid)
      exact (hs.record id).trans (recalled_concat rfl hother).symm
  · by_cases hid : k = id
    · exact .inr (by rw [← hid, hcreated]; exact Option.some_ne_none d)
    · exact .inl (if_neg hid)

lemma addRow (hs : s.Recalls h) (now : Instant) (r : CaseResult) :
    Recalls { s with logbook := s.logbook.addRows [r] } (h ++ [(now, .addRow r)]) := by
  refine hs.concat _ (fun id => ?_) (fun id => .inl rfl) rfl
  rw [Logbook.record?_addRows, hs.record, recalled_concat rfl rfl]

lemma logged (hs : s.Recalls h) {now : Instant} {c : Call} (hc : c.Logs)
    (hobjection : objection s.logbook c = none) :
    Recalls { s with logbook := Store.logged s.logbook now c } (h ++ [(now, c)]) := by
  cases c with
  | create e => exact hs.create now (by simpa [objection] using hobjection)
  | update id u =>
      cases he : s.logbook.record? id with
      | none => simp [objection, he] at hobjection
      | some e =>
          rw [Store.logged, he]
          exact hs.update now u he
  | addRow r => exact hs.addRow now r
  | _ => exact hc.elim

/-- **A call is recalled if it is carried out, and only then.** -/
lemma call [Libraries] (hs : s.Recalls h) (c : Instant × Call) :
    (s.call c.1 c.2).1.Recalls (h ++ if s.accepts c then [c] else []) := by
  obtain ⟨now, c⟩ := c
  by_cases hc : c.Logs
  · cases hobjection : objection s.logbook c with
    | none =>
        rw [accepts, call_of_logs hc hobjection]
        exact hs.logged hc hobjection
    | some e =>
        rw [accepts, call_of_objection hobjection]
        exact (List.append_nil h).symm ▸ hs
  · split_ifs
    · exact (hs.unlogged hc).congr (logbook_call hc)
    · exact (List.append_nil h).symm ▸ hs.congr (logbook_call hc)

lemma callAll [Libraries] (hs : s.Recalls h) (calls : List (Instant × Call)) :
    (s.callAll calls).Recalls (h ++ accepted s calls) := by
  induction calls generalizing s h with
  | nil => exact (List.append_nil h).symm ▸ hs
  | cons c cs ih =>
      rw [accepted, ← List.append_assoc]
      exact ih (hs.call c)

end Recalls

/-- **A store is its history**, whatever calls were made and refused: there is a record once it was
created, with what the last updates said; the rows are those that were added, each of an
execution that has a record; and what the logbook objects to is refused and changes nothing. -/
theorem callAll_holds_history [Libraries] (calls : List (Instant × Call)) (id : Uuid) :
    let s := Store.empty.callAll calls
    let h := accepted Store.empty calls
    s.logbook.record? id = h.recalled id
      ∧ s.logbook.rowsOf id = h.rows.filter (fun r => r.execution == id)
      ∧ (∀ r ∈ s.logbook.rows, ∃ e, s.logbook.record? r.execution = some e)
      ∧ (∀ now c e, objection s.logbook c = some e → s.call now c = (s, .error e))
      ∧ ∀ now c, c.Logs → objection s.logbook c = none → (s.call now c).2 = .ok () := by
  have hs := Recalls.empty.callAll calls
  rw [List.nil_append] at hs
  refine ⟨hs.record id, ?_, Reachable.logbook_sound ⟨calls, rfl⟩, fun _ _ _ => call_of_objection,
    fun _ _ hc h => ?_⟩
  · rw [Logbook.rowsOf, hs.rows]
  · rw [call_of_logs hc h]

end Store

end Rehearsal
