import Mathlib
import Rehearsal.Proofs.Consists
import Rehearsal.Proofs.Crowd

/-!
# How callers conduct themselves

A caller who runs or cancels an execution touches it in a fixed order, whatever it is answered.
The order is written down once, as a table of phases, and the two calls are shown to keep to it.

* `Phase`, `Phase.after`: the phases of a run and of a cancellation, and **the touches that each
  phase allows**.
* `Obeys`: whatever it is answered, a procedure **keeps to the table and ends only where it may**.
* `Quiet`: a procedure that touches nothing and so stays in its phase; generating a workspace is
  one.
* `Run.obeys_run`, `Run.obeys_cancel`: the two calls obey.
-/

namespace Rehearsal

open Runner (Job Reply Token)

/-! ## Phases -/

/-- How far a call on an execution has come. -/
inductive Phase where
  /-- A run that has not looked at the record. -/
  | toRun
  /-- It found the execution cancelled. -/
  | leaving (e : Execution)
  | left (e : Execution)
  /-- It found the execution pending. -/
  | found
  | holding (token : Token)
  /-- It has written that the execution is running. -/
  | begun (token : Token)
  /-- It has had a runner. -/
  | launched (token : Token)
  | done
  /-- A cancellation that has not looked at the record. -/
  | toCancel
  /-- It found the execution pending or running. -/
  | entitled
  | written (d : Execution)
  | facing (d : Execution) (token : Token)
  | fired (d : Execution) (token : Token)
  /-- It found no token. -/
  | missed (d : Execution)
  | refused

/-- Nothing but a status is written. -/
def Update.marks (u : Update) (s : Status) : Bool :=
  u.status == some s && u.startTime.isNone && u.endTime.isNone && u.results.isNone
    && u.errorMessage.isNone

lemma Update.marks_iff {u : Update} {s : Status} : u.marks s = true ↔ u = { status := some s } := by
  obtain ⟨status, startTime, endTime, results, errorMessage⟩ := u
  simp [marks, and_assoc]

/-- What is written ends an execution. -/
def Update.closes (u : Update) : Bool := u.status.any Status.isTerminal

namespace Phase

/-- The phase in which a caller begins. -/
def start : Errand → Phase
  | .run _ => toRun
  | .cancel => toCancel

/-- The phase after a touch, if the phase before allows it. -/
def after : Phase → Touch → Option Phase
  | toRun, .read none => some done
  | toRun, .read (some e) =>
      if e.status = .cancelled then some (leaving e)
      else if e.status = .pending then some found
      else some done
  | leaving e, .release => some (left e)
  | found, .claim t => some (holding t)
  | holding t, .write u (.ok _) => if u.status = some .running then some (begun t) else none
  | holding _, .write _ (.error _) => some done
  | begun t, .spawn t' => if t' = t then some (launched t) else none
  | begun t, .write u _ => if u.closes then some (begun t) else none
  | launched t, .write u _ => if u.closes then some (launched t) else none
  | begun _, .release => some done
  | launched _, .release => some done
  | toCancel, .read none => some refused
  | toCancel, .read (some e) =>
      if e.status.canBecome .cancelled then some entitled else some refused
  | entitled, .write u (.ok d) => if u.marks .cancelled then some (written d) else none
  | entitled, .write _ (.error _) => some refused
  | written d, .find (some t) => some (facing d t)
  | written d, .find none => some (missed d)
  | facing d t, .fire t' => if t' = t then some (fired d t) else none
  | _, _ => none

/-- A phase of a run. -/
def isRun : Phase → Bool
  | toRun | leaving _ | left _ | found | holding _ | begun _ | launched _ | done => true
  | _ => false

lemma isRun_of_after {p q : Phase} {t : Touch} (h : p.after t = some q) : q.isRun = p.isRun := by
  revert h
  fun_cases after p t <;> rintro ⟨⟩ <;> rfl

/-- A run that has begun and is not done. -/
def Underway (p : Phase) (t : Token) : Prop := p = begun t ∨ p = launched t

section allowed

variable {p q : Phase} {t : Token}

lemma Underway.write (h : p.Underway t) {u : Update} (hu : u.closes = true)
    (x : Except Error Execution) : p.after (.write u x) = some p := by
  rcases h with rfl | rfl
  · exact if_pos hu
  · exact if_pos hu

lemma Underway.release (h : p.Underway t) : p.after .release = some done := by
  rcases h with rfl | rfl <;> rfl

/-! Where a touch of each kind is allowed, and what it leads to. -/

lemma ne_create {touch : Touch} (h : p.after touch = some q) : touch ≠ .create := by
  rintro rfl
  cases p <;> cases h

lemma after_read_none (h : p.after (.read none) = some q) :
    p = toRun ∧ q = done ∨ p = toCancel ∧ q = refused := by
  cases p with
  | toRun => cases h; exact .inl ⟨rfl, rfl⟩
  | toCancel => cases h; exact .inr ⟨rfl, rfl⟩
  | _ => cases h

lemma after_read_some {e : Execution} (h : p.after (.read (some e)) = some q) :
    (p = toRun ∧ e.status = .cancelled ∧ q = leaving e)
      ∨ (p = toRun ∧ e.status = .pending ∧ q = found)
      ∨ (p = toRun ∧ e.status ≠ .pending ∧ e.status ≠ .cancelled ∧ q = done)
      ∨ p = toCancel ∧ (q = entitled ∨ q = refused) := by
  cases p with
  | toRun =>
      change (if e.status = .cancelled then some (leaving e)
        else if e.status = .pending then some found else some done) = some q at h
      split_ifs at h with hcancelled hpending
      · cases h
        exact .inl ⟨rfl, hcancelled, rfl⟩
      · cases h
        exact .inr (.inl ⟨rfl, hpending, rfl⟩)
      · cases h
        exact .inr (.inr (.inl ⟨rfl, hpending, hcancelled, rfl⟩))
  | toCancel =>
      change (if e.status.canBecome .cancelled then some entitled else some refused) = some q at h
      split_ifs at h
      · cases h
        exact .inr (.inr (.inr ⟨rfl, .inl rfl⟩))
      · cases h
        exact .inr (.inr (.inr ⟨rfl, .inr rfl⟩))
  | _ => cases h

lemma after_write_ok {u : Update} {d : Execution} (h : p.after (.write u (.ok d)) = some q) :
    (∃ t, p = holding t ∧ u.status = some .running ∧ q = begun t)
      ∨ (∃ t, p.Underway t ∧ u.closes = true ∧ q = p)
      ∨ p = entitled ∧ u = { status := some .cancelled } ∧ q = written d := by
  cases p with
  | holding t =>
      change (if u.status = some .running then some (begun t) else none) = some q at h
      split_ifs at h with hu
      cases h
      exact .inl ⟨t, rfl, hu, rfl⟩
  | begun t =>
      change (if u.closes then some (begun t) else none) = some q at h
      split_ifs at h with hu
      cases h
      exact .inr (.inl ⟨t, .inl rfl, hu, rfl⟩)
  | launched t =>
      change (if u.closes then some (launched t) else none) = some q at h
      split_ifs at h with hu
      cases h
      exact .inr (.inl ⟨t, .inr rfl, hu, rfl⟩)
  | entitled =>
      change (if u.marks .cancelled then some (written d) else none) = some q at h
      split_ifs at h with hu
      cases h
      exact .inr (.inr ⟨rfl, Update.marks_iff.mp hu, rfl⟩)
  | _ => cases h

lemma after_write_error {u : Update} {fault : Error}
    (h : p.after (.write u (.error fault)) = some q) :
    (∃ t, p = holding t ∧ q = done) ∨ (∃ t, p.Underway t ∧ q = p) ∨ p = entitled ∧ q = refused := by
  cases p with
  | holding t => cases h; exact .inl ⟨t, rfl, rfl⟩
  | begun t =>
      change (if u.closes then some (begun t) else none) = some q at h
      split_ifs at h
      cases h
      exact .inr (.inl ⟨t, .inl rfl, rfl⟩)
  | launched t =>
      change (if u.closes then some (launched t) else none) = some q at h
      split_ifs at h
      cases h
      exact .inr (.inl ⟨t, .inr rfl, rfl⟩)
  | entitled => cases h; exact .inr (.inr ⟨rfl, rfl⟩)
  | _ => cases h

lemma after_claim (h : p.after (.claim t) = some q) : p = found ∧ q = holding t := by
  cases p with
  | found => cases h; exact ⟨rfl, rfl⟩
  | _ => cases h

lemma after_find {x : Option Token} (h : p.after (.find x) = some q) :
    ∃ d, p = written d ∧ q = x.elim (missed d) (facing d) := by
  cases p with
  | written d => cases x <;> cases h <;> exact ⟨d, rfl, rfl⟩
  | _ => cases x <;> cases h

lemma after_fire (h : p.after (.fire t) = some q) : ∃ d, p = facing d t ∧ q = fired d t := by
  cases p with
  | facing d t' =>
      change (if t = t' then some (fired d t') else none) = some q at h
      split_ifs at h with ht
      cases h
      exact ⟨d, by rw [ht], by rw [ht]⟩
  | _ => cases h

lemma after_release (h : p.after .release = some q) :
    (∃ e, p = leaving e ∧ q = left e) ∨ ∃ t, p.Underway t ∧ q = done := by
  cases p with
  | leaving e => cases h; exact .inl ⟨e, rfl, rfl⟩
  | begun t => cases h; exact .inr ⟨t, .inl rfl, rfl⟩
  | launched t => cases h; exact .inr ⟨t, .inr rfl, rfl⟩
  | _ => cases h

lemma after_spawn (h : p.after (.spawn t) = some q) : p = begun t ∧ q = launched t := by
  cases p with
  | begun t' =>
      change (if t = t' then some (launched t') else none) = some q at h
      split_ifs at h with ht
      cases h
      exact ⟨by rw [ht], by rw [ht]⟩
  | _ => cases h

end allowed

/-- The phase after a deed. -/
def next? (p : Phase) (id : Uuid) (d : Deed) : Option Phase :=
  match d.touch? id with
  | some t => p.after t
  | none => some p

/-- What a call may return in a phase. -/
def Ends : Phase → Except Error Execution → Prop
  | left e, x => x = .ok e
  | done, _ => True
  | fired d _, x => x = .ok d
  | missed d, x => x = .ok d
  | refused, x => ∃ fault, x = .error fault
  | _, _ => False

end Phase

/-! ## Procedures that keep to the phases -/

section obeys

variable {α β : Type} {id : Uuid}

/-- Whatever is answered and replied, each deed is allowed in its phase, and in the end the result
is one that the phase may have. -/
def Obeys (id : Uuid) (ends : Phase → α → Prop) : Procedure α → Phase → Prop
  | .done a, p => ends p a
  | .act operation next, p => ∀ answer, ∃ q, p.next? id (.act operation answer) = some q
      ∧ Obeys id ends (next answer) q
  | .spawn job token next, p => ∃ q, p.next? id (.spawn job token) = some q
      ∧ ∀ reply, Obeys id ends (next reply) q

lemma Obeys.bind {ends : Phase → α → Prop} {ends' : Phase → β → Prop} {c : Procedure α}
    {f : α → Procedure β} {p : Phase} (hc : Obeys id ends c p)
    (hf : ∀ a q, ends q a → Obeys id ends' (f a) q) : Obeys id ends' (c >>= f) p := by
  induction c generalizing p with
  | done a => exact hf a p hc
  | act operation next ih =>
      intro answer
      obtain ⟨q, hq, hnext⟩ := hc answer
      exact ⟨q, hq, ih answer hnext⟩
  | spawn job token next ih =>
      obtain ⟨q, hq, hnext⟩ := hc
      exact ⟨q, hq, fun reply => ih reply (hnext reply)⟩

/-- A call and then another; a fault of the first comes out. -/
lemma Obeys.bind_call {ends : Phase → Except Error α → Prop}
    {ends' : Phase → Except Error β → Prop} {c : Call α} {f : α → Call β} {p : Phase}
    (hc : Obeys id ends c.run p) (hok : ∀ a q, ends q (.ok a) → Obeys id ends' (f a).run q)
    (hfault : ∀ e q, ends q (.error e) → ends' q (.error e)) :
    Obeys id ends' (c >>= f).run p := by
  rw [ExceptT.run_bind]
  refine Obeys.bind hc fun x q hx => ?_
  cases x with
  | ok a => exact hok a q hx
  | error e => exact hfault e q hx

/-- An operation that touches no execution. -/
def Operation.Quiet : Operation → Prop
  | .createRecord _ | .record _ | .updateRecord _ _ => False
  | .claimToken _ | .findToken _ | .releaseToken _ | .fire _ => False
  | _ => True

lemma Operation.Quiet.next? {operation : Operation} (h : operation.Quiet) (p : Phase)
    (answer : operation.Answer) : p.next? id (.act operation answer) = some p := by
  cases operation with
  | createRecord _ | record _ | updateRecord _ _ => cases h
  | claimToken _ | findToken _ | releaseToken _ | fire _ => cases h
  | _ => rfl

/-- What touches nothing stays in its phase. -/
lemma Consists.obeys {P : Operation → Prop} {c : Procedure α} (h : Consists P c)
    (hP : ∀ {a}, P a → a.Quiet) (p : Phase) : Obeys id (fun q _ => q = p) c p := by
  induction c with
  | done a => rfl
  | act operation next ih =>
      exact fun answer => ⟨p, (hP h.1).next? p answer, ih answer (h.2 answer)⟩
  | spawn job token next => cases h

/-- Something quiet, and then a call that begins in the same phase. -/
lemma Consists.andThen {P : Operation → Prop} {ends : Phase → Except Error β → Prop} {c : Call α}
    {f : α → Call β} {p : Phase} (hc : Consists P c.run) (hP : ∀ {a}, P a → a.Quiet)
    (hok : ∀ a, Obeys id ends (f a).run p) (hfault : ∀ e, ends p (.error e)) :
    Obeys id ends (c >>= f).run p := by
  refine (hc.obeys hP p).bind_call ?_ ?_
  · rintro a q rfl
    exact hok a
  · rintro e q rfl
    exact hfault e

/-- Building a project touches no execution. -/
lemma quiet_of_builds {a : Operation} (h : a.Builds) : a.Quiet := by
  cases a <;> trivial

/-- Nor does keeping results. -/
lemma quiet_of_reports {a : Operation} (h : a.Reports) : a.Quiet := by
  cases a <;> trivial

end obeys

/-! ## Touches, one after the other -/

section touches

variable {β : Type} {id : Uuid} {p : Phase} {ends : Phase → Except Error β → Prop}

lemma Obeys.record {f : Execution → Call β}
    (hnone : ∃ q, p.after (.read none) = some q ∧ ∀ fault, ends q (.error fault))
    (hsome : ∀ e, ∃ q, p.after (.read (some e)) = some q ∧ Obeys id ends (f e).run q) :
    Obeys id ends (Call.record id >>= f).run p := by
  intro answer
  simp only [Phase.next?, Deed.touch?, if_true]
  cases answer with
  | none =>
      obtain ⟨q, hq, hends⟩ := hnone
      exact ⟨q, hq, hends _⟩
  | some e => exact hsome e

lemma Obeys.updateRecord {f : Execution → Call β} {u : Update}
    (hok : ∀ d, ∃ q, p.after (.write u (.ok d)) = some q ∧ Obeys id ends (f d).run q)
    (hfault : ∀ fault, ∃ q, p.after (.write u (.error fault)) = some q ∧ ends q (.error fault)) :
    Obeys id ends (Call.updateRecord id u >>= f).run p := by
  intro answer
  simp only [Phase.next?, Deed.touch?, if_true]
  cases answer with
  | ok d => exact hok d
  | error fault => exact hfault fault

lemma Obeys.claimToken {f : Token → Call β}
    (h : ∀ t, ∃ q, p.after (.claim t) = some q ∧ Obeys id ends (f t).run q) :
    Obeys id ends (Call.claimToken id >>= f).run p := by
  intro answer
  simp only [Phase.next?, Deed.touch?, if_true]
  exact h answer

lemma Obeys.findToken {f : Option Token → Call β}
    (h : ∀ t, ∃ q, p.after (.find t) = some q ∧ Obeys id ends (f t).run q) :
    Obeys id ends (Call.findToken id >>= f).run p := by
  intro answer
  simp only [Phase.next?, Deed.touch?, if_true]
  exact h answer

lemma Obeys.releaseToken {f : Unit → Call β} {q : Phase} (hq : p.after .release = some q)
    (h : Obeys id ends (f ()).run q) : Obeys id ends (Call.releaseToken id >>= f).run p := by
  intro answer
  simp only [Phase.next?, Deed.touch?, if_true]
  exact ⟨q, hq, h⟩

lemma Obeys.fire {f : Unit → Call β} {t : Token} {q : Phase} (hq : p.after (.fire t) = some q)
    (h : Obeys id ends (f ()).run q) : Obeys id ends (Call.fire t >>= f).run p :=
  fun _ => ⟨q, hq, h⟩

lemma Obeys.spawn {f : Reply → Call β} {job : Job} {t : Token} {q : Phase}
    (hq : p.after (.spawn t) = some q) (h : ∀ reply, Obeys id ends (f reply).run q) :
    Obeys id ends (Call.spawn job t >>= f).run p :=
  ⟨q, hq, h⟩

/-- An operation that touches nothing, and cannot fail. -/
lemma Obeys.quiet_ask {operation : Operation} {f : operation.Answer → Call β}
    (hquiet : operation.Quiet) (h : ∀ answer, Obeys id ends (f answer).run p) :
    Obeys id ends (Call.sure (.ask operation) >>= f).run p :=
  fun answer => ⟨p, hquiet.next? p answer, h answer⟩

/-- A call whose fault, if there is one, is an answer like any other. -/
lemma Obeys.outcome {α : Type} {ends' : Phase → Except Error α → Prop} {c : Call α}
    {f : Except Error α → Call β} (hc : Obeys id ends' c.run p)
    (h : ∀ x q, ends' q x → Obeys id ends (f x).run q) :
    Obeys id ends (Call.outcome c >>= f).run p := by
  have houtcome : Obeys id (fun q x => ∃ y, x = .ok y ∧ ends' q y) (Call.outcome c).run p :=
    Obeys.bind hc fun y q hq => ⟨y, rfl, hq⟩
  refine houtcome.bind_call ?_ ?_
  · rintro y q ⟨_, ⟨⟩, hq⟩
    exact h y q hq
  · rintro e q ⟨y, hy, -⟩
    cases hy

end touches

/-! ## Runs -/

namespace Run

variable {id : Uuid}

section

variable [Libraries]

/-- An attempt has at most one job for the runner, with the token it was given. -/
lemma obeys_attempt (settings : RunSettings) (e : Execution)
    (place : Except Refusal Path) (t : Token) :
    Obeys id (fun q _ => q = .begun t ∨ q = .launched t) (attemptIn settings e t place).run
      (.begun t) := by
  cases place with
  | error r => exact .inl rfl
  | ok place =>
  refine (consists_suiteIds e).andThen quiet_of_builds (fun ids => ?_) fun _ => .inl rfl
  refine (Generation.consists_generate _ ids place _).andThen quiet_of_builds ?_ fun _ => .inl rfl
  rintro ⟨_, suites⟩
  refine (Consists.given _).andThen quiet_of_builds (fun path => ?_) fun _ => .inl rfl
  refine Obeys.spawn (if_pos rfl) fun reply => ?_
  cases reply <;> exact .inr rfl

lemma closes_finished (o : Runner.Output) : (finished o).1.closes = true := by
  cases hp : ParsedRun.parse o.stdout with
  | ok run => by_cases hs : o.success = true <;> simp only [finished, hp, hs, if_true] <;> rfl
  | error e => by_cases hs : o.success = true <;> simp only [finished, hp, hs, if_true] <;> rfl

/-- What a run records of its attempt ends the execution. -/
lemma closes_ending (result : Except Error (Runner.Outcome × List Suite)) :
    (ending result).1.closes = true := by
  rcases result with fault | ⟨o | _, suites⟩
  · simp only [ending]
    rfl
  · simp only [ending]
    exact closes_finished o
  · simp only [ending]
    rfl

/-- Recording an ending is a single write. -/
lemma obeys_conclude {t : Token} {p : Phase} (hp : p.Underway t)
    (result : Except Error (Runner.Outcome × List Suite)) :
    Obeys id (fun q _ => q = p) (conclude id result).run p := by
  rw [conclude_eq]
  refine Obeys.quiet_ask trivial fun now => ?_
  have hwrite := hp.write (u := { (ending result).1 with endTime := some now })
    (closes_ending result)
  refine Obeys.updateRecord (fun recorded => ⟨p, hwrite _, ?_⟩) fun _ => ⟨p, hwrite _, rfl⟩
  refine (consists_keepResults id _ _).andThen quiet_of_reports (fun _ => ?_) fun _ => rfl
  exact (consists_tell id _).andThen quiet_of_reports (fun _ => rfl) fun _ => rfl

/-- What comes behind an attempt. -/
lemma obeys_finish {t : Token} {p : Phase} (hp : p.Underway t)
    (place : Except Refusal Path) (result : Except Error (Runner.Outcome × List Suite)) :
    Obeys id Phase.Ends (finish id place result).run p := by
  refine Obeys.outcome (obeys_conclude hp result) ?_
  rintro recorded q rfl
  have hleaves : Obeys id Phase.Ends (do
      Call.releaseToken id
      Call.given recorded : Call Execution).run q := by
    refine Obeys.releaseToken hp.release ?_
    cases recorded <;> trivial
  cases place with
  | ok place => exact Obeys.quiet_ask trivial fun _ => hleaves
  | error r => exact hleaves

/-- **A run keeps to the phases of a run.** -/
theorem obeys_run (settings : RunSettings) (id : Uuid) :
    Obeys id Phase.Ends (run settings id).run .toRun := by
  refine Obeys.record ⟨.done, rfl, fun _ => trivial⟩ fun e => ?_
  by_cases hcancelled : e.status = .cancelled
  · have hbeq : (e.status == Status.cancelled) = true := by
      rw [hcancelled]
      rfl
    refine ⟨.leaving e, if_pos hcancelled, ?_⟩
    simp only [hbeq, if_true]
    exact Obeys.releaseToken rfl rfl
  · have hbeq : (e.status == Status.cancelled) = false := beq_eq_false_iff_ne.mpr hcancelled
    simp only [hbeq, Bool.false_eq_true, if_false]
    by_cases hpending : e.status = .pending
    · refine ⟨.found, (if_neg hcancelled).trans (if_pos hpending), ?_⟩
      have hbecome : e.status.become .running = .ok .running := by
        rw [hpending]
        rfl
      rw [hbecome]
      refine Obeys.claimToken fun t => ⟨.holding t, rfl, ?_⟩
      refine Obeys.quiet_ask trivial fun now => ?_
      refine Obeys.updateRecord (fun running => ⟨.begun t, rfl, ?_⟩) fun _ => ⟨.done, rfl, trivial⟩
      refine Obeys.quiet_ask trivial fun _ => ?_
      refine Obeys.quiet_ask trivial fun place => ?_
      exact Obeys.outcome (obeys_attempt settings running place t) fun result q hq =>
        obeys_finish hq place result
    · have hbecome : e.status.become .running = .error (.invalidTransition e.status .running) := by
        cases hs : e.status with
        | pending => exact absurd hs hpending
        | _ => rfl
      refine ⟨.done, (if_neg hcancelled).trans (if_neg hpending), ?_⟩
      rw [hbecome]
      trivial

end

/-- **A cancellation keeps to the phases of a cancellation.** -/
theorem obeys_cancel (id : Uuid) : Obeys id Phase.Ends (cancel id).run .toCancel := by
  refine Obeys.record ⟨.refused, rfl, fun fault => ⟨fault, rfl⟩⟩ fun e => ?_
  by_cases hcan : e.status.canBecome .cancelled = true
  · refine ⟨.entitled, if_pos hcan, ?_⟩
    have hbecome : e.status.become .cancelled = .ok .cancelled := by
      rw [Status.become, if_pos hcan]
    rw [hbecome]
    refine Obeys.updateRecord (fun d => ⟨.written d, rfl, ?_⟩)
      fun fault => ⟨.refused, rfl, fault, rfl⟩
    refine Obeys.findToken fun found => ?_
    cases found with
    | none =>
        refine ⟨.missed d, rfl, ?_⟩
        exact Obeys.quiet_ask trivial fun _ => rfl
    | some t =>
        refine ⟨.facing d t, rfl, ?_⟩
        refine Obeys.fire (if_pos rfl) ?_
        exact Obeys.quiet_ask trivial fun _ => rfl
  · refine ⟨.refused, if_neg hcan, ?_⟩
    have hbecome : e.status.become .cancelled
        = .error (.invalidTransition e.status .cancelled) := by
      rw [Status.become, if_neg hcan]
    rw [hbecome]
    exact ⟨_, rfl⟩

end Run

/-- Whoever is idle keeps to the phases of the errand. -/
lemma obeys_call [Libraries] (id : Uuid) (errand : Errand) :
    Obeys id Phase.Ends (errand.call id).run (.start errand) := by
  cases errand with
  | run settings => exact Run.obeys_run settings id
  | cancel => exact Run.obeys_cancel id

end Rehearsal
