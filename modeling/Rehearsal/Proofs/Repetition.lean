import Mathlib
import Rehearsal.Proofs.FileTree.Place
import Rehearsal.Proofs.Plot

/-!
# How often an execution is run

A run looks at the record in one operation and writes that the execution is running in a later one.
Whoever looks in between finds the execution pending as well, and will run it too.

* `Part.orderly`: a call **finds the execution pending, begins it and hands it to the runner in this
  order**, each at most once; a cancellation does nothing of the kind.
* `Plot.Step.unpending`: an execution that is not pending stays so, and is found pending no more.
* `Crowd.run_by_finders`: so it is run by those runs only that **looked before the first of them
  wrote**.
* `Crowd.run_twice`: and by two of them, if two looked.
-/

namespace Rehearsal

open Runner (Job Reply Token)
open Relation (ReflTransGen)

/-! ## What is counted -/

namespace Touch

/-- The execution was found pending. -/
def finds : Touch → Bool
  | read (some e) => e.status == .pending
  | _ => false

/-- It was written that the execution is running. -/
def begins : Touch → Bool
  | write u (.ok _) => u.status == some .running
  | _ => false

/-- The runner was given a job. -/
def spawns : Touch → Bool
  | spawn _ => true
  | _ => false

end Touch

namespace Part

/-- How often a run has found the execution pending. -/
def findings (c : Part) : ℕ := if c.errand.IsRun then c.touches.countP Touch.finds else 0

/-- How often a caller has written that the execution is running. -/
def beginnings (c : Part) : ℕ := c.touches.countP Touch.begins

/-- How often a caller has had the runner at work. -/
def spawnings (c : Part) : ℕ := c.touches.countP Touch.spawns

end Part

namespace Plot

/-- What a count comes to over all callers. -/
def total (count : Part → ℕ) (s : Plot) : ℕ := (s.parts.map count).sum

lemma total_mono {f g : Part → ℕ} {s : Plot} (h : ∀ c ∈ s.parts, f c ≤ g c) :
    s.total f ≤ s.total g :=
  List.sum_le_sum h

/-- What one caller does changes its own count only. -/
lemma total_touch (count : Part → ℕ) (v : View) (before after : List Part) (c : Part) :
    total count ⟨v, before ++ c :: after⟩ = total count ⟨v, before ++ after⟩ + count c := by
  simp only [total, List.map_append, List.map_cons, List.sum_append, List.sum_cons]
  omega

end Plot

/-! ## What each caller does -/

/-- A final state is written, so not that the execution is running. -/
lemma Update.not_begins_of_closes {u : Update} (h : u.closes = true) :
    (u.status == some Status.running) = false := by
  refine beq_eq_false_iff_ne.mpr fun hu => ?_
  rw [closes, hu] at h
  cases h

namespace Phase

/-- What the counts may be in a phase. -/
def Tallies (findings beginnings spawnings : ℕ) : Phase → Prop
  | toRun | leaving _ | left _ => findings = 0 ∧ beginnings = 0 ∧ spawnings = 0
  | found | holding _ => findings = 1 ∧ beginnings = 0 ∧ spawnings = 0
  | begun _ => findings = 1 ∧ beginnings = 1 ∧ spawnings = 0
  | launched _ => findings = 1 ∧ beginnings = 1 ∧ spawnings = 1
  | done => spawnings ≤ beginnings ∧ beginnings ≤ findings ∧ findings ≤ 1
  | _ => beginnings = 0 ∧ spawnings = 0

section tallies

variable {p q : Phase} {f b s : ℕ}

/-- Only who finds the execution pending is counted. -/
lemma Tallies.after_read {found : Option Execution} (hp : p.Tallies f b s)
    (hq : p.after (.read found) = some q) :
    q.Tallies (f + (Touch.read found).finds.toNat) b s := by
  cases found with
  | none =>
      rcases after_read_none hq with ⟨rfl, rfl⟩ | ⟨rfl, rfl⟩
      · obtain ⟨rfl, rfl, rfl⟩ := hp
        exact ⟨le_rfl, le_rfl, zero_le_one⟩
      · exact hp
  | some e =>
      rcases after_read_some hq with ⟨rfl, hs, rfl⟩ | ⟨rfl, hs, rfl⟩ | ⟨rfl, -, -, rfl⟩
        | ⟨rfl, rfl | rfl⟩
      · obtain ⟨rfl, rfl, rfl⟩ := hp
        simp [Tallies, Touch.finds, hs]
      · obtain ⟨rfl, rfl, rfl⟩ := hp
        simp [Tallies, Touch.finds, hs]
      · obtain ⟨rfl, rfl, rfl⟩ := hp
        exact ⟨le_rfl, Nat.zero_le _, (Nat.zero_add _).trans_le (Bool.toNat_le _)⟩
      · exact hp
      · exact hp

/-- Only who writes that the execution is running is counted. -/
lemma Tallies.after_write {u : Update} {result : Except Error Execution} (hp : p.Tallies f b s)
    (hq : p.after (.write u result) = some q) :
    q.Tallies f (b + (Touch.write u result).begins.toNat) s := by
  cases result with
  | error fault =>
      rcases after_write_error hq with ⟨t, rfl, rfl⟩ | ⟨t, -, rfl⟩ | ⟨rfl, rfl⟩
      · obtain ⟨rfl, rfl, rfl⟩ := hp
        exact ⟨le_rfl, zero_le_one, le_rfl⟩
      · exact hp
      · exact hp
  | ok d =>
      rcases after_write_ok hq with ⟨t, rfl, hu, rfl⟩ | ⟨t, -, hu, rfl⟩ | ⟨rfl, rfl, rfl⟩
      · obtain ⟨rfl, rfl, rfl⟩ := hp
        simp [Tallies, Touch.begins, hu]
      · simpa [Touch.begins, Update.not_begins_of_closes hu] using hp
      · exact hp

lemma Tallies.after_release (hp : p.Tallies f b s) (hq : p.after .release = some q) :
    q.Tallies f b s := by
  rcases Phase.after_release hq with ⟨e, rfl, rfl⟩ | ⟨t, rfl | rfl, rfl⟩
  · exact hp
  · obtain ⟨rfl, rfl, rfl⟩ := hp
    exact ⟨zero_le_one, le_rfl, le_rfl⟩
  · obtain ⟨rfl, rfl, rfl⟩ := hp
    exact ⟨le_rfl, le_rfl, le_rfl⟩

/-- Each touch that is allowed leads from counts of one phase to counts of the next. -/
lemma Tallies.after {t : Touch} (hp : p.Tallies f b s) (hq : p.after t = some q) :
    q.Tallies (f + t.finds.toNat) (b + t.begins.toNat) (s + t.spawns.toNat) := by
  -- Reading, writing and handing over are counted; whatever else is done leaves the counts alone.
  cases t with
  | create => exact absurd rfl (ne_create hq)
  | read found => exact hp.after_read hq
  | write u result => exact hp.after_write hq
  | claim t =>
      obtain ⟨rfl, rfl⟩ := after_claim hq
      exact hp
  | find found =>
      obtain ⟨d, rfl, rfl⟩ := after_find hq
      cases found with
      | none => exact hp
      | some t => exact hp
  | release => exact hp.after_release hq
  | fire t =>
      obtain ⟨d, rfl, rfl⟩ := after_fire hq
      exact hp
  | spawn t =>
      obtain ⟨rfl, rfl⟩ := after_spawn hq
      obtain ⟨rfl, rfl, rfl⟩ := hp
      exact ⟨rfl, rfl, rfl⟩

end tallies

end Phase

namespace Part

variable {c : Part} {p : Phase}

/-- The phase of a caller tells its counts. -/
lemma tallied (h : c.phase? = some p) :
    p.Tallies (c.touches.countP Touch.finds) c.beginnings c.spawnings := by
  obtain ⟨errand, ts⟩ := c
  refine phase_induction (motive := fun ts p => p.Tallies (ts.countP Touch.finds)
    (ts.countP Touch.begins) (ts.countP Touch.spawns)) ?_ (fun ts p t q hts hq => ?_) h
  · cases errand with
    | run settings => exact ⟨rfl, rfl, rfl⟩
    | cancel => exact ⟨rfl, rfl⟩
  · have hcount : ∀ kind : Touch → Bool,
        (ts ++ [t]).countP kind = ts.countP kind + (kind t).toNat := by
      intro kind
      rw [List.countP_append, List.countP_singleton]
      cases kind t <;> rfl
    simp only [hcount]
    exact hts.after hq

/-- Nobody hands the execution to the runner who has not begun it, nobody begins it who has not
found it pending on a run, and nobody does so twice. -/
lemma orderly (h : c.phase? = some p) :
    c.spawnings ≤ c.beginnings ∧ c.beginnings ≤ c.findings ∧ c.findings ≤ 1 := by
  have htallied := tallied h
  have hrun := isRun_eq h
  by_cases herrand : c.errand.IsRun
  · rw [decide_eq_true herrand] at hrun
    rw [findings, if_pos herrand]
    cases p with
    | toRun | leaving _ | left _ | found | holding _ | begun _ | launched _ =>
        obtain ⟨hf, hb, hs⟩ := htallied
        omega
    | done => exact htallied
    | _ => cases hrun
  · rw [decide_eq_false herrand] at hrun
    rw [findings, if_neg herrand]
    cases p with
    | toCancel | entitled | written _ | facing _ _ | fired _ _ | missed _ | refused =>
        obtain ⟨hb, hs⟩ := htallied
        omega
    | _ => cases hrun

lemma findings_add (c : Part) {t : Touch} (h : t.finds = false) :
    (c.add t).findings = c.findings := by
  simp [findings, add, h]

lemma beginnings_add (c : Part) {t : Touch} (h : t.begins = false) :
    (c.add t).beginnings = c.beginnings := by
  simp [beginnings, add, h]

end Part

/-! ## What becomes of the record -/

/-- The execution is not pending, or not there. -/
def View.Unpending (v : View) : Prop := ∀ e, v.record = some e → e.status ≠ .pending

/-- Nobody writes that an execution is pending. -/
lemma Phase.unpending_of_write {p q : Phase} {u : Update} {d : Execution}
    (h : p.after (.write u (.ok d)) = some q) (now : Instant) (e : Execution) :
    (e.apply now u).status ≠ .pending := by
  rcases after_write_ok h with ⟨t, -, hu, -⟩ | ⟨t, -, hu, -⟩ | ⟨-, rfl, -⟩
  · simp [Execution.apply, hu]
  · rw [Update.closes] at hu
    cases hs : u.status with
    | none =>
        rw [hs] at hu
        cases hu
    | some s =>
        rw [hs] at hu
        cases s with
        | pending | running => cases hu
        | _ => simp [Execution.apply, hs]
  · simp [Execution.apply]

namespace View

variable {v u : View} {t : Touch} {p q : Phase}

/-- An execution that is not pending stays so, whatever is done to it. -/
lemma Unpending.turns (hv : v.Unpending) (hq : p.after t = some q) (h : v.Turns t u) :
    u.Unpending := by
  cases h with
  | create => exact absurd rfl (Phase.ne_create hq)
  | write update now he =>
      rintro d ⟨⟩
      exact Phase.unpending_of_write hq now _
  | _ => exact hv

/-- And is not found pending. -/
lemma Unpending.not_finds (hv : v.Unpending) (h : v.Turns t u) : t.finds = false := by
  cases h with
  | read =>
      cases hr : v.record with
      | none => rfl
      | some e => exact beq_eq_false_iff_ne.mpr (hv e hr)
  | _ => rfl

/-- Once it is written that the execution is running, it is not pending. -/
lemma Turns.unpending (h : v.Turns t u) (hq : p.after t = some q) (ht : t.begins = true) :
    u.Unpending := by
  cases h with
  | write update now he =>
      rintro d ⟨⟩
      exact Phase.unpending_of_write hq now _
  | _ => cases ht

end View

namespace Plot

variable {s u : Plot}

/-- **An execution that is not pending stays so, and no further run finds it pending.** -/
lemma Step.unpending (h : Step s u) (hs : s.view.Unpending) :
    u.view.Unpending ∧ u.total Part.findings = s.total Part.findings := by
  cases h with
  | other parts hspared =>
      refine ⟨?_, rfl⟩
      rw [View.Unpending, hspared.record]
      exact hs
  | @touch v u c p q t before after hp hq hturns =>
      refine ⟨hs.turns hq hturns, ?_⟩
      rw [total_touch, total_touch, c.findings_add (hs.not_finds hturns)]
      rfl

lemma Steps.unpending (h : Steps s u) (hs : s.view.Unpending) :
    u.view.Unpending ∧ u.total Part.findings = s.total Part.findings := by
  refine h.keep (motive := fun u => u.view.Unpending ∧ u.total Part.findings
    = s.total Part.findings) ?_ ⟨hs, rfl⟩
  rintro r u ⟨hunpending, htotal⟩ hstep
  obtain ⟨hlater, hsame⟩ := hstep.unpending hunpending
  exact ⟨hlater, hsame.trans htotal⟩

/-- An execution that somebody has begun is not pending. -/
def Begun (s : Plot) : Prop := 0 < s.total Part.beginnings → s.view.Unpending

lemma Begun.step (hs : s.Begun) (h : Step s u) : u.Begun := by
  intro hu
  cases h with
  | other parts hspared =>
      rw [View.Unpending, hspared.record]
      exact hs hu
  | @touch v u c p q t before after hp hq hturns =>
      -- Who has begun it just now wrote the record; else somebody had begun it before.
      cases ht : t.begins with
      | true => exact hturns.unpending hq ht
      | false =>
          rw [total_touch, c.beginnings_add ht] at hu
          refine View.Unpending.turns (hs ?_) hq hturns
          rw [total_touch]
          exact hu

lemma Begun.steps (hs : s.Begun) (h : Steps s u) : u.Begun :=
  h.keep (fun _ _ => Begun.step) hs

end Plot

/-! ## Crowds -/

namespace Crowd

variable {id : Uuid}

/-- How many runs have found the execution pending. -/
def findings (id : Uuid) (s : Crowd) : ℕ := (s.plot id).total Part.findings

/-- How often it was written that the execution is running. -/
def beginnings (id : Uuid) (s : Crowd) : ℕ := (s.plot id).total Part.beginnings

/-- How often the runner was given the execution. -/
def spawnings (id : Uuid) (s : Crowd) : ℕ := (s.plot id).total Part.spawnings

lemma begun_start [Libraries] (w : World) (id : Uuid) (errands : List Errand) :
    ((start w id errands).plot id).Begun := by
  intro h
  have hnone : ((start w id errands).plot id).total Part.beginnings = 0 := by
    refine List.sum_eq_zero fun n hn => ?_
    obtain ⟨c, hc, rfl⟩ := List.mem_map.mp hn
    obtain ⟨idle, hidle, rfl⟩ := List.mem_map.mp hc
    obtain ⟨errand, -, rfl⟩ := List.mem_map.mp hidle
    rfl
  omega

/-- The counts of a crowd that keeps to the phases are in order. -/
lemma Conducted.orderly {s : Crowd} (hs : s.Conducted id) :
    s.spawnings id ≤ s.beginnings id ∧ s.beginnings id ≤ s.findings id := by
  have hparts : ∀ c ∈ (s.plot id).parts,
      c.spawnings ≤ c.beginnings ∧ c.beginnings ≤ c.findings := by
    intro c hc
    obtain ⟨caller, hcaller, rfl⟩ := List.mem_map.mp hc
    obtain ⟨p, hp, -⟩ := hs caller hcaller
    obtain ⟨hspawned, hbegun, -⟩ := Part.orderly hp
    exact ⟨hspawned, hbegun⟩
  exact ⟨Plot.total_mono fun c hc => (hparts c hc).1, Plot.total_mono fun c hc => (hparts c hc).2⟩

end Crowd

/-! ## Runs that look -/

/-- A run that has read the record. -/
def Caller.finder [Libraries] (id : Uuid) (settings : RunSettings) (e : Execution) : Caller :=
  ⟨.run settings, [.act (.record id) (some e)], .going (Run.proceed settings id e).run⟩

/-- A caller that waits for the runner has found the execution pending, begun it and handed it
over, each once. -/
lemma Caller.Conducted.tally_of_waiting {id : Uuid} {c : Caller} (h : c.Conducted id)
    {token : Token}
    {next : Reply → Procedure (Except Error Execution)} (hc : c.stage = .waiting token next) :
    (c.part id).findings = 1 ∧ (c.part id).beginnings = 1 ∧ (c.part id).spawnings = 1 := by
  obtain ⟨p, hp, hfollows⟩ := h
  rw [hc] at hfollows
  obtain ⟨rfl, -⟩ := hfollows
  obtain ⟨-, hbegun, hspawned⟩ := Part.tallied hp
  obtain ⟨-, hfound, hone⟩ := Part.orderly hp
  omega

namespace Crowd

section moves

variable {w v : World} {id : Uuid} {d e : Execution} {settings : RunSettings}

lemma move_find [Libraries] (settings : RunSettings) (h : w.store.logbook.record? id = some e)
    (before after : List Caller) :
    Move ⟨w, before ++ Caller.idle id (.run settings) :: after⟩
      ⟨w, before ++ Caller.finder id settings e :: after⟩ := by
  have hread : (w.perform (.record id)).2 = some e := h
  have hmove := Move.mk before after (Caller.Moves.act w (.run settings) [] (.record id)
    fun found => (Call.found (.unknownExecution id) found >>= Run.proceed settings id).run)
  rw [hread] at hmove
  exact hmove

/-- A run that found the execution pending goes on until it waits for the runner, if its attempt
does, whatever the record has become in the meantime. -/
lemma moves_proceed [Libraries] (hd : w.store.logbook.record? id = some d)
    (he : e.status = .pending)
    {job : Job} {token : Token}
    {next : Reply → Procedure (Except Error (Runner.Outcome × List Suite))}
    (hattempt : (Run.begun w id d).advance (Run.attemptIn settings (Run.running w d)
      (Run.tokenOf w id) (Run.placeOf settings w id)).run = (v, .waiting job token next))
    (before after : List Caller) :
    ∃ deeds onReply, ReflTransGen Move
      ⟨w, before ++ Caller.finder id settings e :: after⟩
      ⟨v, before ++ ⟨.run settings, deeds, .waiting token onReply⟩ :: after⟩ := by
  have hwait : ∃ onReply, w.advance (Run.proceed settings id e).run
      = (v, .waiting job token onReply) :=
    ⟨_, (Run.advance_proceed settings hd he).trans
      (World.advance_bind_waiting (World.advance_outcome_waiting hattempt))⟩
  obtain ⟨onReply, hwait⟩ := hwait
  obtain ⟨more, hmore⟩ := moves_of_advance w before after (.run settings)
    [.act (.record id) (some e)] (Run.proceed settings id e).run
  rw [hwait] at hmore
  exact ⟨_, onReply, hmore⟩

end moves

/-! ## How often an execution is run -/

variable {id : Uuid} {w : World} {errands : List Errand}

/-- **An execution is run by those only who looked before the first of them wrote.**  A caller finds
it pending, begins it and hands it to the runner in this order and once at most, and only a run
does.  An execution that was begun is not pending.  And from the time that it is not pending, all
callers together begin it and hand it over no more often than runs had found it pending by then. -/
theorem run_by_finders [Libraries] {s : Crowd} (hs : Steps id (start w id errands) s) :
    (∀ c ∈ s.callers, (c.part id).spawnings ≤ (c.part id).beginnings
      ∧ (c.part id).beginnings ≤ (c.part id).findings ∧ (c.part id).findings ≤ 1) ∧
    (0 < s.beginnings id → (s.world.view id).Unpending) ∧
    ((s.world.view id).Unpending → ∀ t, Steps id s t →
      (t.world.view id).Unpending ∧ t.findings id = s.findings id
      ∧ t.spawnings id ≤ t.beginnings id ∧ t.beginnings id ≤ t.findings id) := by
  obtain ⟨hconducted, hplot⟩ := hs.plot (conducted_start w id errands)
  refine ⟨fun c hc => ?_, (begun_start w id errands).steps hplot, fun hunpending t ht => ?_⟩
  · obtain ⟨p, hp, -⟩ := hconducted c hc
    exact Part.orderly hp
  · obtain ⟨hconducted', hplot'⟩ := ht.plot hconducted
    obtain ⟨hlater, hsame⟩ := hplot'.unpending hunpending
    exact ⟨hlater, hsame, hconducted'.orderly⟩

/-! ### A house with one bare suite -/

section house

open scoped Libraries.Lenient

/-- A world in which a project with one bare suite is all that is stored. -/
def house : World :=
  { World.bare with
    store := Store.empty.callAll
      [(default, .putProject (.make ⟨2⟩ "b")), (default, .putSuite (.make ⟨1⟩ ⟨2⟩ "a" []))] }

/-- The same, with an execution of the suite. -/
def opened : World := (house.result? (Run.create (.forSuite ⟨2⟩ ⟨1⟩))).1

def billed : Execution := (Request.forSuite ⟨2⟩ ⟨1⟩).toExecution ⟨1⟩ default

def plain : RunSettings := ⟨⟨"/work"⟩, 1000, .standard⟩

/-- The workspace of its runs. -/
def place : Path := ⟨"/work/test_00000000-0000-0000-0000-000000000001"⟩

/-- What a run of the execution comes to by itself, if this is the record that it writes over. -/
def tried (w : World) (d : Execution) :
    World × World.Rest (Except Error (Runner.Outcome × List Suite)) :=
  (Run.begun w ⟨1⟩ d).advance
    (Run.attemptIn plain (Run.running w d) (Run.tokenOf w ⟨1⟩) (.ok place)).run

/-- The path to the workspace is the same wherever relative paths begin. -/
lemma placeOf_plain (w : World) : Run.placeOf plain w ⟨1⟩ = .ok place := by
  have habsolute : (Run.workspace plain.workDir ⟨1⟩).isAbsolute = true := by decide +kernel
  have hplace : (Run.workspace plain.workDir ⟨1⟩).absolute ⟨"/"⟩ = place := by decide +kernel
  refine FileTree.locate_eq_ok_iff.mpr ⟨by decide +kernel, .inl habsolute, ?_⟩
  rw [← hplace, Path.absolute, Path.absolute, habsolute]
  rfl

lemma record?_tried {w : World} {d : Execution} :
    (tried w d).1.store.logbook.record? ⟨1⟩ = some (Run.running w d) := by
  have hstore : (tried w d).1.store = (Run.begun w ⟨1⟩ d).store := by
    rcases Run.advance_attempt plain (Run.running w d) (.ok place) (Run.tokenOf w ⟨1⟩)
      (Run.begun w ⟨1⟩ d) with ⟨tree, fault, h, -⟩ | ⟨tree, job, next, h, -⟩
    · rw [tried, h]
    · rw [tried, h]
  rw [hstore, Run.record?_begun]

/-- A run that found the execution pending comes to wait for the runner. -/
lemma moves_tried {w : World} {d e : Execution} (hd : w.store.logbook.record? ⟨1⟩ = some d)
    (he : e.status = .pending) (hwaits : (tried w d).2.waits = true)
    (before after : List Caller) :
    ∃ deeds token onReply, ReflTransGen Move
      ⟨w, before ++ Caller.finder ⟨1⟩ plain e :: after⟩
      ⟨(tried w d).1, before ++ ⟨.run plain, deeds, .waiting token onReply⟩ :: after⟩ := by
  obtain ⟨v, job, token, next, htried⟩ := World.exists_of_waits hwaits
  have hattempt := htried
  rw [← placeOf_plain w] at hattempt
  obtain ⟨deeds, onReply, hmoves⟩ := moves_proceed hd he hattempt before after
  rw [tried, htried]
  exact ⟨deeds, token, onReply, hmoves⟩

lemma both_wait : (tried opened billed).2.waits = true
    ∧ (tried (tried opened billed).1 (Run.running opened billed)).2.waits = true := by
  decide +kernel

lemma result?_house :
    house.result? (Run.create (.forSuite ⟨2⟩ ⟨1⟩)) = (opened, some (.ok billed)) := rfl

lemma record?_opened : opened.store.logbook.record? ⟨1⟩ = some billed := by
  rw [(Run.create_eq_ok result?_house).2.2]
  exact (Logbook.record?_put ..).trans (if_pos rfl)

/-- Who comes after the first run has begun does not run the execution any more. -/
theorem run_by_finders_first : ∃ s, Steps ⟨1⟩ (start opened ⟨1⟩ [.run plain, .run plain]) s
    ∧ s.spawnings ⟨1⟩ = 1
    ∧ ∀ t, Steps ⟨1⟩ s t → t.beginnings ⟨1⟩ ≤ 1 ∧ t.spawnings ⟨1⟩ ≤ 1 := by
  have hlook := move_find plain record?_opened [] [.idle ⟨1⟩ (.run plain)]
  obtain ⟨deeds, token, onReply, hrun⟩ := moves_tried (e := billed) record?_opened rfl
    both_wait.1 [] [.idle ⟨1⟩ (.run plain)]
  have hs : Steps ⟨1⟩ (start opened ⟨1⟩ [.run plain, .run plain]) _ :=
    steps_of_moves ⟨1⟩ (.head hlook hrun)
  obtain ⟨hconducted, -⟩ := hs.plot (conducted_start opened ⟨1⟩ _)
  obtain ⟨hfound, hbegun, hspawned⟩ :=
    (hconducted _ (List.mem_cons_self ..)).tally_of_waiting rfl
  obtain ⟨-, hunpending, hlater⟩ := run_by_finders hs
  refine ⟨_, hs, ?_, fun t ht => ?_⟩
  · show _ + (0 + 0) = 1
    omega
  · obtain ⟨-, hfindings, hspawnings, hbeginnings⟩ :=
      hlater (hunpending (Nat.lt_of_lt_of_eq Nat.zero_lt_one hbegun.symm)) t ht
    have hone : t.findings ⟨1⟩ = 1 := hfindings.trans hfound
    omega

/-- **Two runs that look before either of them writes both run the execution.** -/
theorem run_twice :
    ∃ s, house.result? (Run.create (.forSuite ⟨2⟩ ⟨1⟩)) = (opened, some (.ok billed))
      ∧ ReflTransGen Move (start opened ⟨1⟩ [.run plain, .run plain]) s
      ∧ s.beginnings ⟨1⟩ = 2 ∧ s.spawnings ⟨1⟩ = 2 := by
  obtain ⟨hfirst, hsecond⟩ := both_wait
  -- Both look.  Then the first goes on, and the second after it, on what it saw.
  have hlook := move_find plain record?_opened [] [.idle ⟨1⟩ (.run plain)]
  have hlookToo := move_find plain record?_opened [.finder ⟨1⟩ plain billed] []
  obtain ⟨deeds, token, onReply, hrun⟩ := moves_tried (e := billed) record?_opened rfl hfirst []
    [.finder ⟨1⟩ plain billed]
  obtain ⟨deeds', token', onReply', hrunToo⟩ := moves_tried (e := billed) record?_tried rfl
    hsecond [⟨.run plain, deeds, .waiting token onReply⟩] []
  have hmoves : ReflTransGen Move (start opened ⟨1⟩ [.run plain, .run plain]) _ :=
    ((ReflTransGen.single hlook).tail hlookToo).trans (hrun.trans hrunToo)
  obtain ⟨hconducted, -⟩ := (steps_of_moves ⟨1⟩ hmoves).plot (conducted_start opened ⟨1⟩ _)
  obtain ⟨-, hbegun, hspawned⟩ := (hconducted _ (List.mem_cons_self ..)).tally_of_waiting rfl
  obtain ⟨-, hbegun', hspawned'⟩ :=
    (hconducted _ (List.mem_cons_of_mem _ (List.mem_cons_self ..))).tally_of_waiting rfl
  refine ⟨_, result?_house, hmoves, ?_, ?_⟩
  · show _ + (_ + 0) = 2
    omega
  · show _ + (_ + 0) = 2
    omega

end house

end Crowd

end Rehearsal
