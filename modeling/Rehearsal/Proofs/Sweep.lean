import Mathlib
import Rehearsal.Deployment
import Rehearsal.Sweep
import Rehearsal.Proofs.Text.Utf8

/-!
# What sweeping keeps

A sweep tells a workspace that was left behind from one in use by its age alone.

* `Sweep.mem_sweep`: what a sweep leaves.
* `Sweep.Step`: what may happen in the directory of workspaces **while a run is at work**.  Time
  passes, sweeps come at any moment, and other runs build and remove workspaces of their own.
* `Sweep.mem_runUntil`: the task that sweeps at intervals is one of the things that may happen.
* `Sweep.kept_at_work_iff`: a workspace in use **is safe exactly if the retention is longer** than
  the runner's time and what went before.
* `Deployment.ofEnvironment_telling`: no deployment has to be like that, not even in production.
-/

namespace Rehearsal

open Relation (ReflTransGen)

/-! ## Timeout and retention are told independently -/

namespace Deployment

/-- A number that is written out is read back. -/
lemma natural64?_repr {n : Nat} (h : n < 0x10000000000000000) : natural64? n.repr = some n := by
  have hdigit : ∀ c ∈ Nat.toDigits 10 n, c.isDigit = true :=
    fun c hc => Nat.isDigit_of_mem_toDigits (by decide) (by decide) hc
  have hempty : (Nat.toDigits 10 n).isEmpty = false := by
    rw [List.isEmpty_eq_false_iff]
    exact Nat.toDigits_ne_nil
  have hvalue : (Nat.toDigits 10 n).foldl (fun n c => 10 * n + (c.toNat - '0'.toNat)) 0 = n :=
    Nat.ofDigitChars_toDigits (by decide) (by decide)
  simp only [natural64?, Nat.toList_repr]
  split
  next rest hsign =>
    have hplus := hdigit '+' (hsign ▸ List.mem_cons_self)
    exact absurd hplus (by decide)
  next =>
    simp only [hempty, List.all_eq_true.mpr hdigit, hvalue, if_pos h, Bool.not_true, Bool.or_self,
      Bool.false_eq_true, if_false]

lemma number_eq {env : Environment} {name : String} {n : Nat} (h : env name = some n.repr)
    (hn : n < 0x10000000000000000) (standard : Nat) : number env name standard = .ok n := by
  simp only [number, h, natural64?_repr hn]

/-- What tells of a mode, of a timeout and of a retention. -/
def telling (mode : Mode) (timeout retention : Nat) : Environment
  | "RUST_ENV" => some mode.name
  | "NCPW_WORK_DIR" => some "/work"
  | "NCPW_RUNNER_TIMEOUT_SECS" => some timeout.repr
  | "NCPW_WORKSPACE_RETENTION_HOURS" => some retention.repr
  | _ => none

/-- **Any timeout goes with any retention.** -/
theorem ofEnvironment_telling (mode : Mode) (timeout retention : Nat) (hpositive : 0 < timeout)
    (htimeout : timeout < 0x10000000000000000) (hretention : retention < 0x10000000000000000) :
    ∃ d, ofEnvironment (telling mode timeout retention) = .ok d ∧ d.mode = mode
      ∧ d.timeout = timeout ∧ d.retention = retention := by
  have hmode : modeOf (telling mode timeout retention) = .ok mode := by
    have hparse : Mode.parse? mode.name = some mode := by
      cases mode <;> decide +kernel
    simp only [modeOf, telling, hparse]
  have hfit : ∀ d : Deployment, d.workDir = ⟨"/work"⟩ → d.timeout = timeout → d.fit = .ok d := by
    intro d hdir ht
    have habsolute : d.workDir.isAbsolute = true := by
      rw [hdir]
      decide +kernel
    simp [fit, shortcomings, habsolute, ht, hpositive.ne']
  have htimeout' : telling mode timeout retention "NCPW_RUNNER_TIMEOUT_SECS" = some timeout.repr :=
    rfl
  have hretention' : telling mode timeout retention "NCPW_WORKSPACE_RETENTION_HOURS"
      = some retention.repr := rfl
  have hbrowser : browserOf (telling mode timeout retention) = .ok .chromium := by
    have hparse : Browser.parse? "chromium" = some .chromium := by
      decide +kernel
    have hunset : telling mode timeout retention "NCPW_DEFAULT_BROWSER" = none := rfl
    simp only [browserOf, hunset, Option.getD_none, hparse]
  have hinterval : number (telling mode timeout retention) "NCPW_CLEANUP_INTERVAL_SECS" 3600
      = .ok 3600 := rfl
  rw [ofEnvironment, hmode, number_eq htimeout' htimeout, hbrowser,
    number_eq hretention' hretention, hinterval]
  exact ⟨_, hfit _ rfl rfl, rfl, rfl, rfl⟩

end Deployment

namespace Sweep

variable {now : Int} {hours : Nat} {found : List Found}

/-! ## What a sweep leaves -/

lemma mem_sweep {f : Found} :
    f ∈ (sweep now hours found).2 ↔ f ∈ found ∧ expired now hours f = false := by
  rw [sweep, List.mem_filter, Bool.not_eq_true']

/-- What has changed since the epoch is kept for the retention, also where that reaches back
further than times can be told. -/
lemma cutoff_lt_iff {changed : Int} (h : 0 < changed) :
    cutoff now hours < changed ↔ now - changed < retentionSeconds hours * second := by
  simp only [cutoff, second, minSeconds]
  split_ifs with htold <;> omega

/-- The workspace of an execution, last changed at this time. -/
def workspaceOf (id : Uuid) (changed : Int) : Found :=
  ⟨Text.Utf8.encode (Run.workspaceName id), .directory, changed⟩

lemma isWorkspace_iff {name : List UInt8} : isWorkspace name = true ↔
    ∃ s, name = Text.Utf8.encode s ∧ Run.workspaceStart.toList <+: s.toList := by
  simp only [isWorkspace, Option.any_eq_true, Text.Utf8.text?_eq_some_iff,
    List.isPrefixOf_iff_prefix]

lemma isWorkspace_workspaceName (id : Uuid) :
    isWorkspace (Text.Utf8.encode (Run.workspaceName id)) = true := by
  refine isWorkspace_iff.mpr ⟨_, rfl, ?_⟩
  rw [Run.workspaceName, String.toList_append]
  exact List.prefix_append _ _

variable {id : Uuid} {changed : Int}

lemma mem_sweep_workspaceOf (h : 0 < changed) : workspaceOf id changed ∈ (sweep now hours found).2
    ↔ workspaceOf id changed ∈ found ∧ now - changed < retentionSeconds hours * second := by
  have hexpired : expired now hours (workspaceOf id changed) = false
      ↔ cutoff now hours < changed := by
    rw [workspaceOf, expired]
    simp [isWorkspace_workspaceName]
  rw [mem_sweep, hexpired, cutoff_lt_iff h]

/-! ## While a run is at work -/

/-- The directory of workspaces at some time. -/
structure Yard where
  now : Int
  found : List Found

/-- What may happen as long as a run does not touch its workspace. -/
inductive Step (hours : Nat) (own : Found) : Yard → Yard → Prop
  | pass {now later : Int} (found : List Found) (h : now ≤ later) :
      Step hours own ⟨now, found⟩ ⟨later, found⟩
  | sweep (now : Int) (found : List Found) :
      Step hours own ⟨now, found⟩ ⟨now, (sweep now hours found).2⟩
  /-- Other workspaces come, change and go, and so does whatever else there may be. -/
  | other (now : Int) {found found' : List Found} (h : own ∈ found' ↔ own ∈ found) :
      Step hours own ⟨now, found⟩ ⟨now, found'⟩

/-- What steps lead to. -/
abbrev Steps (hours : Nat) (own : Found) : Yard → Yard → Prop := ReflTransGen (Step hours own)

lemma Step.now_le {own : Found} {y z : Yard} (h : Step hours own y z) : y.now ≤ z.now := by
  cases h with
  | pass found h => exact h
  | sweep now found => exact le_rfl
  | other now h => exact le_rfl

lemma Step.kept {y z : Yard} (h : Step hours (workspaceOf id changed) y z) (hchanged : 0 < changed)
    (hyoung : z.now - changed < retentionSeconds hours * second)
    (hy : workspaceOf id changed ∈ y.found) : workspaceOf id changed ∈ z.found := by
  cases h with
  | pass found h => exact hy
  | sweep now found => exact (mem_sweep_workspaceOf hchanged).mpr ⟨hy, hyoung⟩
  | other now h => exact h.mpr hy

/-- Nobody takes away a workspace that is young enough. -/
lemma Steps.kept {y z : Yard} (h : Steps hours (workspaceOf id changed) y z)
    (hchanged : 0 < changed) (hyoung : z.now - changed < retentionSeconds hours * second)
    (hy : workspaceOf id changed ∈ y.found) : workspaceOf id changed ∈ z.found := by
  induction h with
  | refl => exact hy
  | tail _ hstep ih =>
      have hbefore := hstep.now_le
      exact hstep.kept hchanged hyoung (ih (by omega))

/-- Sweeping again and again is one of the things that may happen. -/
lemma steps_runUntil (own : Found) (seconds wanted ticks : Nat) (now : Int) (found : List Found) :
    ∃ later, Steps hours own ⟨now, found⟩ ⟨later, runUntil now hours seconds wanted ticks found⟩
      ∧ later ≤ now + ticks * (interval seconds * second) := by
  induction ticks generalizing now found with
  | zero => exact ⟨now, .refl, by simp⟩
  | succ ticks ih =>
      have htick : (0 : Int) ≤ interval seconds * second := by
        simp only [second]
        omega
      have hsweep : Step hours own ⟨now, found⟩ ⟨now, (sweep now hours found).2⟩ := .sweep ..
      rw [runUntil]
      split_ifs with hdone
      · exact ⟨now, .single hsweep, le_add_of_nonneg_right (mul_nonneg (by omega) htick)⟩
      · obtain ⟨later, hsteps, hlater⟩ := ih (now + interval seconds * second) _
        refine ⟨later, .head hsweep (.head (.pass _ (by omega)) hsteps), ?_⟩
        push_cast
        linarith

/-- So a task that sweeps again and again keeps what is young until its last sweep. -/
theorem mem_runUntil (hchanged : 0 < changed) (seconds wanted ticks : Nat)
    (hyoung : now + ticks * (interval seconds * second) - changed
      < retentionSeconds hours * second)
    (hfound : workspaceOf id changed ∈ found) :
    workspaceOf id changed ∈ runUntil now hours seconds wanted ticks found := by
  obtain ⟨later, hsteps, hlater⟩ :=
    steps_runUntil (workspaceOf id changed) seconds wanted ticks now found
  have hlast : later - changed < retentionSeconds hours * second := by
    omega
  exact hsteps.kept hchanged hlast hfound

/-- **A workspace is safe while its runner keeps to its time exactly if it is kept for longer**: for
longer than that time and what has gone by between its last change and the start of the runner. -/
theorem kept_at_work_iff (d : Deployment) {built spawned : Int} (hchanged : 0 < changed)
    (hspawned : built ≤ spawned) (hfound : workspaceOf id changed ∈ found) :
    (∀ y, Steps d.retention (workspaceOf id changed) ⟨built, found⟩ y →
        y.now ≤ spawned + d.timeout * second → workspaceOf id changed ∈ y.found)
      ↔ (spawned - changed) + d.timeout * second < retentionSeconds d.retention * second := by
  constructor
  · intro h
    -- The last moment is the one that decides.
    have hlast : built ≤ spawned + d.timeout * second := by
      simp only [second]
      omega
    have hkept := h _ (.tail (.single (.pass found hlast)) (.sweep _ found)) le_rfl
    have hyoung := ((mem_sweep_workspaceOf hchanged).mp hkept).2
    omega
  · intro hlong y hsteps hy
    exact hsteps.kept hchanged (by omega) hfound

/-- With half an hour for the runner and a day for what is left behind, a minute for building does
no harm. -/
theorem kept_at_work_standard :
    ∃ d, Deployment.ofEnvironment (Deployment.telling .production 1800 24) = .ok d
      ∧ ∀ y, Steps d.retention (workspaceOf ⟨1⟩ second) ⟨second, [workspaceOf ⟨1⟩ second]⟩ y →
        y.now ≤ 61 * second + d.timeout * second → workspaceOf ⟨1⟩ second ∈ y.found := by
  obtain ⟨d, hd, -, htimeout, hretention⟩ :=
    Deployment.ofEnvironment_telling .production 1800 24 (by decide) (by decide) (by decide)
  refine ⟨d, hd, (kept_at_work_iff d (by decide) (by decide) (List.mem_singleton_self _)).mpr ?_⟩
  rw [htimeout, hretention]
  decide

/-- With two hours for the runner and one for what is left behind, which will do in production, a
run may lose its workspace half an hour before its time is up. -/
theorem swept_at_work :
    ∃ d, Deployment.ofEnvironment (Deployment.telling .production 7200 1) = .ok d
      ∧ ∃ y, Steps d.retention (workspaceOf ⟨1⟩ second) ⟨second, [workspaceOf ⟨1⟩ second]⟩ y
        ∧ y.now + 1800 * second = second + d.timeout * second
        ∧ workspaceOf ⟨1⟩ second ∉ y.found := by
  obtain ⟨d, hd, -, htimeout, hretention⟩ :=
    Deployment.ofEnvironment_telling .production 7200 1 (by decide) (by decide) (by decide)
  have hpass : Step d.retention (workspaceOf ⟨1⟩ second) ⟨second, [workspaceOf ⟨1⟩ second]⟩
      ⟨5401 * second, [workspaceOf ⟨1⟩ second]⟩ := .pass _ (by decide)
  refine ⟨d, hd, _, .tail (.single hpass) (.sweep ..), ?_, fun hkept => ?_⟩
  · show 5401 * second + 1800 * second = second + d.timeout * second
    rw [htimeout]
    decide
  · have hyoung := ((mem_sweep_workspaceOf (by decide)).mp hkept).2
    rw [hretention] at hyoung
    exact absurd hyoung (by decide)

end Sweep

end Rehearsal
