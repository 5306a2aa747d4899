import Mathlib
import Rehearsal.Proofs.Workspace.Job

/-!
# Workspaces beside one another

Any number of runs of different executions share a directory of workspaces.  Each goes on operation
by operation, and removing and filling go on part by part; what does not concern files may be
answered in any way, so that anything else may fail.

* `Plan.picture`: what stands below the root of a generated project, and **nothing else does**.
* `Run.Accessible`: the directory of workspaces stands, or its path only leads down.  Then the way
  to it leads through no workspace (`Run.Accessible.apart`); a path such as `work/test_1/..` would,
  if there is no such directory yet.
* `Workshop.Step`: one of the runs goes on.
* `Workshop.Tended`: what every step keeps.
* `Workshop.Isolated`: while its runner is at work, **the tree below a workspace is exactly what was
  generated there**; a run that has returned **leaves nothing behind**, and it has not removed its
  workspace before it tried to record the ending.
* `Workshop.runs_isolated`: so it is with every run, and nothing else changes.
  `Workshop.isolated_of_accessible`: what this comes to for the usual directories.
-/

namespace Rehearsal

open Runner (Job Reply Token)
open Relation (ReflTransGen)

/-! ## The picture of a project -/

/-- What stands below the root of a generated project, by the names that lead there. -/
def Plan.picture (all : List Artifact) (ns : Place) : Option Entry :=
  if ns ∈ layout then some .directory
  else (all.find? fun a => a.names == ns).map fun a => .file a.content

/-- Where nothing was before, there is what was built and nothing else. -/
lemma Site.Built.content_eq {s : Site} {all : List Artifact} {t u : FileTree}
    (h : s.Built all t u) (hvacant : s.Vacant t) (happart : s.Apart t.current) (ns : List String) :
    s.content u ns = Plan.picture all ns := by
  rw [Plan.picture]
  split_ifs with hlayout
  · exact (h.directories ns hlayout).2
  · cases hfind : all.find? fun a => a.names == ns with
    | some a =>
        have hfound := List.find?_some hfind
        have hns : a.names = ns := beq_iff_eq.mp hfound
        rw [← hns, h.files a (List.mem_of_find?_eq_some hfind), Option.map_some]
    | none =>
        have hnew : ∀ a ∈ all, ns ≠ a.names := fun a ha hns =>
          List.find?_eq_none.mp hfind a ha (beq_iff_eq.mpr hns.symm)
        rcases h.rest ns hnew with hsame | ⟨hplace | hway, -, -⟩
        · exact hsame.trans (hvacant ns)
        · exact absurd hplace hlayout
        · exact absurd (List.prefix_append _ ns) (happart _ (List.mem_cons_of_mem _ hway))

/-! ## The way to the workspaces -/

/-- Steps that lead down or stay. -/
def Segment.Forward (s : Segment) : Prop := s = .here ∨ ∃ n, s = .name n

namespace FileTree

lemma prefix_landing {steps : List Segment} (h : ∀ s ∈ steps, s.Forward) (p : Place) :
    p <+: landing p steps := by
  induction steps generalizing p with
  | nil => exact List.prefix_rfl
  | cons s steps ih =>
      obtain ⟨hs, hrest⟩ := List.forall_mem_cons.mp h
      have hstep : p <+: s.follow p := by
        rcases hs with rfl | ⟨n, rfl⟩
        · exact List.prefix_rfl
        · exact List.prefix_append _ _
      exact hstep.trans (ih hrest _)

lemma prefix_landing_of_passed {steps : List Segment} (h : ∀ s ∈ steps, s.Forward) {p q : Place}
    (hq : q ∈ passed p steps) : q <+: landing p steps := by
  induction steps generalizing p with
  | nil => cases hq
  | cons s steps ih =>
      rcases List.mem_cons.mp hq with rfl | hq
      · exact prefix_landing h q
      · exact ih (List.forall_mem_cons.mp h).2 hq

end FileTree

namespace Run

variable {workDir : Path} {t : FileTree} {id : Uuid}

/-- What stands is in no workspace in which nothing stands. -/
lemma not_prefix_of_stands {s : Site} {q : Place} {e : Entry} (hvacant : s.Vacant t)
    (h : t.get? q = some e) : ¬s.place <+: q := by
  rintro ⟨ns, rfl⟩
  cases h.symm.trans (hvacant ns)

/-- If the directory of workspaces stands, the way to it passes no workspace in which nothing
stands. -/
lemma apart_of_stands (hways : ∀ q ∈ t.current :: ways workDir t, t.get? q = some .directory)
    (hvacant : (site workDir t id).Vacant t) : (site workDir t id).Apart t.current := by
  intro q hq
  rw [ancestors_site] at hq
  exact not_prefix_of_stands hvacant (hways q hq)

/-- Whether it stands or not, a way that only leads down passes no workspace. -/
lemma apart_of_forward (hforward : ∀ s ∈ workSteps workDir t, s.Forward)
    (hcurrent : t.get? t.current = some .directory) (hvacant : (site workDir t id).Vacant t) :
    (site workDir t id).Apart t.current := by
  intro q hq
  rw [ancestors_site] at hq
  rcases List.mem_cons.mp hq with rfl | hway
  · exact not_prefix_of_stands hvacant hcurrent
  · have hbegins : q <+: workPlace workDir t := by
      rcases List.mem_append.mp hway with hpassed | hlast
      · exact FileTree.prefix_landing_of_passed hforward hpassed
      · exact List.mem_singleton.mp hlast ▸ List.prefix_rfl
    intro hplace
    have hlong := (hplace.trans hbegins).length_le
    rw [place_site, List.length_append, List.length_singleton] at hlong
    omega

/-- The directory of workspaces stands, or the way to it only leads down. -/
def Accessible (workDir : Path) (t : FileTree) : Prop :=
  t.get? t.current = some .directory
    ∧ ((∀ q ∈ ways workDir t, t.get? q = some .directory)
      ∨ ∀ s ∈ workSteps workDir t, s.Forward)

lemma Accessible.apart (h : Accessible workDir t) (hvacant : (site workDir t id).Vacant t) :
    (site workDir t id).Apart t.current := by
  obtain ⟨hcurrent, hstands | hforward⟩ := h
  · exact apart_of_stands (List.forall_mem_cons.mpr ⟨hcurrent, hstands⟩) hvacant
  · exact apart_of_forward hforward hcurrent hvacant

/-- The workspace holds what was generated for a job from the suites of its execution, and nothing
else. -/
def Furnished [Libraries] (style : Source.Style) (id : Uuid) (s : Site) (before : FileTree)
    (deeds : List Deed) (job : Job) (t : FileTree) : Prop :=
  ∃ e ids suites pages all, Prepared style id s before deeds job t e ids suites pages all
    ∧ ∀ ns, s.content t ns = Plan.picture all ns

lemma furnished_of_ready [Libraries] {style : Source.Style} {s : Site} {before : FileTree}
    {deeds : List Deed} {job : Job} (hvacant : s.Vacant before) (happart : s.Apart before.current)
    (h : (rules style s id before).ready deeds job t) :
    Furnished style id s before deeds job t := by
  obtain ⟨e, ids, suites, pages, all, hprepared⟩ := h
  exact ⟨e, ids, suites, pages, all, hprepared, hprepared.built.content_eq hvacant happart⟩

end Run

/-! ## Runs that share a directory of workspaces -/

/-- A run of an execution. -/
structure Worker where
  id : Uuid
  caller : Caller

/-- A tree, and runs that share it. -/
structure Workshop where
  tree : FileTree
  workers : List Worker

namespace Workshop

/-- Runs that have done nothing yet. -/
def start [Libraries] (t : FileTree) (settings : Uuid → RunSettings) (ids : List Uuid) : Workshop :=
  ⟨t, ids.map fun id => ⟨id, .idle id (.run (settings id))⟩⟩

/-- One of the runs goes on. -/
inductive Step : Workshop → Workshop → Prop
  | mk {t u : FileTree} {c c' : Caller} (id : Uuid) (before after : List Worker)
      (h : c.Works t u c') :
      Step ⟨t, before ++ ⟨id, c⟩ :: after⟩ ⟨u, before ++ ⟨id, c'⟩ :: after⟩

/-- What steps lead to. -/
abbrev Steps : Workshop → Workshop → Prop := ReflTransGen Step

open Run (Closed Cleared Furnished rules site ways)

variable {t : FileTree} {workDir : Path} {settings : Uuid → RunSettings} {ids : List Uuid}
  {shop shop' : Workshop}

/-- What every step keeps. -/
structure Tended [Libraries] (t : FileTree) (workDir : Path) (settings : Uuid → RunSettings)
    (ids : List Uuid) (shop : Workshop) : Prop where
  current : shop.tree.current = t.current
  everyone : shop.workers.map Worker.id = ids
  secure : ∀ w ∈ shop.workers, w.caller.Secure
    (rules (settings w.id).style (site workDir t w.id) w.id t)
    (fun _ _ u => Cleared (site workDir t w.id) t u) shop.tree
  patient : ∀ w ∈ shop.workers,
    w.caller.Patient (rules (settings w.id).style (site workDir t w.id) w.id t)
  outside : ∀ q, (∀ id ∈ ids, ¬(site workDir t id).place <+: q) → shop.tree.get? q = t.get? q
    ∨ q ∈ ways workDir t ∧ t.get? q = none ∧ shop.tree.get? q = some .directory

lemma Tended.start [Libraries] (hdir : ∀ id ∈ ids, (settings id).workDir = workDir) :
    Tended t workDir settings ids (start t settings ids) where
  current := rfl
  everyone := by simp [Workshop.start, Function.comp_def]
  secure := by
    intro w hw
    obtain ⟨id, hid, rfl⟩ := List.mem_map.mp hw
    refine Run.secures_run ?_
    rw [hdir id hid, Run.path_site]
  patient := by
    intro w hw ds path answer rest hdeeds
    obtain ⟨id, -, rfl⟩ := List.mem_map.mp hw
    exact absurd hdeeds (List.append_ne_nil_of_right_ne_nil ds (List.cons_ne_nil _ _)).symm
  outside := fun _ _ => .inl rfl

/-- What a run does in its workspace spares all others. -/
lemma spares_of_within {u v : FileTree} {id other : Uuid} (hne : id ≠ other)
    (hcurrent : u.current = t.current) (happart : (site workDir t id).Apart t.current)
    (happart' : (site workDir t other).Apart t.current) (h : (site workDir t id).Within u v) :
    (site workDir t other).Spares u v := by
  have hsame : (site workDir t other).ancestors = (site workDir t id).ancestors := by
    rw [Run.ancestors_site, Run.ancestors_site]
  have hdisjoint : ∀ ns, ¬(site workDir t id).place <+: (site workDir t other).place ++ ns :=
    fun ns => Run.not_prefix_site hne ns
  have hleading : ∀ q ∈ u.current :: (site workDir t other).ancestors,
      ¬(site workDir t id).place <+: q := by
    rw [hsame, hcurrent]
    exact happart
  rw [← hcurrent] at happart'
  exact h.spares (fun q hq => hsame ▸ hq) happart' hleading hdisjoint

section

variable [Libraries]

lemma Tended.mem_ids (h : Tended t workDir settings ids shop) {w : Worker}
    (hw : w ∈ shop.workers) : w.id ∈ ids :=
  h.everyone ▸ List.mem_map_of_mem hw

lemma Tended.step (hids : ids.Nodup) (happart : ∀ id ∈ ids, (site workDir t id).Apart t.current)
    (h : Tended t workDir settings ids shop) (hstep : Step shop shop') :
    Tended t workDir settings ids shop' := by
  cases hstep with
  | @mk t₁ u c c' id before after hworks =>
      have hmem : (⟨id, c⟩ : Worker) ∈ before ++ ⟨id, c⟩ :: after :=
        List.mem_append_right _ List.mem_cons_self
      have hold : ∀ w ∈ before ++ after, w ∈ before ++ ⟨id, c⟩ :: after :=
        fun w hw => List.perm_middle.mem_iff.mpr (List.mem_cons_of_mem _ hw)
      have hid : id ∈ ids := h.mem_ids hmem
      obtain ⟨hsecure, hwithin⟩ := (h.secure _ hmem).works hworks
      have hwithin : (site workDir t id).Within t₁ u := hwithin
      have hothers : ∀ w ∈ before ++ after, id ≠ w.id := by
        rw [← h.everyone, List.map_append, List.map_cons, List.nodup_middle, ← List.map_append,
          List.nodup_cons] at hids
        intro w hw hsame
        exact hids.1 (List.mem_map.mpr ⟨w, hw, hsame.symm⟩)
      -- The one that moves is as it should be by its own step, all others because they are spared.
      constructor
      case current => exact hwithin.current.trans h.current
      case everyone =>
        rw [← h.everyone, List.map_append, List.map_append, List.map_cons, List.map_cons]
      case secure =>
        intro w hw
        rcases List.mem_cons.mp (List.perm_middle.mem_iff.mp hw) with rfl | hw
        · exact hsecure
        · refine (h.secure w (hold w hw)).spares ?_ fun _ _ _ _ hv hcleared => hcleared.spares hv
          exact spares_of_within (hothers w hw) h.current (happart id hid)
            (happart w.id (h.mem_ids (hold w hw))) hwithin
      case patient =>
        intro w hw
        rcases List.mem_cons.mp (List.perm_middle.mem_iff.mp hw) with rfl | hw
        · exact (h.secure _ hmem).patient (h.patient _ hmem) hworks
        · exact h.patient w (hold w hw)
      case outside =>
        intro q hq
        have hway := hwithin.outside q (hq id hid)
        rw [Run.ancestors_site] at hway
        rcases hway with hsame | ⟨hway, hnone, hmade⟩
        · rw [hsame]
          exact h.outside q hq
        · rcases h.outside q hq with hold | ⟨-, -, hdirectory⟩
          · exact .inr ⟨hway, hold ▸ hnone, hmade⟩
          · cases hnone.symm.trans hdirectory

lemma tended (hids : ids.Nodup) (hdir : ∀ id ∈ ids, (settings id).workDir = workDir)
    (happart : ∀ id ∈ ids, (site workDir t id).Apart t.current)
    (h : Steps (start t settings ids) shop) : Tended t workDir settings ids shop := by
  induction h with
  | refl => exact .start hdir
  | tail _ hstep ih => exact ih.step hids happart hstep

/-- How a run has its workspace `s`, where the tree was `t` in the beginning and is `u` now. -/
structure Isolated (style : Source.Style) (s : Site) (t u : FileTree) (w : Worker) : Prop where
  /-- When the runner is spawned, the workspace is as it was generated, ... -/
  spawning : ∀ {job token next}, w.caller.stage = .going (.spawn job token next) →
    Furnished style w.id s t w.caller.deeds job u
  /-- ... and it is still so as long as the runner is at work. -/
  working : ∀ {token next}, w.caller.stage = .waiting token next →
    ∃ deeds job token', w.caller.deeds = deeds ++ [.spawn job token']
      ∧ Furnished style w.id s t deeds job u
  /-- By the time that removing begins, the ending has been written or tried to be, ... -/
  removing : ∀ {path next}, w.caller.stage = .going (.act (.removeTree path) next) →
    Closed w.id w.caller.deeds
  removed : ∀ {ds path answer rest}, w.caller.deeds = ds ++ .act (.removeTree path) answer :: rest →
    Closed w.id ds
  /-- ... and whatever the run comes to, nothing of the workspace is left. -/
  returned : ∀ {x}, w.caller.Returned x → s.Vacant u

lemma Tended.isolated (h : Tended t workDir settings ids shop) {w : Worker} (hw : w ∈ shop.workers)
    (happart : (site workDir t w.id).Apart t.current) (hvacant : (site workDir t w.id).Vacant t) :
    Isolated (settings w.id).style (site workDir t w.id) t shop.tree w := by
  have hsecure := h.secure w hw
  constructor
  case spawning =>
    intro job token next hstage
    rw [Caller.Secure, hstage] at hsecure
    exact Run.furnished_of_ready hvacant happart hsecure.1
  case working =>
    intro token next hstage
    rw [Caller.Secure, hstage] at hsecure
    obtain ⟨⟨deeds, job, token', hdeeds, hready⟩, -⟩ := hsecure
    exact ⟨deeds, job, token', hdeeds, Run.furnished_of_ready hvacant happart hready⟩
  case removing =>
    intro path next hstage
    exact hsecure.mayRemove hstage
  case removed =>
    intro ds path answer rest hdeeds
    exact h.patient w hw ds path answer rest hdeeds
  case returned =>
    intro x hstage
    rw [Caller.Secure, hstage] at hsecure
    exact hsecure happart hvacant

/-- Each run has its workspace to itself, and nothing else is touched. -/
lemma Tended.undisturbed (h : Tended t workDir settings ids shop)
    (happart : ∀ id ∈ ids, (site workDir t id).Apart t.current)
    (hvacant : ∀ id ∈ ids, (site workDir t id).Vacant t) :
    shop.workers.map Worker.id = ids
      ∧ (∀ w ∈ shop.workers,
        Isolated (settings w.id).style (site workDir t w.id) t shop.tree w)
      ∧ ∀ q, (∀ id ∈ ids, ¬(site workDir t id).place <+: q) → shop.tree.get? q = t.get? q
        ∨ q ∈ ways workDir t ∧ t.get? q = none ∧ shop.tree.get? q = some .directory := by
  refine ⟨h.everyone, fun w hw => ?_, h.outside⟩
  have hid := h.mem_ids hw
  exact h.isolated hw (happart w.id hid) (hvacant w.id hid)

/-- **Runs of different executions do not disturb one another, and each removes its workspace.**
Wherever they have come to, each has its workspace to itself, and outside of the workspaces nothing
but the directory that they stand in, and what leads there, may be new. -/
theorem runs_isolated (hids : ids.Nodup) (hdir : ∀ id ∈ ids, (settings id).workDir = workDir)
    (happart : ∀ id ∈ ids, (site workDir t id).Apart t.current)
    (hvacant : ∀ id ∈ ids, (site workDir t id).Vacant t) (h : Steps (start t settings ids) shop) :
    shop.workers.map Worker.id = ids
      ∧ (∀ w ∈ shop.workers,
        Isolated (settings w.id).style (site workDir t w.id) t shop.tree w)
      ∧ ∀ q, (∀ id ∈ ids, ¬(site workDir t id).place <+: q) → shop.tree.get? q = t.get? q
        ∨ q ∈ ways workDir t ∧ t.get? q = none ∧ shop.tree.get? q = some .directory :=
  (tended hids hdir happart h).undisturbed happart hvacant

/-- So it is wherever the directory of workspaces stands, or has a path that only leads down. -/
theorem isolated_of_accessible (hids : ids.Nodup)
    (hdir : ∀ id ∈ ids, (settings id).workDir = workDir) (haccess : Run.Accessible workDir t)
    (hvacant : ∀ id ∈ ids, (site workDir t id).Vacant t) (h : Steps (start t settings ids) shop) :
    shop.workers.map Worker.id = ids
      ∧ (∀ w ∈ shop.workers,
        Isolated (settings w.id).style (site workDir t w.id) t shop.tree w)
      ∧ ∀ q, (∀ id ∈ ids, ¬(site workDir t id).place <+: q) → shop.tree.get? q = t.get? q
        ∨ q ∈ ways workDir t ∧ t.get? q = none ∧ shop.tree.get? q = some .directory := by
  have happart : ∀ id ∈ ids, (site workDir t id).Apart t.current :=
    fun id hid => haccess.apart (hvacant id hid)
  exact (tended hids hdir happart h).undisturbed happart hvacant

end

/-- A run may carry on until its runner is at work, while the others rest. -/
lemma steps_of_advance (id : Uuid) (before after : List Worker) {w v : World}
    {rest : Procedure (Except Error Execution)} {job : Job} {token : Token}
    {next : Reply → Procedure (Except Error Execution)}
    (h : w.advance rest = (v, .waiting job token next)) (errand : Errand) :
    ∃ deeds, Steps ⟨w.tree, before ++ ⟨id, ⟨errand, [], .going rest⟩⟩ :: after⟩
      ⟨v.tree, before ++ ⟨id, ⟨errand, deeds, .waiting token next⟩⟩ :: after⟩ := by
  obtain ⟨more, hmore⟩ := Caller.goes_of_advance w errand [] rest
  rw [h] at hmore
  have hsteps := hmore.lift
    (fun s => (⟨s.1.tree, before ++ ⟨id, s.2⟩ :: after⟩ : Workshop))
    fun _ _ ⟨_, hmove⟩ => Step.mk id before after hmove.works
  exact ⟨_, hsteps.tail (.mk id before after (.spawn _ errand _ job token next))⟩

section choosy

open scoped Libraries.Lenient
open Run (choosySettings)

/-- One of two runs is at work, and the other one has returned since there is no record for it. -/
theorem runs_isolated_choosy : ∃ shop first second,
    Steps (start default (fun _ => choosySettings) [⟨7⟩, ⟨8⟩]) shop
      ∧ shop.workers = [first, second]
      ∧ (∃ token next, first.caller.stage = .waiting token next)
      ∧ second.caller.Returned (.error (.unknownExecution ⟨8⟩))
      ∧ ∀ w ∈ [first, second],
        Isolated .standard (site choosySettings.workDir default w.id) default shop.tree w := by
  obtain ⟨v, job, token, next, hadvance⟩ := World.exists_of_waits Run.waits_choosy
  obtain ⟨deeds, hfirst⟩ := steps_of_advance ⟨7⟩ [] [⟨⟨8⟩, .idle ⟨8⟩ (.run choosySettings)⟩]
    hadvance (.run choosySettings)
  have hmissing : (Caller.idle ⟨8⟩ (.run choosySettings)).Works v.tree v.tree
      ⟨.run choosySettings, [.act (.record ⟨8⟩) none],
        .going (.done (.error (.unknownExecution ⟨8⟩)))⟩ :=
    .act (.run choosySettings) [] (.record ⟨8⟩) _ none rfl
  have hsecond := Step.mk ⟨8⟩ [⟨⟨7⟩, ⟨.run choosySettings, deeds, .waiting token next⟩⟩] [] hmissing
  have hforward : ∀ s ∈ Run.workSteps choosySettings.workDir default, s.Forward := by
    have hsteps : Run.workSteps choosySettings.workDir default = [.name "work"] := by
      decide +kernel
    rw [hsteps]
    exact List.forall_mem_singleton.mpr (.inr ⟨_, rfl⟩)
  have hvacant : ∀ id ∈ [(⟨7⟩ : Uuid), ⟨8⟩],
      (site choosySettings.workDir default id).Vacant default := by
    intro id _ ns
    rw [Site.content, Run.place_site, FileTree.get?, if_neg (by simp)]
    rfl
  obtain ⟨-, hisolated, -⟩ := runs_isolated (by decide) (fun _ _ => rfl)
    (fun id hid => Run.apart_of_forward hforward rfl (hvacant id hid)) hvacant (hfirst.tail hsecond)
  exact ⟨_, _, _, hfirst.tail hsecond, rfl, ⟨token, next, rfl⟩, rfl, hisolated⟩

end choosy

end Workshop

end Rehearsal
