import Mathlib
import Rehearsal.Proofs.Conduct
import Rehearsal.Proofs.Generation.Result
import Rehearsal.Proofs.Uuid

/-!
# The workspace of a run

Every execution has a workspace of its own in the directory of workspaces.  A run builds it, hands
it to the runner and removes it.

* `Run.site`: a workspace as a part of the tree.  All workspaces stand in **the same directory, each
  under its own name** (`Run.place_site`), so none of them stands in another one.
* `Run.Prepared`: a job that fits the execution, what was fetched for it and what was built from
  that.
* `Run.secures_run`: whatever others do and whatever is answered, a run hands over only jobs that
  are prepared, removes its workspace **only after it has tried to record the ending**, and leaves
  nothing of it behind.
-/

namespace Rehearsal

open Runner (Job Reply Token)

lemma FileTree.isAbsolute_currentPath (t : FileTree) : t.currentPath.isAbsolute = true := by
  rw [Path.isAbsolute_iff, FileTree.currentPath, String.toList_append]
  rfl

lemma FileTree.currentPath_congr {t u : FileTree} (h : u.current = t.current) :
    u.currentPath = t.currentPath := by
  rw [FileTree.currentPath, FileTree.currentPath, h]

/-- Keeping results does not concern files. -/
lemma offTree_of_reports {a : Operation} (h : a.Reports) : a.OffTree := by
  cases a <;> trivial

/-- What does not concern files keeps to any rules, and leaves the site to others. -/
lemma Consists.secures {α : Type} {r : Rules} {P : Operation → Prop} {c : Procedure α}
    {deeds : List Deed} {t : FileTree} (h : Consists P c) (hP : ∀ {a}, P a → a.OffTree) :
    Secures r (fun _ _ u => r.site.Spares t u) c deeds t := by
  induction c generalizing deeds t with
  | done a => exact .refl t
  | act operation next ih =>
      exact Secures.of_offTree (hP h.1) fun answer u hu =>
        (ih answer (h.2 answer)).mono fun _ _ _ hv => hu.trans hv
  | spawn job token next => cases h

namespace Run

/-! ## Where workspaces are -/

/-- The name of a workspace is a name that a path can hold. -/
lemma plain_workspaceName (id : Uuid) : Path.Plain (.name (workspaceName id)) := by
  have htext : (workspaceName id).toList = workspaceStart.toList ++ id.text.toList :=
    String.toList_append
  have hlong : Path.Naming (workspaceName id).toList := by
    refine Path.naming_of_length ?_
    rw [htext, List.length_append]
    exact Nat.lt_add_right _ (by decide)
  have hslash : '/' ∉ (workspaceName id).toList := by
    rw [htext, List.mem_append, not_or]
    refine ⟨by decide, fun h => ?_⟩
    exact Uuid.forall_mem_text (P := (· ≠ '/')) (by decide) (by decide) id _ h rfl
  exact .inr ⟨_, rfl, hslash, hlong⟩

lemma workspaceName_injective : Function.Injective workspaceName := by
  intro a b h
  have htext := congrArg String.toList h
  rw [workspaceName, workspaceName, String.toList_append, String.toList_append] at htext
  exact Uuid.text_injective (String.toList_inj.mp (List.append_cancel_left htext))

/-- The workspace of an execution, from the top of the tree. -/
def path (workDir : Path) (t : FileTree) (id : Uuid) : Path :=
  (workspace workDir id).absolute t.currentPath

lemma path_eq (workDir : Path) (t : FileTree) (id : Uuid) :
    path workDir t id = (workspace workDir id).absolute t.currentPath := rfl

-- Nothing is to be learned from the letters of the path.
attribute [irreducible] path

lemma isAbsolute_path (workDir : Path) (t : FileTree) (id : Uuid) :
    (path workDir t id).isAbsolute = true := by
  rw [path_eq, workspace]
  exact (Path.segments_absolute_join t.isAbsolute_currentPath (plain_workspaceName id)).1

/-- The workspace of an execution, as a site. -/
def site (workDir : Path) (t : FileTree) (id : Uuid) : Site :=
  ⟨path workDir t id, isAbsolute_path workDir t id⟩

/-- The steps to the directory of workspaces. -/
def workSteps (workDir : Path) (t : FileTree) : List Segment :=
  Path.directorySteps workDir t.currentPath

/-- The place of the directory of workspaces. -/
def workPlace (workDir : Path) (t : FileTree) : Place := FileTree.landing [] (workSteps workDir t)

/-- The directory of workspaces, and the places that lead there. -/
def ways (workDir : Path) (t : FileTree) : List Place :=
  FileTree.passed [] (workSteps workDir t) ++ [workPlace workDir t]

section place

variable (workDir : Path) (t : FileTree) (id : Uuid)

lemma path_site : (site workDir t id).path = (workspace workDir id).absolute t.currentPath :=
  path_eq workDir t id

lemma steps_site : (site workDir t id).steps
    = workSteps workDir t ++ [.name (workspaceName id)] := by
  have hpath := path_site workDir t id
  rw [workspace] at hpath
  have hjoin : (site workDir t id).path.segments
      = .root :: (workSteps workDir t ++ [.name (workspaceName id)]) := by
    rw [hpath]
    exact (Path.segments_absolute_join t.isAbsolute_currentPath (plain_workspaceName id)).2
  exact (List.cons.inj (Site.segments_path.symm.trans hjoin)).2

/-- All workspaces stand in the same directory, each under its own name. -/
lemma place_site : (site workDir t id).place = workPlace workDir t ++ [workspaceName id] := by
  rw [Site.place, steps_site, FileTree.landing_append]
  rfl

/-- The same places lead to all of them. -/
lemma ancestors_site : (site workDir t id).ancestors = ways workDir t := by
  rw [Site.ancestors, steps_site, FileTree.passed_append]
  rfl

variable {workDir t id}

/-- No workspace stands in another one. -/
lemma not_prefix_site {id' : Uuid} (hne : id' ≠ id) (ns : List String) :
    ¬(site workDir t id').place <+: (site workDir t id).place ++ ns := by
  rw [place_site, place_site, List.append_assoc, List.prefix_append_right_inj,
    List.singleton_append, List.cons_prefix_cons]
  exact fun h => hne (workspaceName_injective h.1)

/-- Where the workspaces are does not depend on what stands in the tree. -/
lemma site_congr {u : FileTree} (h : u.current = t.current) :
    site workDir u id = site workDir t id := by
  have hpath : (site workDir u id).path = (site workDir t id).path := by
    rw [path_site, path_site, FileTree.currentPath_congr h]
  cases hu : site workDir u id with
  | mk path absolute =>
      cases ht : site workDir t id with
      | mk path' absolute' =>
          rw [hu, ht] at hpath
          cases hpath
          rfl

end place

/-! ## What a run keeps to -/

/-- The execution was found to have begun. -/
def Begun (id : Uuid) (deeds : List Deed) (e : Execution) : Prop :=
  ∃ now, Deed.act (.updateRecord id (opening now)) (.ok e) ∈ deeds

/-- Its ending has been written, or was tried to be. -/
def Closed (id : Uuid) (deeds : List Deed) : Prop :=
  ∃ u x, Deed.act (.updateRecord id u) x ∈ deeds ∧ u.closes = true

/-- The suites that an execution is for: the one that was asked for, or those of the project that
was found. -/
def Scope (deeds : List Deed) (e : Execution) (ids : List Uuid) : Prop :=
  (∃ id, e.suite = some id ∧ ids = [id])
    ∨ e.suite = none
      ∧ ∃ p : Project, Deed.act (.project e.project) (some p) ∈ deeds ∧ ids = p.suites

/-- A job that fits the execution, the suites that were fetched for it and the workspace that was
built from them. -/
structure Prepared [Libraries] (style : Source.Style) (id : Uuid) (s : Site) (before : FileTree)
    (deeds : List Deed) (job : Job) (t : FileTree) (e : Execution) (ids : List Uuid)
    (suites : List Suite) (pages : List Page) (all : List Artifact) : Prop where
  begun : Begun id deeds e
  scope : Scope deeds e ids
  planned : Generation.Planned style ids (browserOverride e.browser) deeds suites pages all
  testPath : testPath e suites = .ok job.testPath
  workingDir : job.workingDir = s.path
  browser : job.browser = e.browser
  environment : job.environment = e.environment
  built : s.Built all before t

/-- What a run keeps to on its workspace, in a tree that was once as given. -/
def rules [Libraries] (style : Source.Style) (s : Site) (id : Uuid) (before : FileTree) :
    Rules where
  site := s
  mayRemove := Closed id
  ready deeds job t := ∃ e ids suites pages all,
    Prepared style id s before deeds job t e ids suites pages all
  steady := by
    rintro deeds job t u hspares ⟨e, ids, suites, pages, all, h⟩
    exact ⟨e, ids, suites, pages, all, { h with built := h.built.spares hspares }⟩

/-- Relative paths begin where they did, and whatever there is of the workspace can be reached. -/
structure Held (s : Site) (before t : FileTree) : Prop where
  current : t.current = before.current
  tidy : s.Apart before.current → s.Vacant before → s.Tidy t

/-- Where there was no workspace, there is none. -/
def Cleared (s : Site) (before t : FileTree) : Prop :=
  s.Apart before.current → s.Vacant before → s.Vacant t

section workspace

variable {s : Site} {before t u : FileTree}

lemma Held.start (h : s.Spares before t) : Held s before t :=
  ⟨h.current, fun _ hvacant => .inl (h.vacant hvacant)⟩

lemma Held.spares (htu : s.Spares t u) (h : Held s before t) : Held s before u :=
  ⟨htu.current.trans h.current, fun happart hvacant => htu.tidy (h.tidy happart hvacant)⟩

lemma Held.change (htu : s.Change t u) (h : Held s before t) : Held s before u :=
  ⟨htu.within.current.trans h.current,
    fun happart hvacant => htu.tidy (h.current ▸ happart) (h.tidy happart hvacant)⟩

lemma Cleared.spares (htu : s.Spares t u) (h : Cleared s before t) : Cleared s before u :=
  fun happart hvacant => htu.vacant (h happart hvacant)

end workspace

/-! ## A run keeps to it -/

section secures

variable {settings : RunSettings} {s : Site} {id : Uuid} {before t : FileTree}
  {deeds ds : List Deed}

lemma Begun.mono {e : Execution} (h : Begun id deeds e) (hds : deeds <+: ds) : Begun id ds e :=
  h.imp fun _ hmem => hds.subset hmem

lemma Closed.mono (h : Closed id deeds) (hds : deeds <+: ds) : Closed id ds := by
  obtain ⟨u, x, hmem, hcloses⟩ := h
  exact ⟨u, x, hds.subset hmem, hcloses⟩

lemma Scope.mono {e : Execution} {ids : List Uuid} (h : Scope deeds e ids) (hds : deeds <+: ds) :
    Scope ds e ids :=
  h.imp_right fun ⟨hnone, p, hmem, hids⟩ => ⟨hnone, p, hds.subset hmem, hids⟩

lemma secures_suiteIds (r : Rules) (e : Execution) :
    Secures r (OnSuccess fun ids ds u => Scope ds e ids ∧ r.site.Spares t u) (suiteIds e).run
      deeds t := by
  rw [suiteIds]
  cases hsuite : e.suite with
  | some id => exact ⟨.inl ⟨id, hsuite, rfl⟩, .refl t⟩
  | none =>
      refine Secures.of_offTree trivial fun answer u hu => ?_
      cases answer with
      | none => trivial
      | some p =>
          have hfound : Deed.act (.project e.project) (some p)
              ∈ deeds ++ [.act (.project e.project) (some p)] :=
            List.mem_append_right _ (List.mem_singleton_self _)
          show Secures r _ (ExceptT.run (if p.suites.isEmpty = true then _ else _)) _ _
          split_ifs
          · trivial
          · exact ⟨.inr ⟨hsuite, p, hfound, rfl⟩, hu⟩

section

variable [Libraries]

/-- A job is handed over only when the workspace has been built for it. -/
lemma secures_attempt {e : Execution} (hbegun : Begun id deeds e) (hspares : s.Spares before t)
    (token : Token) : Secures (rules settings.style s id before) (fun _ _ _ => True)
      (attempt settings e s.path token).run deeds t := by
  -- Only success matters, for whatever fails hands nothing over.
  suffices h : Secures (rules settings.style s id before) (OnSuccess fun _ _ _ => True)
      (attempt settings e s.path token).run deeds t from h.mono fun _ _ _ _ => trivial
  refine Secures.andThen (secures_suiteIds _ e).prefix_success ?_
  rintro ids ds u ⟨⟨hscope, hfetching⟩, hbegins⟩
  refine Secures.andThen (Generation.secures_generate (r := rules settings.style s id before)
    settings.style ids (browserOverride e.browser)).prefix_success ?_
  rintro ⟨_, suites⟩ ds' v ⟨⟨pages, all, hplanned, -, hbuilt⟩, hbegins'⟩
  refine Secures.andThen (Generation.secures_given _) ?_
  rintro path _ _ ⟨hpath, rfl, rfl⟩
  refine ⟨⟨e, ids, suites, pages, all, ?_⟩, fun w hw reply => ?_⟩
  · constructor
    case begun => exact hbegun.mono (hbegins.trans hbegins')
    case scope => exact hscope.mono hbegins'
    case planned => exact hplanned
    case testPath => exact hpath
    case workingDir => rfl
    case browser => rfl
    case environment => rfl
    case built => exact hbuilt.after_spares (hspares.trans hfetching)
  · cases reply <;> trivial

/-- What becomes of an attempt is recorded, or tried to be, and files are left to others. -/
lemma secures_conclude (r : Rules) (result : Except Error (Runner.Outcome × List Suite)) :
    Secures r (fun _ ds u => Closed id ds ∧ r.site.Spares t u) (conclude id result).run deeds
      t := by
  rw [conclude_eq]
  refine Secures.of_offTree trivial fun now u hu => ?_
  refine Secures.of_offTree trivial fun recorded v hv => ?_
  have hclosed : ∀ ds, Closed id (ds ++ [.act (.updateRecord id
      { (ending result).1 with endTime := some now }) recorded]) :=
    fun ds => ⟨_, _, List.mem_append_right ds (List.mem_singleton_self _), closes_ending result⟩
  cases recorded with
  | error fault => exact ⟨hclosed _, hu.trans hv⟩
  | ok e =>
      have hreports : Consists Operation.Reports (do
          keepResults id (ending result).2.2 (ending result).2.1
          tell id (ending result).1
          return e : Call Execution).run :=
        .bind_call (consists_keepResults id _ _) fun _ =>
          .bind_call (consists_tell id _) fun _ => trivial
      refine (hreports.secures offTree_of_reports).deeds_isPrefix.mono ?_
      exact fun _ _ _ ⟨hw, hds⟩ => ⟨(hclosed _).mono hds, (hu.trans hv).trans hw⟩

/-- The workspace is removed, and not before the ending has been written or tried to be. -/
lemma secures_finish (hheld : Held s before t)
    (result : Except Error (Runner.Outcome × List Suite)) :
    Secures (rules settings.style s id before) (fun _ _ u => Cleared s before u)
      (finish id (.ok s.path) result).run deeds t := by
  refine Secures.outcome ((secures_conclude _ result).mono ?_)
  rintro recorded ds u ⟨hclosed, hu⟩
  have hheld : Held s before u := hheld.spares hu
  refine ⟨⟨rfl, fun _ => hclosed⟩, fun v hv answer w hw => ?_⟩
  have hcleared : Cleared s before w := by
    have hheld := hv.keeps rfl Held.spares Held.change hheld
    intro happart hvacant
    rw [hw]
    exact Site.vacant_removeTree (hheld.current ▸ happart) (hheld.tidy happart hvacant)
  refine Secures.of_offTree trivial fun _ w' hw' => ?_
  cases recorded <;> exact Cleared.spares hw' hcleared

/-- Where there is no path to a workspace, none is removed. -/
lemma secures_finish_unplaced (hcleared : Cleared s before t) (r : Refusal)
    (result : Except Error (Runner.Outcome × List Suite)) :
    Secures (rules settings.style s id before) (fun _ _ u => Cleared s before u)
      (finish id (.error r) result).run deeds t := by
  refine Secures.outcome ((secures_conclude _ result).mono ?_)
  rintro recorded ds u ⟨-, hu⟩
  refine Secures.of_offTree trivial fun _ v hv => ?_
  cases recorded <;> exact (hcleared.spares hu).spares hv

/-- What a run does once it has begun.  If there is no path to its workspace, it builds none. -/
lemma secures_carryOn {e : Execution} (hbegun : Begun id deeds e) (ht : s.Spares before t)
    (token : Token) {place : Except Refusal Path}
    (hplace : place = .ok s.path ∨ ∃ r, place = .error r) :
    Secures (rules settings.style s id before) (fun _ _ u => Cleared s before u)
      (Call.outcome (attemptIn settings e token place) >>= finish id place).run deeds t := by
  rcases hplace with rfl | ⟨r, rfl⟩
  · have hattempt : Secures (rules settings.style s id before) (fun _ _ _ => True)
        (attempt settings e s.path token).run deeds t := secures_attempt hbegun ht token
    refine Secures.outcome ((hattempt.keeps Held.spares Held.change (.start ht)).mono ?_)
    exact fun result ds u h => secures_finish h.2 result
  · have hcleared : Cleared s before t := fun _ hvacant => ht.vacant hvacant
    have hfinish : ∀ result, Secures (rules settings.style s id before)
        (fun _ _ u => Cleared s before u) (finish id (.error r) result).run deeds t :=
      secures_finish_unplaced hcleared r
    exact Secures.outcome (hfinish (.error (.cannotResolveWorkDir settings.workDir.text r.text)))

/-- What a run does once it has read the record. -/
lemma secures_proceed {e : Execution}
    (hpath : s.path = (workspace settings.workDir id).absolute before.currentPath)
    (ht : s.Spares before t) :
    Secures (rules settings.style s id before) (fun _ _ u => Cleared s before u)
      (proceed settings id e).run deeds t := by
  have hcleared : ∀ {u}, s.Spares before u → Cleared s before u :=
    fun hu _ hvacant => hu.vacant hvacant
  rw [proceed]
  split_ifs with hcancelled
  · exact Secures.of_offTree trivial fun _ u hu => hcleared (ht.trans hu)
  cases hbecome : e.status.become .running with
  | error fault => exact hcleared ht
  | ok status =>
      have hstatus : status = .running := by
        rw [Status.become] at hbecome
        split_ifs at hbecome
        cases hbecome
        rfl
      subst hstatus
      refine Secures.of_offTree trivial fun token t₁ h₁ => ?_
      refine Secures.of_offTree trivial fun now t₂ h₂ => ?_
      refine Secures.of_offTree trivial fun running t₃ h₃ => ?_
      have h₃ := ((ht.trans h₁).trans h₂).trans h₃
      cases running with
      | error fault => exact hcleared h₃
      | ok e =>
          refine Secures.of_offTree trivial fun _ t₄ h₄ => ?_
          refine ⟨⟨trivial, by rintro ⟨_, ⟨⟩⟩⟩, ?_⟩
          intro t₅ h₅ place t₆ hplace
          have h₅ := (h₃.trans h₄).trans (h₅.spares fun _ _ h => h)
          obtain ⟨hplace, rfl⟩ := hplace
          rw [FileTree.currentPath_congr h₅.current, ← hpath] at hplace
          refine secures_carryOn ⟨now, ?_⟩ h₅ token hplace
          exact List.mem_append_left _ (List.mem_append_left _ List.mem_concat_self)

/-- **Whatever others do and whatever is answered, a run keeps to the rules, and where it ends its
workspace is gone.** -/
theorem secures_run (hpath : s.path = (workspace settings.workDir id).absolute before.currentPath) :
    Secures (rules settings.style s id before) (fun _ _ u => Cleared s before u)
      (run settings id).run [] before := by
  refine Secures.of_offTree trivial fun found t ht => ?_
  have hcleared : ∀ {u}, s.Spares before u → Cleared s before u :=
    fun hu _ hvacant => hu.vacant hvacant
  cases found with
  | none => exact hcleared ht
  | some e => exact secures_proceed hpath ht

end

end secures

end Run

end Rehearsal
