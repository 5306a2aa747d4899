import Mathlib
import Rehearsal.Generation
import Rehearsal.Proofs.FileTree.Path
import Rehearsal.Proofs.Plan
import Rehearsal.Proofs.Store
import Rehearsal.Proofs.World

/-!
# What generating asks for and what it may fail for

* `Catalog.plan`: the plan as it follows from the catalog; `Generation.advance_plan` says that
  this is what planning comes to, **without a trace in the world**.
* `Generation.writes_writeAll`: writing fails for reasons of the file system only, since no path
  of a plan leads out of the root.
* `Generation.no_trace_of_failure`: a fault of any other kind **leaves the world as it was**.
* `Plannable`: what has to hold of suites, pages and settings.
* `Generation.passes_planning_iff`: generating comes past planning **just when this holds**.
-/

namespace Rehearsal

/-! ## Paths that stay below the root -/

namespace Generation

/-- The pieces of the path of a page object. -/
lemma pieces_pageFile (p : Page) : Path.pieces (Plan.pageFile p).toList
    = ["tests".toList, "pages".toList, (Text.fileStem p.name).toList ++ "_page.ts".toList] := by
  have htext : (Plan.pageFile p).toList = "tests".toList ++ '/' :: ("pages".toList
      ++ '/' :: ((Text.fileStem p.name).toList ++ "_page.ts".toList)) := by
    rw [Plan.toList_pageFile]
    rfl
  have hlast : '/' ∉ (Text.fileStem p.name).toList ++ "_page.ts".toList := by
    rw [List.mem_append, not_or]
    exact ⟨Text.slash_notMem_fileStem p.name, by decide⟩
  rw [htext, Path.pieces_append (by decide), Path.pieces_append (by decide),
    Path.pieces_of_notMem hlast]

/-- The pieces of the path of a test file. -/
lemma pieces_testFile (s : Suite) : Path.pieces (Plan.testFile s).toList
    = ["tests".toList, (Text.fileStem s.name).toList ++ ".spec.ts".toList] := by
  have htext : (Plan.testFile s).toList
      = "tests".toList ++ '/' :: ((Text.fileStem s.name).toList ++ ".spec.ts".toList) := by
    rw [Plan.toList_testFile]
    rfl
  have hlast : '/' ∉ (Text.fileStem s.name).toList ++ ".spec.ts".toList := by
    rw [List.mem_append, not_or]
    exact ⟨Text.slash_notMem_fileStem s.name, by decide⟩
  rw [htext, Path.pieces_append (by decide), Path.pieces_of_notMem hlast]

lemma clean_pageFile (p : Page) : Path.Clean (Plan.pageFile p) := by
  rw [Path.Clean, pieces_pageFile]
  simp only [List.forall_mem_cons, List.not_mem_nil, false_implies, implies_true, and_true]
  exact ⟨Path.naming_of_length (by decide), Path.naming_of_length (by decide),
    Path.naming_of_length (by simp)⟩

lemma clean_testFile (s : Suite) : Path.Clean (Plan.testFile s) := by
  rw [Path.Clean, pieces_testFile]
  simp only [List.forall_mem_cons, List.not_mem_nil, false_implies, implies_true, and_true]
  exact ⟨Path.naming_of_length (by decide), Path.naming_of_length (by simp)⟩

lemma clean_supportFiles : ∀ f ∈ Plan.supportFiles, Path.Clean f := by
  have hlong : ∀ f ∈ Plan.supportFiles, ∀ piece ∈ Path.pieces f.toList, 2 < piece.length := by
    decide +kernel
  exact fun f hf piece hpiece => Path.naming_of_length (hlong f hf piece hpiece)

section plan

variable [Libraries] {style : Source.Style} {suites : List Suite} {pages : List Page}
  {overrides : Json.Bag}
  {all : List Artifact}

/-- What holds of the paths of page objects, of test files and of the rest holds of every path of a
plan. -/
lemma forall_path_of_artifacts {P : String → Prop}
    (h : Plan.artifacts style suites pages overrides = .ok all) (hpages : ∀ p, P (Plan.pageFile p))
    (hsuites : ∀ s, P (Plan.testFile s)) (hsupport : ∀ f ∈ Plan.supportFiles, P f) :
    ∀ a ∈ all, P a.path := by
  intro a ha
  have hpath := List.mem_map_of_mem (f := Artifact.path) ha
  rw [Plan.paths_of_artifacts h, List.mem_append, List.mem_append] at hpath
  rcases hpath with (hpath | hpath) | hpath
  · obtain ⟨p, -, hp⟩ := List.mem_map.mp hpath
    exact hp ▸ hpages p
  · obtain ⟨s, -, hs⟩ := List.mem_map.mp hpath
    exact hs ▸ hsuites s
  · exact hsupport _ hpath

lemma clean_of_artifacts (h : Plan.artifacts style suites pages overrides = .ok all) :
    ∀ a ∈ all, Path.Clean a.path :=
  forall_path_of_artifacts h clean_pageFile clean_testFile clean_supportFiles

/-- No path of a plan leads out of the root. -/
lemma confined_of_artifacts (h : Plan.artifacts style suites pages overrides = .ok all) :
    ∀ a ∈ all, confined a.path = true :=
  fun a ha => (clean_of_artifacts h a ha).confined

end plan

/-! ## Writing -/

lemma onFiles_makeDirectory (steps : List Segment) : OnFiles (makeDirectory steps) := by
  refine (OnFiles.makeDirectory steps).bind fun result => ?_
  split
  · exact .pure _
  · exact .pure _
  · exact (OnFiles.isDirectory steps).bind fun _ => .pure _

lemma onFiles_makeDirectoriesUp (up : List Segment) : OnFiles (makeDirectoriesUp up) := by
  induction up with
  | nil => exact .pure _
  | cons s up ih =>
      refine (onFiles_makeDirectory (s :: up).reverse).bind fun result => ?_
      split
      · refine ih.bind fun result => ?_
        split
        · exact onFiles_makeDirectory _
        · exact .pure _
      · exact .pure _

lemma writes_makeDirectories (steps : List Segment) :
    Writes (Call.sure (makeDirectories steps)) :=
  .sure (onFiles_makeDirectoriesUp steps.reverse)

lemma writes_orFail {α : Type} {failure : String → Error} (x : Except Refusal α)
    (h : ∀ text, ∃ detail, failure text = .fileSystem detail) : Writes (orFail failure x) := by
  cases x with
  | ok a => exact .pure a
  | error r => exact fun w => ⟨w.tree, _, rfl, fun e he => by cases he; exact h r.text⟩

lemma writes_layOut (root : Path) : Writes (layOut root) := by
  have hall : ∀ ds, Writes (layOutAll root ds) := by
    intro ds
    induction ds with
    | nil => exact .pure ()
    | cons d ds ih =>
        refine (writes_makeDirectories _).bind fun result => ?_
        exact (writes_orFail result fun _ => ⟨_, rfl⟩).bind fun _ => ih
  exact hall Plan.directories

lemma writes_writeArtifact (root : Path) {path : String} (content : String)
    (h : confined path = true) : Writes (writeArtifact root path content) := by
  rw [writeArtifact]
  simp only [h, Bool.not_true, Bool.false_eq_true, if_false]
  refine (writes_makeDirectories _).bind fun made => ?_
  refine (writes_orFail made fun _ => ⟨_, rfl⟩).bind fun _ => ?_
  refine (Writes.sure (.openFile _)).bind fun opened => ?_
  refine (writes_orFail opened fun _ => ⟨_, rfl⟩).bind fun _ => ?_
  exact (Writes.sure (.fillFile _ content)).bind fun _ => .pure _

/-- Files below the root are written, unless the file system is in the way. -/
lemma writes_writeAll {all : List Artifact} (h : ∀ a ∈ all, confined a.path = true)
    (g : Generated) : Writes (writeAll g all) := by
  induction all generalizing g with
  | nil => exact .pure g
  | cons a rest ih =>
      obtain ⟨ha, hrest⟩ := List.forall_mem_cons.mp h
      exact (writes_writeArtifact g.root a.content ha).bind fun p => ih hrest _

end Generation

/-! ## Planning -/

namespace Catalog

/-- A suite that is asked for. -/
def wantedSuite (c : Catalog) (id : Uuid) : Except Error Suite :=
  foundOr (.unknownSuite id) (c.suite? id)

/-- A page that is referred to. -/
def wantedPage (c : Catalog) (id : Uuid) : Except Error Page :=
  foundOr (.unknownPage id) (c.page? id)

/-- The plan as it follows from the catalog. -/
def plan [Libraries] (c : Catalog) (style : Source.Style) (ids : List Uuid) (overrides : Json.Bag) :
    Except Error (List Artifact × List Suite) :=
  if ids = [] then .error .noSuites
  else do
    let suites ← Plan.collect c.wantedSuite ids
    let pages ← Plan.collect c.wantedPage (Plan.distinctPages suites)
    let artifacts ← Plan.artifacts style suites pages overrides
    .ok (artifacts, suites)

end Catalog

namespace Generation

lemma advance_fetch {α : Type} {w : World} {get : Uuid → Call α} {find : Uuid → Except Error α}
    (h : ∀ id, w.advance (get id).run = (w, .ended (find id))) (ids : List Uuid) :
    w.advance (fetch get ids).run = (w, .ended (Plan.collect find ids)) := by
  induction ids with
  | nil => rfl
  | cons id ids ih =>
      exact World.advance_bind_reading (h id) fun _ => World.advance_bind_reading ih fun _ => rfl

/-- Planning comes to what follows from the catalog, and leaves the world as it is. -/
theorem advance_plan [Libraries] (w : World) (style : Source.Style) (ids : List Uuid)
    (overrides : Json.Bag) :
    w.advance (plan style ids overrides).run
      = (w, .ended (w.store.catalog.plan style ids overrides)) := by
  rw [plan, Catalog.plan]
  cases ids with
  | nil => rfl
  | cons id ids =>
      exact World.advance_bind_reading (advance_fetch w.advance_suite (id :: ids)) fun suites =>
        World.advance_bind_reading (advance_fetch w.advance_page _) fun pages =>
          World.advance_bind_reading (World.advance_given _) fun _ => rfl

end Generation

/-! ## What planning asks for -/

/-- The suites that are asked for, one for each place in the request. -/
def Catalog.requested (c : Catalog) (ids : List Uuid) : List Suite := ids.filterMap c.suite?

/-- What has to hold of suites, pages and settings for a plan. -/
structure Plannable (c : Catalog) (ids : List Uuid) (overrides : Json.Bag) : Prop where
  asked : ids ≠ []
  suites : ∀ id ∈ ids, ∃ s, c.suite? id = some s
  pages : ∀ id, Plan.Refers (c.requested ids) id → ∃ p, c.page? id = some p
  settings : ∀ s ∈ c.requested ids, ∀ e ∈ s.configuration, Configuration.WellTyped e.1 e.2
  overrides : ∀ e ∈ overrides, Configuration.WellTyped e.1 e.2
  pageNames : ∀ id p, Plan.Refers (c.requested ids) id → c.page? id = some p →
    Text.hasAlnum p.name = true
  accessors : ∀ id p, Plan.Refers (c.requested ids) id → c.page? id = some p →
    Source.AccessorsFit p
  suiteNames : ∀ s ∈ c.requested ids, Text.hasAlnum s.name = true
  steps : ∀ s ∈ c.requested ids, ∀ case ∈ s.cases, ∀ step ∈ case.allSteps, step.Good
  /-- Different pages have different stems. -/
  pageStems : ∀ id id' p p', Plan.Refers (c.requested ids) id →
    Plan.Refers (c.requested ids) id' → c.page? id = some p → c.page? id' = some p' →
    id ≠ id' → Text.fileStem p.name ≠ Text.fileStem p'.name
  /-- So have suites at different places of the request, also when they are the same suite. -/
  suiteStems : ((c.requested ids).map fun s => Text.fileStem s.name).Nodup

lemma checks_foundOr {α : Type} {e : Error} (he : e.category ≠ .execution) (x : Option α) :
    Checks (foundOr e x) (∃ a, x = some a) := by
  cases x with
  | none => exact .error he (by simp)
  | some a => exact .ok ⟨a, rfl⟩

lemma foundOr_eq_ok_iff {α : Type} {e : Error} {x : Option α} {a : α} :
    foundOr e x = .ok a ↔ x = some a := by
  cases x <;> simp [foundOr]

/-- What was looked up in order is what was found. -/
lemma eq_filterMap_of_collect {α : Type} {e : Uuid → Error} {find : Uuid → Option α}
    {ids : List Uuid} {as : List α}
    (h : Plan.collect (fun id => foundOr (e id) (find id)) ids = .ok as) :
    as = ids.filterMap find := by
  have hsome : as.map some = ids.map find :=
    Plan.map_of_collect h fun id a ha => (foundOr_eq_ok_iff.mp ha).symm
  calc as = (as.map some).filterMap id := by simp
    _ = (ids.map find).filterMap id := by rw [hsome]
    _ = ids.filterMap find := by simp [List.filterMap_map]

namespace Catalog

variable {c : Catalog} {ids : List Uuid} {overrides : Json.Bag}

/-- Pages that stand under different identifiers are different pages. -/
lemma nodup_pages [Libraries] (hc : c.Sound) {refs : List Uuid} (hrefs : refs.Nodup) :
    (refs.filterMap c.page?).Nodup := by
  refine hrefs.filterMap fun id id' p hid hid' => ?_
  rw [← (hc id p hid).1, ← (hc id' p hid').1]

/-- The stems of pages, compared by the identifiers of the pages. -/
lemma stems_nodup_iff [Libraries] (hc : c.Sound) {refs : List Uuid} (hrefs : refs.Nodup) :
    ((refs.filterMap c.page?).map fun p => Text.fileStem p.name).Nodup
      ↔ ∀ id id' p p', id ∈ refs → id' ∈ refs → c.page? id = some p → c.page? id' = some p' →
        id ≠ id' → Text.fileStem p.name ≠ Text.fileStem p'.name := by
  rw [List.nodup_map_iff_inj_on (nodup_pages hc hrefs)]
  constructor
  · intro h id id' p p' hid hid' hp hp' hne hstem
    have hpp := h p (List.mem_filterMap.mpr ⟨id, hid, hp⟩) p'
      (List.mem_filterMap.mpr ⟨id', hid', hp'⟩) hstem
    rw [← (hc id p hp).1, ← (hc id' p' hp').1, hpp] at hne
    exact hne rfl
  · intro h p hp p' hp' hstem
    obtain ⟨id, hid, hp⟩ := List.mem_filterMap.mp hp
    obtain ⟨id', hid', hp'⟩ := List.mem_filterMap.mp hp'
    by_cases hne : id = id'
    · rw [hne, hp'] at hp
      exact (Option.some.inj hp).symm
    · exact absurd hstem (h id id' p p' hid hid' hp hp' hne)

/-- The pages that suites refer to, as far as they are stored. -/
def referred (c : Catalog) (suites : List Suite) : List Page :=
  (Plan.distinctPages suites).filterMap c.page?

lemma mem_referred {suites : List Suite} {p : Page} :
    p ∈ c.referred suites ↔ ∃ id, Plan.Refers suites id ∧ c.page? id = some p := by
  simp only [referred, List.mem_filterMap, Plan.mem_distinctPages]

section

variable [Libraries]

/-- Suites and the pages that they refer to make a plan just when they fit. -/
lemma checks_referred (hc : c.Sound) (style : Source.Style) {suites : List Suite}
    (h : ∀ id, Plan.Refers suites id → ∃ p, c.page? id = some p) :
    Checks (Plan.artifacts style suites (c.referred suites) overrides)
      (Plan.Fits suites (c.referred suites) overrides) := by
  refine Plan.checks_artifacts style overrides (fun p hp => ?_) fun id hid => ?_
  · obtain ⟨id, -, hp⟩ := mem_referred.mp hp
    exact (hc id p hp).2
  · obtain ⟨p, hp⟩ := h id hid
    exact List.mem_map.mpr ⟨p, mem_referred.mpr ⟨id, hid, hp⟩, (hc id p hp).1⟩

/-- What a plan asks for, in the terms of the catalog. -/
lemma plannable_iff (hc : c.Sound) : Plannable c ids overrides ↔
    ¬ids = [] ∧ (∀ id ∈ ids, ∃ s, c.suite? id = some s)
      ∧ (∀ id, Plan.Refers (c.requested ids) id → ∃ p, c.page? id = some p)
      ∧ Plan.Fits (c.requested ids) (c.referred (c.requested ids)) overrides := by
  have hstems := stems_nodup_iff hc (Plan.nodup_distinctPages (c.requested ids))
  simp only [Plan.mem_distinctPages] at hstems
  constructor
  · intro h
    refine ⟨h.asked, h.suites, h.pages, ?_, ?_, ?_, h.suiteNames, h.steps, ?_, h.suiteStems⟩
    · intro bag hbag
      rcases List.mem_append.mp hbag with hbag | hbag
      · obtain ⟨s, hs, rfl⟩ := List.mem_map.mp hbag
        exact h.settings s hs
      · rw [List.mem_singleton.mp hbag]
        exact h.overrides
    · intro p hp
      obtain ⟨id, hid, hp⟩ := mem_referred.mp hp
      exact h.pageNames id p hid hp
    · intro p hp
      obtain ⟨id, hid, hp⟩ := mem_referred.mp hp
      exact h.accessors id p hid hp
    · exact hstems.mpr h.pageStems
  · rintro ⟨hasked, hsuites, hpages, hfits⟩
    exact {
      asked := hasked
      suites := hsuites
      pages := hpages
      settings := fun s hs =>
        hfits.settings _ (List.mem_append_left _ (List.mem_map_of_mem hs))
      overrides := hfits.settings _ (List.mem_append_right _ (List.mem_singleton_self _))
      pageNames := fun id p hid hp => hfits.pageNames p (mem_referred.mpr ⟨id, hid, hp⟩)
      accessors := fun id p hid hp => hfits.accessors p (mem_referred.mpr ⟨id, hid, hp⟩)
      suiteNames := hfits.suiteNames
      steps := hfits.steps
      pageStems := hstems.mp hfits.pageStems
      suiteStems := hfits.suiteStems }

/-- The catalog has a plan just when all of this holds. -/
theorem checks_plan (hc : c.Sound) (style : Source.Style) :
    Checks (c.plan style ids overrides) (Plannable c ids overrides) := by
  refine Checks.congr ?_ (plannable_iff hc).symm
  refine Checks.ite (by simp [Error.noSuites, Error.category]) fun _ => ?_
  have hsuites := Plan.checks_collect fun id (_ : id ∈ ids) =>
    checks_foundOr (e := .unknownSuite id) (by simp [Error.unknownSuite, Error.category])
      (c.suite? id)
  refine hsuites.bind fun suites hs => ?_
  obtain rfl : suites = c.requested ids := eq_filterMap_of_collect hs
  have hpages := Plan.checks_collect fun id (_ : id ∈ Plan.distinctPages (c.requested ids)) =>
    checks_foundOr (e := .unknownPage id) (by simp [Error.unknownPage, Error.category])
      (c.page? id)
  simp only [Plan.mem_distinctPages] at hpages
  refine hpages.bind fun pages hp => ?_
  obtain rfl : pages = c.referred (c.requested ids) := eq_filterMap_of_collect hp
  exact (checks_referred hc style (hpages.ok_iff.mp ⟨_, hp⟩)).bind_ok

/-- A plan is for the suites that were asked for. -/
lemma suites_of_plan {style : Source.Style} {all : List Artifact} {suites : List Suite}
    (h : c.plan style ids overrides = .ok (all, suites)) : suites = c.requested ids := by
  rw [plan] at h
  split_ifs at h
  obtain ⟨found, hfound, h⟩ := bind_eq_ok_iff.mp h
  obtain ⟨pages, -, h⟩ := bind_eq_ok_iff.mp h
  obtain ⟨artifacts, -, h⟩ := bind_eq_ok_iff.mp h
  cases h
  exact eq_filterMap_of_collect hfound

/-- Every suite that was asked for has a path for its test file. -/
lemma testPath_of_plan {style : Source.Style} {all : List Artifact}
    {suites : List Suite} (h : c.plan style ids overrides = .ok (all, suites)) {s : Suite}
    (hs : s ∈ suites) : Plan.testPath s = .ok (Plan.testFile s) := by
  rw [plan] at h
  split_ifs at h
  obtain ⟨found, -, h⟩ := bind_eq_ok_iff.mp h
  obtain ⟨pages, -, h⟩ := bind_eq_ok_iff.mp h
  obtain ⟨artifacts, hartifacts, h⟩ := bind_eq_ok_iff.mp h
  cases h
  exact Plan.testPath_of_artifacts hartifacts hs

/-- No path of a plan leads out of the root. -/
lemma confined_of_plan {style : Source.Style} {all : List Artifact} {suites : List Suite}
    (h : c.plan style ids overrides = .ok (all, suites)) :
    ∀ a ∈ all, Generation.confined a.path = true := by
  rw [plan] at h
  split_ifs at h
  obtain ⟨found, -, h⟩ := bind_eq_ok_iff.mp h
  obtain ⟨pages, -, h⟩ := bind_eq_ok_iff.mp h
  obtain ⟨artifacts, hartifacts, h⟩ := bind_eq_ok_iff.mp h
  cases h
  exact Generation.confined_of_artifacts hartifacts

end

end Catalog

/-! ## The whole project -/

namespace Generation

section

variable [Libraries]

/-- Below a relative root nothing is done at all. -/
lemma advance_generate_relative (w : World) (style : Source.Style) (ids : List Uuid) {root : Path}
    (overrides : Json.Bag) (hroot : ¬root.isAbsolute = true) :
    w.advance (generate style ids root overrides).run
      = (w, .ended (.error (.relativeRoot root.text))) := by
  rw [generate]
  simp only [hroot, Bool.not_false, if_true]
  rfl

/-- Without a plan nothing is written. -/
lemma advance_generate_unplanned {w : World} {style : Source.Style} {ids : List Uuid} {root : Path}
    {overrides : Json.Bag} {e : Error} (hroot : root.isAbsolute = true)
    (h : w.store.catalog.plan style ids overrides = .error e) :
    w.advance (generate style ids root overrides).run = (w, .ended (.error e)) := by
  rw [generate]
  simp only [hroot, Bool.not_true, Bool.false_eq_true, if_false]
  have hplan := advance_plan w style ids overrides
  rw [h] at hplan
  exact World.advance_bind_error hplan

/-- What comes of generating below an absolute root: a fault of the plan, or its suites with all
files, or a fault of the file system.  Nothing in the world changes but files. -/
theorem advance_generate (w : World) (style : Source.Style) (ids : List Uuid) {root : Path}
    (overrides : Json.Bag) (hroot : root.isAbsolute = true) :
    ∃ tree x, w.advance (generate style ids root overrides).run
        = ({ w with tree := tree }, .ended x)
      ∧ match w.store.catalog.plan style ids overrides with
        | .error e => x = .error e
        | .ok (_, suites) =>
            (∃ detail, x = .error (.fileSystem detail)) ∨ ∃ g, x = .ok (g, suites) := by
  cases hp : w.store.catalog.plan style ids overrides with
  | error e => exact ⟨w.tree, .error e, advance_generate_unplanned hroot hp, rfl⟩
  | ok made =>
      obtain ⟨all, suites⟩ := made
      have hplan := advance_plan w style ids overrides
      rw [hp] at hplan
      rw [generate]
      simp only [hroot, Bool.not_true, Bool.false_eq_true, if_false]
      obtain ⟨tree, made, hmade, hfault⟩ := writes_layOut root w
      cases made with
      | error e =>
          obtain ⟨detail, rfl⟩ := hfault e rfl
          refine ⟨tree, .error (.fileSystem detail), ?_, .inl ⟨detail, rfl⟩⟩
          rw [World.advance_bind_ok hplan]
          exact World.advance_bind_error hmade
      | ok _ =>
          obtain ⟨tree', written, hwritten, hfault⟩ :=
            writes_writeAll (Catalog.confined_of_plan hp) ⟨root, [], [], []⟩ { w with tree := tree }
          cases written with
          | error e =>
              obtain ⟨detail, rfl⟩ := hfault e rfl
              refine ⟨tree', .error (.fileSystem detail), ?_, .inl ⟨detail, rfl⟩⟩
              rw [World.advance_bind_ok hplan]
              refine (World.advance_bind_ok hmade).trans ?_
              exact World.advance_bind_error hwritten
          | ok g =>
              refine ⟨tree', .ok (g, suites), ?_, .inr ⟨g, rfl⟩⟩
              rw [World.advance_bind_ok hplan]
              refine (World.advance_bind_ok hmade).trans ?_
              exact World.advance_bind_ok hwritten

/-- Wherever a planned file is written, its path is not refused. -/
lemma writeArtifact_of_plan {c : Catalog} {style : Source.Style} {ids : List Uuid}
    {overrides : Json.Bag} {all : List Artifact} {suites : List Suite}
    (h : c.plan style ids overrides = .ok (all, suites)) {a : Artifact} (ha : a ∈ all)
    (w : World) (root : Path) (detail : String) :
    (w.result? (writeArtifact root a.path a.content)).2
      ≠ some (.error (.invalidOutputPath detail)) := by
  intro hrefused
  obtain ⟨tree, x, hx, hfault⟩ :=
    writes_writeArtifact root a.content (Catalog.confined_of_plan h a ha) w
  rw [World.result?, hx, Option.some.injEq] at hrefused
  obtain ⟨reason, hreason⟩ := hfault _ hrefused
  cases hreason

/-- **Generating that fails leaves no trace, unless the file system is in the way.**  Whatever is
stored, and below any root: a fault of another kind leaves the world as it was, and none comes of
writing, since no path of a plan is refused. -/
theorem no_trace_of_failure (w : World) (style : Source.Style) (ids : List Uuid) (root : Path)
    (overrides : Json.Bag) :
    ∃ v x, w.result? (generate style ids root overrides) = (v, some x)
      ∧ (∀ e, x = .error e → (∃ detail, e = .fileSystem detail) ∨ v = w)
      ∧ ∀ all suites, (w.result? (plan style ids overrides)).2 = some (.ok (all, suites)) →
        ∀ a ∈ all, ∀ (u : World) detail,
          (u.result? (writeArtifact root a.path a.content)).2
            ≠ some (.error (.invalidOutputPath detail)) := by
  have hpaths : ∀ all suites, (w.result? (plan style ids overrides)).2 = some (.ok (all, suites)) →
      w.store.catalog.plan style ids overrides = .ok (all, suites) := by
    intro all suites hplan
    rwa [World.result?, advance_plan, Option.some.injEq] at hplan
  by_cases hroot : root.isAbsolute = true
  · cases hp : w.store.catalog.plan style ids overrides with
    | error e =>
        refine ⟨w, .error e, ?_, fun _ _ => .inr rfl, fun all suites hplan => ?_⟩
        · rw [World.result?, advance_generate_unplanned hroot hp]
        · cases hp.symm.trans (hpaths all suites hplan)
    | ok made =>
        obtain ⟨tree, x, hx, hmade⟩ := advance_generate w style ids overrides hroot
        rw [hp] at hmade
        refine ⟨{ w with tree := tree }, x, ?_, ?_, fun all suites hplan a ha u detail =>
          writeArtifact_of_plan (hpaths all suites hplan) ha u root detail⟩
        · rw [World.result?, hx]
        · rintro e rfl
          rcases hmade with ⟨detail, hd⟩ | ⟨g, hg⟩
          · exact .inl ⟨detail, Except.error.inj hd⟩
          · cases hg
  · refine ⟨w, .error (.relativeRoot root.text), ?_, fun _ _ => .inr rfl,
      fun all suites hplan a ha u detail =>
        writeArtifact_of_plan (hpaths all suites hplan) ha u root detail⟩
    rw [World.result?, advance_generate_relative w style ids overrides hroot]

/-- A result that is no fault of planning. -/
def PastPlanning {α : Type} (x : Option (Except Error α)) : Prop :=
  ∃ r, x = some r ∧ ∀ e, r = .error e → ∃ detail, e = .fileSystem detail

/-- **Generating comes past planning just when suites, pages and settings are fit for a plan.** -/
theorem passes_planning_iff {w : World} (hw : w.store.Reachable) (style : Source.Style)
    (ids : List Uuid) (overrides : Json.Bag) {root : Path} (hroot : root.isAbsolute = true) :
    PastPlanning (w.result? (generate style ids root overrides)).2
      ↔ Plannable w.store.catalog ids overrides := by
  have hchecks : Checks (w.store.catalog.plan style ids overrides)
      (Plannable w.store.catalog ids overrides) :=
    Catalog.checks_plan hw.catalog_sound style
  obtain ⟨tree, x, hx, hplan⟩ := advance_generate w style ids overrides hroot
  have hresult : (w.result? (generate style ids root overrides)).2 = some x := by
    rw [World.result?, hx]
  rw [hresult, ← hchecks.ok_iff]
  cases hp : w.store.catalog.plan style ids overrides with
  | error e =>
      rw [hp] at hplan
      refine iff_of_false ?_ (by simp)
      rintro ⟨_, ⟨⟩, hfault⟩
      obtain ⟨detail, rfl⟩ := hfault e hplan
      exact hchecks.fault _ hp rfl
  | ok made =>
      rw [hp] at hplan
      refine iff_of_true ⟨x, rfl, ?_⟩ ⟨made, rfl⟩
      rintro e rfl
      rcases hplan with ⟨detail, hd⟩ | ⟨g, hg⟩
      · exact ⟨detail, Except.error.inj hd⟩
      · cases hg

end

/-- A suite with one case, which clicks. -/
def smokeSuite : Suite := .make ⟨1⟩ ⟨2⟩ "Smoke" [.make ⟨3⟩ "sends" [.make "click" "#send"]]

section

open scoped Libraries.Lenient

/-- A world in which this suite is all that is stored. -/
def smokeWorld : World :=
  { World.bare with
    store := Store.empty.callAll [(default, .putSuite smokeSuite)] }

theorem passes_planning_smoke :
    PastPlanning (smokeWorld.result? (generate .standard [⟨1⟩] ⟨"/out"⟩ [])).2 := by
  have hrequested : smokeWorld.store.catalog.requested [⟨1⟩] = [smokeSuite] := rfl
  have hsuite : ∀ s ∈ smokeWorld.store.catalog.requested [⟨1⟩], s = smokeSuite := by
    rw [hrequested]
    exact fun s hs => List.mem_singleton.mp hs
  have hsteps : ∀ c ∈ smokeSuite.cases, ∀ step ∈ c.allSteps,
      step = .make "click" "#send" := by
    simp [smokeSuite, Suite.make, Case.make, Case.allSteps]
  have hrefers : ∀ id, ¬Plan.Refers (smokeWorld.store.catalog.requested [⟨1⟩]) id := by
    rintro id ⟨s, hs, c, hc, step, hstep, hpage⟩
    rw [hsuite s hs] at hc
    rw [hsteps c hc step hstep] at hpage
    cases hpage
  refine (passes_planning_iff ⟨_, rfl⟩ .standard [⟨1⟩] [] (by decide)).mpr {
    asked := by simp
    suites := by simpa using ⟨smokeSuite, rfl⟩
    pages := fun id h => absurd h (hrefers id)
    settings := fun s hs e he => by
      rw [hsuite s hs] at he
      cases he
    overrides := fun e he => by cases he
    pageNames := fun id p h => absurd h (hrefers id)
    accessors := fun id p h => absurd h (hrefers id)
    suiteNames := fun s hs => by
      rw [hsuite s hs]
      decide
    steps := fun s hs c hc step hstep => by
      rw [hsuite s hs] at hc
      rw [hsteps c hc step hstep]
      exact ⟨by decide, by decide, by decide⟩
    pageStems := fun id _ _ _ h => absurd h (hrefers id)
    suiteStems := by
      rw [hrequested]
      simp }

end

end Generation

end Rehearsal
