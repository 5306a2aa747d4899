import Mathlib
import Rehearsal.Proofs.Generation.Result

/-!
# What generating comes to when nobody works beside it

* `Generation.Produced`: the files on disk, and the paths that are handed on, as the suites and
  pages of the catalog have them.
* `Generation.produced_of_result`: **generating that succeeds has produced them**, and has changed
  nothing outside of the root.
-/

namespace Rehearsal

namespace Generation

/-! ## What is handed on -/

/-- The paths of the artifacts of some kinds. -/
def pathsWith (root : Path) (kinds : ArtifactKind → Bool) (all : List Artifact) : List Path :=
  (all.filter fun a => kinds a.kind).map fun a => root.join a.path

/-- **Each list has the paths of its kinds of artifacts**, in the order of the plan. -/
lemma record_eq (g : Generated) (all : List Artifact) : record g all =
    { root := g.root
      files := g.files ++ pathsWith g.root (· != .configuration) all
      configurationFiles := g.configurationFiles ++ pathsWith g.root (· == .configuration) all
      testFiles := g.testFiles ++ pathsWith g.root (· == .testFile) all } := by
  induction all generalizing g with
  | nil => simp [record, pathsWith]
  | cons a all ih =>
      have hcons : record g (a :: all) = record (g.add a.kind (g.root.join a.path)) all := rfl
      rw [hcons, ih]
      cases hkind : a.kind <;> simp [Generated.add, pathsWith, hkind]

lemma pathsWith_append (root : Path) (kinds : ArtifactKind → Bool) (all more : List Artifact) :
    pathsWith root kinds (all ++ more) = pathsWith root kinds all ++ pathsWith root kinds more := by
  rw [pathsWith, List.filter_append, List.map_append]
  rfl

lemma pathsWith_of_kind (root : Path) (kinds : ArtifactKind → Bool) {k : ArtifactKind}
    {all : List Artifact} (h : ∀ a ∈ all, a.kind = k) :
    pathsWith root kinds all = if kinds k then all.map fun a => root.join a.path else [] := by
  have hall : all.filter (fun a => kinds a.kind) = all.filter fun _ => kinds k :=
    List.filter_congr fun a ha => congrArg kinds (h a ha)
  rw [pathsWith, hall]
  cases kinds k <;> simp

/-- The lists of files, of a plan in its parts. -/
lemma recordOf_parts (style : Source.Style) (c : Configuration) (root : Path)
    {objects tests : List Artifact} (ho : ∀ a ∈ objects, a.kind = .pageObject)
    (ht : ∀ a ∈ tests, a.kind = .testFile) :
    recordOf root (objects ++ tests ++ Plan.supportArtifacts style c) =
      { root := root
        files := objects.map (fun a => root.join a.path) ++ tests.map (fun a => root.join a.path)
          ++ [root.join Plan.assertionsPath]
        configurationFiles := [root.join Plan.configurationPath, root.join Plan.packagePath]
        testFiles := tests.map fun a => root.join a.path } := by
  have hfiles : pathsWith root (· != .configuration) (Plan.supportArtifacts style c)
      = [root.join Plan.assertionsPath] := rfl
  have hsettings : pathsWith root (· == .configuration) (Plan.supportArtifacts style c)
      = [root.join Plan.configurationPath, root.join Plan.packagePath] := rfl
  have htests : pathsWith root (· == .testFile) (Plan.supportArtifacts style c) = [] := rfl
  rw [recordOf, record_eq]
  simp [pathsWith_append, pathsWith_of_kind root _ ho, pathsWith_of_kind root _ ht, hfiles,
    hsettings, htests]

/-! ## Generating with nobody beside it -/

/-- The directories of a project and those that lead to it. -/
def Ground (s : Site) (q : Place) : Prop :=
  q ∈ s.ancestors ∨ ∃ ns ∈ Plan.layout, q = s.place ++ ns

section

variable [Libraries]

/-- What generating below a root has come to: the world before and behind it, the files that are
handed on, the suites and their pages, and the settings. -/
structure Produced (style : Source.Style) (ids : List Uuid) (overrides : Json.Bag) (s : Site)
    (w v : World) (g : Generated) (suites : List Suite) (pages : List Page) (c : Configuration) :
    Prop where
  /-- The suites are those that were asked for, in that order. -/
  requested : List.Forall₂ (fun id suite => w.store.catalog.suite? id = some suite) ids suites
  /-- The pages are those that some suite refers to, each once, in the order of first reference. -/
  referred : List.Forall₂ (fun id page => w.store.catalog.page? id = some page)
    (suites.flatMap Suite.pageReferences).eraseDups pages
  settings : Configuration.merged (suites.map Suite.configuration ++ [overrides]) = .ok c
  files : g.files = pages.map (fun p => s.path.join (Plan.pageFile p))
    ++ suites.map (fun suite => s.path.join (Plan.testFile suite))
    ++ [s.path.join Plan.assertionsPath]
  configurationFiles : g.configurationFiles
    = [s.path.join Plan.configurationPath, s.path.join Plan.packagePath]
  testFiles : g.testFiles = suites.map fun suite => s.path.join (Plan.testFile suite)
  /-- No two files stand at the same place. -/
  distinct : (g.paths.map Path.segments).Nodup
  below : ∀ p ∈ g.paths, ∃ ns, ns ≠ [] ∧ p.segments = s.path.segments ++ ns.map .name
  pageTexts : ∀ p ∈ pages, ∃ text, Source.pageObject style p = .ok text
    ∧ v.tree.read? (s.path.join (Plan.pageFile p)) = some text
  testTexts : ∀ suite ∈ suites, ∃ text,
    Source.testFile style (Plan.pagesOf pages) suite = .ok text
      ∧ v.tree.read? (s.path.join (Plan.testFile suite)) = some text
  helperText : v.tree.read? (s.path.join Plan.assertionsPath) = some Source.assertionHelper
  settingsText : v.tree.read? (s.path.join Plan.configurationPath)
    = some (Source.configFile style c)
  packageText : v.tree.read? (s.path.join Plan.packagePath)
    = some (Source.packageFile Plan.packageName)
  /-- Nothing else has changed, but that directories were made. -/
  elsewhere : ∀ q, (∀ p ∈ g.paths, q ≠ FileTree.landing [] p.segments) →
    v.tree.get? q = w.tree.get? q
      ∨ Ground s q ∧ w.tree.get? q = none ∧ v.tree.get? q = some .directory
  ground : ∀ q, Ground s q → v.tree.get? q = some .directory
  world : v = { w with tree := v.tree }

/-- The parts of a plan that the catalog has. -/
lemma fetched_of_plan {c : Catalog} {style : Source.Style} {ids : List Uuid} {overrides : Json.Bag}
    {all : List Artifact} {suites : List Suite}
    (h : c.plan style ids overrides = .ok (all, suites)) :
    ∃ pages, List.Forall₂ (fun id suite => c.suite? id = some suite) ids suites
      ∧ List.Forall₂ (fun id page => c.page? id = some page) (Plan.distinctPages suites) pages
      ∧ Plan.artifacts style suites pages overrides = .ok all := by
  rw [Catalog.plan] at h
  split_ifs at h
  obtain ⟨found, hfound, h⟩ := bind_eq_ok_iff.mp h
  obtain ⟨pages, hpages, h⟩ := bind_eq_ok_iff.mp h
  obtain ⟨artifacts, hartifacts, h⟩ := bind_eq_ok_iff.mp h
  cases h
  exact ⟨pages, (Plan.forall₂_of_collect hfound).imp fun _ _ => foundOr_eq_ok_iff.mp,
    (Plan.forall₂_of_collect hpages).imp fun _ _ => foundOr_eq_ok_iff.mp, hartifacts⟩

/-- Generating that succeeds has planned, and then built what it planned. -/
lemma built_of_result {w v : World} {style : Source.Style} {ids : List Uuid} {root : Path}
    {overrides : Json.Bag} {g : Generated} {suites : List Suite}
    (h : w.result? (generate style ids root overrides) = (v, some (.ok (g, suites)))) :
    ∃ (hroot : root.isAbsolute = true) (all : List Artifact),
      w.store.catalog.plan style ids overrides = .ok (all, suites) ∧ g = recordOf root all
        ∧ (⟨root, hroot⟩ : Site).Built all w.tree v.tree
        ∧ (⟨root, hroot⟩ : Site).Within w.tree v.tree ∧ v = { w with tree := v.tree } := by
  rw [World.result?] at h
  by_cases hroot : root.isAbsolute = true
  · obtain ⟨tree, x, hx, hmade⟩ := advance_generate w style ids overrides hroot
    cases hplan : w.store.catalog.plan style ids overrides with
    | error e =>
        rw [hplan] at hmade
        rw [hx, hmade] at h
        cases h
    | ok made =>
        obtain ⟨all, asked⟩ := made
        have hadvance := advance_plan w style ids overrides
        rw [hplan] at hadvance
        have hconstruct : w.advance (construct root all asked).run
            = ({ w with tree := tree }, .ended x) := by
          rw [← hx, generate_eq hroot]
          exact (World.advance_bind_ok
            (f := fun made => construct root made.1 made.2) hadvance).symm
        obtain ⟨pages, -, -, hartifacts⟩ := fetched_of_plan hplan
        rw [hx] at h
        cases h
        have hsecures : Secures (.building ⟨root, hroot⟩) _ (construct root all asked).run []
            w.tree :=
          secures_construct hartifacts
        obtain ⟨⟨_, hends⟩, hwithin⟩ := hsecures.of_advance hconstruct
        obtain ⟨hhanded, hbuilt⟩ := hends
        cases hhanded
        exact ⟨hroot, all, rfl, rfl, hbuilt, hwithin, rfl⟩
  · rw [advance_generate_relative w style ids overrides hroot] at h
    cases h

end

section parts

variable {style : Source.Style} {pages : List Page} {suites : List Suite} {c : Configuration}
  {objects tests : List Artifact} {root : Path}

/-- The lists of files, by the pages and suites they are for. -/
lemma recordOf_eq [Libraries] (root : Path) (c : Configuration)
    (ho : Plan.collect (Plan.pageArtifact style) pages = .ok objects)
    (ht : Plan.collect (Plan.testArtifact style (Plan.pagesOf pages)) suites = .ok tests) :
    recordOf root (objects ++ tests ++ Plan.supportArtifacts style c) =
      { root := root
        files := pages.map (fun p => root.join (Plan.pageFile p))
          ++ suites.map (fun suite => root.join (Plan.testFile suite))
          ++ [root.join Plan.assertionsPath]
        configurationFiles := [root.join Plan.configurationPath, root.join Plan.packagePath]
        testFiles := suites.map fun suite => root.join (Plan.testFile suite) } := by
  have hpages : objects.map (fun a => root.join a.path)
      = pages.map fun p => root.join (Plan.pageFile p) :=
    Plan.map_of_collect ho fun p a h => congrArg root.join (Plan.path_of_pageArtifact h)
  have hsuites : tests.map (fun a => root.join a.path)
      = suites.map fun suite => root.join (Plan.testFile suite) :=
    Plan.map_of_collect ht fun suite a h => congrArg root.join (Plan.path_of_testArtifact h)
  rw [recordOf_parts style c root (Plan.kind_of_objects ho) (Plan.kind_of_tests ht), hpages,
    hsuites]

/-- Every planned file is among those that are handed on, and no other file is. -/
lemma paths_recordOf [Libraries] (root : Path) (c : Configuration)
    (ho : Plan.collect (Plan.pageArtifact style) pages = .ok objects)
    (ht : Plan.collect (Plan.testArtifact style (Plan.pagesOf pages)) suites = .ok tests) :
    (recordOf root (objects ++ tests ++ Plan.supportArtifacts style c)).paths
      = (objects ++ tests ++ Plan.supportArtifacts style c).map fun a => root.join a.path := by
  have hpaths := congrArg (List.map root.join) (Plan.paths_of_parts c ho ht)
  rw [List.map_map] at hpaths
  rw [recordOf_eq root c ho ht, Generated.paths]
  refine Eq.trans ?_ hpaths.symm
  simp [Plan.supportFiles, Function.comp_def]

end parts

/-! ## What is on disk -/

section disk

variable {s : Site} {style : Source.Style} {suites : List Suite} {pages : List Page}
  {overrides : Json.Bag} {all : List Artifact} {t u : FileTree}

/-- Planned files have their places below the root. -/
lemma segments_of_artifacts [Libraries] (s : Site)
    (h : Plan.artifacts style suites pages overrides = .ok all) :
    ∀ a ∈ all, (s.path.join a.path).segments = s.below a.names :=
  fun a ha => Path.segments_join_of_confined (clean_of_artifacts h a ha).confined

lemma nodup_segments_of_artifacts [Libraries] (s : Site)
    (h : Plan.artifacts style suites pages overrides = .ok all) :
    ((all.map fun a => s.path.join a.path).map Path.segments).Nodup := by
  have hsegments : (all.map fun a => s.path.join a.path).map Path.segments
      = (all.map Artifact.names).map s.below := by
    rw [List.map_map, List.map_map]
    exact List.map_congr_left (segments_of_artifacts s h)
  rw [hsegments]
  exact (nodup_names_of_artifacts h).map Site.below_injective

/-- The texts of the files that every project has. -/
lemma read?_support {c : Configuration} {root : Path}
    (h : ∀ a ∈ Plan.supportArtifacts style c, u.read? (root.join a.path) = some a.content) :
    u.read? (root.join Plan.assertionsPath) = some Source.assertionHelper
      ∧ u.read? (root.join Plan.configurationPath) = some (Source.configFile style c)
      ∧ u.read? (root.join Plan.packagePath) = some (Source.packageFile Plan.packageName) := by
  simp only [Plan.supportArtifacts, List.forall_mem_cons] at h
  exact ⟨h.1, h.2.1, h.2.2.1⟩

/-- Where no planned file is, nothing changes but that directories are made. -/
lemma elsewhere_of_built (hbuilt : s.Built all t u) (hwithin : s.Within t u) {q : Place}
    (hq : ∀ a ∈ all, q ≠ FileTree.landing [] (s.below a.names)) :
    u.get? q = t.get? q ∨ Ground s q ∧ t.get? q = none ∧ u.get? q = some .directory := by
  by_cases hplace : s.place <+: q
  · obtain ⟨ns, rfl⟩ := hplace
    refine (hbuilt.rest ns fun a ha hns => hq a ha ?_).imp_right ?_
    · rw [Site.landing_below, hns]
    · rintro ⟨hground, hnone, hmade⟩
      exact ⟨hground.symm.imp_right fun hns => ⟨ns, hns, rfl⟩, hnone, hmade⟩
  · exact (hwithin.outside q hplace).imp_right fun hmade => ⟨.inl hmade.1, hmade.2⟩

/-- The directories of a project, and those that lead to it, are there. -/
lemma ground_of_built (hbuilt : s.Built all t u) {q : Place} (hq : Ground s q) :
    u.get? q = some .directory := by
  rcases hq with hway | ⟨ns, hns, rfl⟩
  · have hroot := (hbuilt.directories [] List.mem_cons_self).1
    exact hroot.directories q (Site.mem_passed_below.mpr (.inl (List.mem_cons_of_mem _ hway)))
  · exact (hbuilt.directories ns hns).2

end disk

/-- **Generating that succeeds has written exactly what it planned.** -/
theorem produced_of_result [Libraries] {w v : World} {style : Source.Style} {ids : List Uuid}
    {root : Path} {overrides : Json.Bag} {g : Generated} {suites : List Suite}
    (h : w.result? (generate style ids root overrides) = (v, some (.ok (g, suites)))) :
    ∃ (hroot : root.isAbsolute = true) (pages : List Page) (c : Configuration),
      Produced style ids overrides ⟨root, hroot⟩ w v g suites pages c := by
  obtain ⟨hroot, all, hplan, rfl, hbuilt, hwithin, hworld⟩ := built_of_result h
  obtain ⟨pages, hrequested, hreferred, hartifacts⟩ := fetched_of_plan hplan
  obtain ⟨c, objects, tests, hc, ho, ht, rfl, -⟩ := Plan.parts_of_artifacts hartifacts
  have hrecord := recordOf_eq root c ho ht
  have hpaths := paths_recordOf root c ho ht
  have hclean := clean_of_artifacts hartifacts
  have hbelow := segments_of_artifacts ⟨root, hroot⟩ hartifacts
  have hread := hbuilt.read? hclean
  obtain ⟨hhelper, hsettings, hpackage⟩ :=
    read?_support fun a ha => hread a (List.mem_append_right _ ha)
  refine ⟨hroot, pages, c, ?_⟩
  constructor
  case requested => exact hrequested
  case referred => exact Plan.distinctPages_eq_eraseDups suites ▸ hreferred
  case settings => exact hc
  case files => rw [hrecord]
  case configurationFiles => rw [hrecord]
  case testFiles => rw [hrecord]
  case world => exact hworld
  case distinct =>
    rw [hpaths]
    exact nodup_segments_of_artifacts ⟨root, hroot⟩ hartifacts
  case below =>
    rw [hpaths]
    refine List.forall_mem_map.mpr fun a ha => ⟨a.names, ?_, hbelow a ha⟩
    exact (hclean a ha).names_ne_nil
  case pageTexts => exact hbuilt.pageTexts hartifacts
  case testTexts => exact hbuilt.testTexts hartifacts
  case helperText => exact hhelper
  case settingsText => exact hsettings
  case packageText => exact hpackage
  case elsewhere =>
    intro q hq
    rw [hpaths, List.forall_mem_map] at hq
    exact elsewhere_of_built hbuilt hwithin fun a ha => hbelow a ha ▸ hq a ha
  case ground => exact fun q => ground_of_built hbuilt

section

open scoped Libraries.Lenient

theorem produced_of_result_smoke : ∃ v g suites,
    smokeWorld.result? (generate .standard [⟨1⟩] ⟨"/out"⟩ []) = (v, some (.ok (g, suites)))
      ∧ ∃ (hroot : (⟨"/out"⟩ : Path).isAbsolute = true) (pages : List Page) (c : Configuration),
        Produced .standard [⟨1⟩] [] ⟨⟨"/out"⟩, hroot⟩ smokeWorld v g suites pages c := by
  have hok : ((smokeWorld.result? (generate .standard [⟨1⟩] ⟨"/out"⟩ [])).2.map
      fun x => x.toOption.isSome) = some true := by
    decide +kernel
  obtain ⟨v, x, hx, -⟩ := no_trace_of_failure smokeWorld .standard [⟨1⟩] ⟨"/out"⟩ []
  rw [hx] at hok
  cases x with
  | error e => cases hok
  | ok made => exact ⟨v, made.1, made.2, hx, produced_of_result hx⟩

end

end Generation

end Rehearsal
