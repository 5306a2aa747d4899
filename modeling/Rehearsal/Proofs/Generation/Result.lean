import Mathlib
import Rehearsal.Proofs.Generation.Build

/-!
# What has been generated

Generating plans first and builds then.  Planning leaves the tree alone, and building puts there
what was planned.

* `Plan.layout`: the directories that every project has.  No file of a plan stands anywhere else.
* `Site.Built`: the files and directories of a plan stand, and **nothing else is new**.
* `Generation.Planned`: a plan made from the suites and pages that were fetched.
* `Generation.secures_generate`: **what is built was planned from what was fetched**, whatever
  others do in the meantime.
-/

namespace Rehearsal

/-! ## The shape of a generated project -/

namespace Plan

/-- The directories of every generated project, the root included, by the names on their paths. -/
def layout : List Place := [] :: directories.map fun d => Path.names ⟨d⟩

lemma mem_layout_of_isPrefix {ns ms : Place} (h : ns ∈ layout) (hms : ms <+: ns) : ms ∈ layout := by
  have hall : ∀ ns ∈ layout, ∀ ms ∈ ns.inits, ms ∈ layout := by
    decide +kernel
  exact hall ns h ms ((List.mem_inits ms ns).mpr hms)

end Plan

namespace Generation

section plan

variable {style : Source.Style} {suites : List Suite} {pages : List Page} {overrides : Json.Bag}
  {all : List Artifact}

/-- Every file of a plan stands in one of the directories that every project has. -/
lemma parent_mem_layout [Libraries] (h : Plan.artifacts style suites pages overrides = .ok all) :
    ∀ a ∈ all, a.names.dropLast ∈ Plan.layout := by
  refine forall_path_of_artifacts h (P := fun path => (Path.names ⟨path⟩).dropLast ∈ Plan.layout)
    (fun p => ?_) (fun s => ?_) ?_
  · rw [(clean_pageFile p).names, pieces_pageFile]
    have hpages : [String.ofList "tests".toList, String.ofList "pages".toList] ∈ Plan.layout := by
      decide +kernel
    exact hpages
  · rw [(clean_testFile s).names, pieces_testFile]
    have htests : [String.ofList "tests".toList] ∈ Plan.layout := by
      decide +kernel
    exact htests
  · decide +kernel

/-- No two files of a plan stand at the same place. -/
lemma nodup_names_of_artifacts [Libraries]
    (h : Plan.artifacts style suites pages overrides = .ok all) :
    (all.map Artifact.names).Nodup := by
  have hclean : ∀ path ∈ all.map Artifact.path, Path.Clean path :=
    List.forall_mem_map.mpr (clean_of_artifacts h)
  have hnodup := (Plan.nodup_of_artifacts h).map_on fun path hpath other hother =>
    (hclean path hpath).eq_of_names_eq (hclean other hother)
  rwa [List.map_map] at hnodup

end plan

end Generation

namespace Site

variable {s : Site} {all : List Artifact} {t mid u v : FileTree}

variable (s) in
/-- A project has been built: its files and directories stand, and nothing else is new. -/
structure Built (all : List Artifact) (t u : FileTree) : Prop where
  reached : ∀ a ∈ all, s.Leads u a.names
  files : ∀ a ∈ all, s.content u a.names = some (.file a.content)
  plain : ∀ a ∈ all, (s.path.join a.path).needsDirectory = false
  directories : ∀ ns ∈ Plan.layout, s.Stands u ns
  rest : ∀ ns, (∀ a ∈ all, ns ≠ a.names) → s.content u ns = s.content t ns
    ∨ (ns ∈ Plan.layout ∨ s.place ++ ns ∈ s.ancestors)
      ∧ s.content t ns = none ∧ s.content u ns = some .directory

namespace Built

/-- Directories first, and then the files in them. -/
lemma of_grows (hgrows : s.Grows (Generation.Leading Plan.directories) t mid)
    (hstands : ∀ d ∈ Plan.directories, s.Stands mid (Path.names ⟨d⟩)) (h : s.Holds all mid u)
    (hparents : ∀ a ∈ all, a.names.dropLast ∈ Plan.layout) : s.Built all t u := by
  have hmid : ∀ ns ∈ Plan.layout, s.Stands mid ns := by
    refine List.forall_mem_cons.mpr ⟨?_, List.forall_mem_map.mpr hstands⟩
    exact (hstands "tests" (by decide)).of_isPrefix List.nil_prefix
  have hleading : ∀ ns, Generation.Leading Plan.directories ns → ns ∈ Plan.layout := by
    rintro ns ⟨d, hd, hns⟩
    exact Plan.mem_layout_of_isPrefix (List.mem_cons_of_mem _ (List.mem_map_of_mem hd)) hns
  constructor
  case reached => exact h.reached
  case files => exact h.files
  case plain => exact h.plain
  case directories =>
    intro ns hns
    have hdirectory := (hmid ns hns).2
    refine ⟨h.leads ns (hmid ns hns).1, ?_⟩
    rcases h.rest ns fun a ha hne => h.free a ha (hne ▸ hdirectory) with hsame | ⟨-, -, hmade⟩
    · exact hsame.trans hdirectory
    · exact hmade
  case rest =>
    intro ns hns
    rcases h.rest ns hns with hsame | ⟨hplace, hnone, hmade⟩
    · rw [hsame]
      exact (hgrows.content ns).imp_right fun h => ⟨h.1.imp_left (hleading ns), h.2⟩
    · refine .inr ⟨hplace.imp_left ?_, ?_, hmade⟩
      · rintro ⟨a, ha, hbegins⟩
        exact Plan.mem_layout_of_isPrefix (hparents a ha) hbegins
      · rcases hgrows.content ns with hsame | ⟨-, hnone', -⟩
        · exact hsame ▸ hnone
        · exact hnone'

lemma spares (h : s.Built all t u) (huv : s.Spares u v) : s.Built all t v where
  reached a ha := huv.leads (h.reached a ha)
  files a ha := (huv.content _).trans (h.files a ha)
  plain := h.plain
  directories ns hns := huv.stands (h.directories ns hns)
  rest ns hns := by
    rw [huv.content]
    exact h.rest ns hns

lemma after_spares (h : s.Built all mid u) (hmid : s.Spares t mid) : s.Built all t u where
  reached := h.reached
  files := h.files
  plain := h.plain
  directories := h.directories
  rest ns hns := by
    rw [← hmid.content]
    exact h.rest ns hns

/-- Every file is read back as it was written. -/
theorem read? (h : s.Built all t u) (hclean : ∀ a ∈ all, Path.Clean a.path) :
    ∀ a ∈ all, u.read? (s.path.join a.path) = some a.content := by
  intro a ha
  have hsegments : (s.path.join a.path).segments = s.below a.names :=
    Path.segments_join_of_confined (hclean a ha).confined
  refine FileTree.read?_eq_some (h.plain a ha) (hsegments ▸ h.reached a ha) ?_
  rw [hsegments, landing_below]
  exact h.files a ha

section planned

variable {style : Source.Style} {suites : List Suite} {pages : List Page} {overrides : Json.Bag}

/-- Every page has its page object on disk. -/
lemma pageTexts [Libraries] (h : s.Built all t u)
    (hartifacts : Plan.artifacts style suites pages overrides = .ok all) :
    ∀ p ∈ pages, ∃ text, Source.pageObject style p = .ok text
      ∧ u.read? (s.path.join (Plan.pageFile p)) = some text := by
  intro p hp
  obtain ⟨text, htext, hmem⟩ := Plan.page_mem_artifacts hartifacts hp
  have hown := h.read? (Generation.clean_of_artifacts hartifacts) _ hmem
  exact ⟨text, htext, hown⟩

/-- Every suite has its test file on disk. -/
lemma testTexts [Libraries] (h : s.Built all t u)
    (hartifacts : Plan.artifacts style suites pages overrides = .ok all) :
    ∀ suite ∈ suites, ∃ text, Source.testFile style (Plan.pagesOf pages) suite = .ok text
      ∧ u.read? (s.path.join (Plan.testFile suite)) = some text := by
  intro suite hs
  obtain ⟨text, htext, hmem⟩ := Plan.test_mem_artifacts hartifacts hs
  have hown := h.read? (Generation.clean_of_artifacts hartifacts) _ hmem
  exact ⟨text, htext, hown⟩

end planned

end Built

end Site

/-! ## The two phases -/

namespace Generation

variable {r : Rules} {deeds : List Deed} {t : FileTree}

/-- The second phase: everything is written. -/
def construct (root : Path) (all : List Artifact) (suites : List Suite) :
    Call (Generated × List Suite) := do
  layOut root
  let g ← writeAll ⟨root, [], [], []⟩ all
  return (g, suites)

/-- What is handed on after a project has been built. -/
def recordOf (root : Path) (all : List Artifact) : Generated := record ⟨root, [], [], []⟩ all

lemma generate_eq [Libraries] {root : Path} (hroot : root.isAbsolute = true) (style : Source.Style)
    (ids : List Uuid) (overrides : Json.Bag) : generate style ids root overrides
      = plan style ids overrides >>= fun made => construct root made.1 made.2 := by
  rw [generate]
  simp only [hroot, Bool.not_true, Bool.false_eq_true, if_false]
  rfl

/-- Building what has been planned. -/
theorem secures_construct [Libraries] {style : Source.Style} {suites : List Suite}
    {pages : List Page} {overrides : Json.Bag} {all : List Artifact}
    (h : Plan.artifacts style suites pages overrides = .ok all) :
    Secures r (OnSuccess fun made _ u => made = (recordOf r.site.path all, suites)
        ∧ r.site.Built all t u)
      (construct r.site.path all suites).run deeds t := by
  have hconfined : ∀ d ∈ Plan.directories, confined d = true := by
    decide +kernel
  have hclean := clean_of_artifacts h
  refine Secures.andThen (secures_layOutAll hconfined) ?_
  rintro _ ds mid ⟨hgrows, hstands⟩
  refine Secures.andThen (secures_writeAll rfl hclean (nodup_names_of_artifacts h)) ?_
  rintro _ ds' u ⟨rfl, hholds⟩
  exact ⟨rfl, .of_grows hgrows hstands hholds (parent_mem_layout h)⟩

/-- Things that were fetched, each for the identifier in its place. -/
def Fetched {α : Type} (deed : Uuid → α → Deed) (deeds : List Deed) (ids : List Uuid)
    (as : List α) : Prop :=
  List.Forall₂ (fun id a => deed id a ∈ deeds) ids as

lemma Fetched.mono {α : Type} {deed : Uuid → α → Deed} {ds : List Deed} {ids : List Uuid}
    {as : List α} (h : Fetched deed deeds ids as) (hds : deeds <+: ds) : Fetched deed ds ids as :=
  h.imp fun _ _ hmem => hds.subset hmem

/-- A suite was found. -/
def foundSuite (id : Uuid) (s : Suite) : Deed := .act (.suite id) (some s)

/-- A page was found. -/
def foundPage (id : Uuid) (p : Page) : Deed := .act (.page id) (some p)

lemma secures_suite (id : Uuid) :
    Secures r (OnSuccess fun s ds u => foundSuite id s ∈ ds ∧ r.site.Spares t u)
      (Call.suite id).run deeds t := by
  refine Secures.of_offTree trivial fun answer u hu => ?_
  cases answer with
  | none => trivial
  | some s => exact ⟨List.mem_append_right _ (List.mem_singleton_self _), hu⟩

lemma secures_page (id : Uuid) :
    Secures r (OnSuccess fun p ds u => foundPage id p ∈ ds ∧ r.site.Spares t u)
      (Call.page id).run deeds t := by
  refine Secures.of_offTree trivial fun answer u hu => ?_
  cases answer with
  | none => trivial
  | some p => exact ⟨List.mem_append_right _ (List.mem_singleton_self _), hu⟩

lemma secures_fetch {α : Type} {get : Uuid → Call α} {deed : Uuid → α → Deed}
    (hget : ∀ id ds u, Secures r (OnSuccess fun a ds' v => deed id a ∈ ds' ∧ r.site.Spares u v)
      (get id).run ds u) (ids : List Uuid) :
    Secures r (OnSuccess fun as ds u => Fetched deed ds ids as ∧ r.site.Spares t u)
      (fetch get ids).run deeds t := by
  induction ids generalizing deeds t with
  | nil => exact ⟨.nil, .refl t⟩
  | cons id ids ih =>
      refine Secures.andThen (hget id deeds t) fun a ds u ha => ?_
      refine Secures.andThen ih.prefix_success ?_
      rintro as ds' v ⟨⟨hfetched, hspares⟩, hbegins⟩
      exact ⟨.cons (hbegins.subset ha.1) hfetched, ha.2.trans hspares⟩

/-- A plan was made from suites and pages that were fetched. -/
structure Planned [Libraries] (style : Source.Style) (ids : List Uuid) (overrides : Json.Bag)
    (deeds : List Deed) (suites : List Suite) (pages : List Page) (all : List Artifact) : Prop where
  asked : ids ≠ []
  suitesFetched : Fetched foundSuite deeds ids suites
  pagesFetched : Fetched foundPage deeds (Plan.distinctPages suites) pages
  artifacts : Plan.artifacts style suites pages overrides = .ok all

lemma Planned.mono [Libraries] {style : Source.Style} {ids : List Uuid} {overrides : Json.Bag}
    {ds : List Deed} {suites : List Suite} {pages : List Page} {all : List Artifact}
    (h : Planned style ids overrides deeds suites pages all) (hds : deeds <+: ds) :
    Planned style ids overrides ds suites pages all :=
  ⟨h.asked, h.suitesFetched.mono hds, h.pagesFetched.mono hds, h.artifacts⟩

lemma secures_given {α : Type} (x : Except Error α) :
    Secures r (OnSuccess fun a ds u => x = .ok a ∧ ds = deeds ∧ u = t) (Call.given x).run
      deeds t := by
  cases x with
  | ok a => exact ⟨rfl, rfl, rfl⟩
  | error e => trivial

/-- The first phase: everything is fetched and planned, and the tree is left alone. -/
lemma secures_plan [Libraries] (style : Source.Style) (ids : List Uuid) (overrides : Json.Bag) :
    Secures r (OnSuccess fun made ds u =>
        (∃ pages, Planned style ids overrides ds made.2 pages made.1)
        ∧ r.site.Spares t u)
      (plan style ids overrides).run deeds t := by
  rw [plan]
  split_ifs with hasked
  · trivial
  refine Secures.andThen (secures_fetch (fun id _ _ => secures_suite id) ids) ?_
  rintro suites ds u ⟨hsuites, hspares⟩
  refine Secures.andThen (secures_fetch (fun id _ _ => secures_page id) _).prefix_success ?_
  rintro pages ds' v ⟨⟨hpages, hspares'⟩, hbegins⟩
  refine Secures.andThen (secures_given _) ?_
  rintro all _ _ ⟨hartifacts, rfl, rfl⟩
  have hnonempty : ids ≠ [] := fun h => hasked (List.isEmpty_iff.mpr h)
  exact ⟨⟨pages, hnonempty, hsuites.mono hbegins, hpages, hartifacts⟩, hspares.trans hspares'⟩

/-- **Whatever others do, generating that succeeds has built what it planned from what it
fetched.** -/
theorem secures_generate [Libraries] (style : Source.Style) (ids : List Uuid)
    (overrides : Json.Bag) :
    Secures r (OnSuccess fun made ds u => ∃ pages all,
        Planned style ids overrides ds made.2 pages all
          ∧ made.1 = recordOf r.site.path all ∧ r.site.Built all t u)
      (generate style ids r.site.path overrides).run deeds t := by
  rw [generate_eq r.site.absolute]
  refine Secures.andThen (secures_plan style ids overrides) ?_
  rintro ⟨all, suites⟩ ds u ⟨⟨pages, hplanned⟩, hspares⟩
  refine (secures_construct hplanned.artifacts).prefix_success.mono_success ?_
  rintro _ ds' v ⟨⟨rfl, hbuilt⟩, hbegins⟩
  exact ⟨pages, all, hplanned.mono hbegins, rfl, hbuilt.after_spares hspares⟩

end Generation

end Rehearsal
