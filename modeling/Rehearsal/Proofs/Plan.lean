import Mathlib
import Rehearsal.Plan
import Rehearsal.Proofs.Configuration
import Rehearsal.Proofs.Source.Checks

/-!
# When a plan can be made

* `Plan.paths_nodup_iff`: no two files of a plan share a path **just when no two pages and no two
  suites share a stem**.  A page never gets in the way of a suite, nor either of them in the way
  of the files that every plan has.
* `Plan.mem_distinctPages`, `Plan.nodup_distinctPages`: the pages that are fetched are those that
  some step refers to, each once.
* `Plan.checks_artifacts`: what a plan asks of its suites, their pages and the settings.
-/

namespace Rehearsal.Plan

/-! ## One after the other -/

section collect

variable {α β : Type} {f : α → Except Error β}

lemma checks_collect {P : α → Prop} {as : List α} (h : ∀ a ∈ as, Checks (f a) (P a)) :
    Checks (collect f as) (∀ a ∈ as, P a) := by
  induction as with
  | nil => exact .ok (by simp)
  | cons a as ih =>
      obtain ⟨ha, has⟩ := List.forall_mem_cons.mp h
      refine (ha.bind fun _ _ => (ih has).bind_ok).congr ?_
      rw [List.forall_mem_cons]

/-- What each thing says of its result is said of all results. -/
lemma map_of_collect {γ : Type} {g : α → γ} {k : β → γ} {as : List α} {bs : List β}
    (h : collect f as = .ok bs) (hk : ∀ a b, f a = .ok b → k b = g a) : bs.map k = as.map g := by
  induction as generalizing bs with
  | nil => cases h; rfl
  | cons a as ih =>
      obtain ⟨b, hb, h⟩ := bind_eq_ok_iff.mp h
      obtain ⟨cs, hcs, h⟩ := bind_eq_ok_iff.mp h
      cases h
      rw [List.map_cons, List.map_cons, hk a b hb, ih hcs]

lemma forall₂_of_collect {as : List α} {bs : List β} (h : collect f as = .ok bs) :
    List.Forall₂ (fun a b => f a = .ok b) as bs := by
  induction as generalizing bs with
  | nil => cases h; exact .nil
  | cons a as ih =>
      obtain ⟨b, hb, h⟩ := bind_eq_ok_iff.mp h
      obtain ⟨cs, hcs, h⟩ := bind_eq_ok_iff.mp h
      cases h
      exact .cons hb (ih hcs)

lemma exists_of_collect {as : List α} {bs : List β} (h : collect f as = .ok bs) :
    ∀ a ∈ as, ∃ b ∈ bs, f a = .ok b := by
  have hall := forall₂_of_collect h
  clear h
  induction hall with
  | nil => simp
  | cons hab _ ih =>
      refine List.forall_mem_cons.mpr ⟨⟨_, List.mem_cons_self, hab⟩, fun a ha => ?_⟩
      obtain ⟨b, hb, hf⟩ := ih a ha
      exact ⟨b, List.mem_cons_of_mem _ hb, hf⟩

lemma exists_of_mem_collect {as : List α} {bs : List β} (h : collect f as = .ok bs) :
    ∀ b ∈ bs, ∃ a ∈ as, f a = .ok b := by
  have hall := forall₂_of_collect h
  clear h
  induction hall with
  | nil => simp
  | cons hab _ ih =>
      refine List.forall_mem_cons.mpr ⟨⟨_, List.mem_cons_self, hab⟩, fun b hb => ?_⟩
      obtain ⟨a, ha, hf⟩ := ih b hb
      exact ⟨a, List.mem_cons_of_mem _ ha, hf⟩

end collect

/-! ## Pages -/

section distinct

variable {α : Type} [DecidableEq α]

lemma mem_distinctFrom {as : List α} {seen : List α} {a : α} :
    a ∈ distinctFrom seen as ↔ a ∈ as ∧ a ∉ seen := by
  induction as generalizing seen with
  | nil => simp [distinctFrom]
  | cons b as ih =>
      rw [distinctFrom]
      split_ifs with hb
      · rw [ih, List.mem_cons]
        refine ⟨fun h => ⟨.inr h.1, h.2⟩, fun ⟨h, ha⟩ => ⟨h.resolve_left ?_, ha⟩⟩
        rintro rfl
        exact ha hb
      · rw [List.mem_cons, ih, List.mem_cons, List.mem_cons, not_or]
        by_cases hab : a = b
        · subst hab
          simp [hb]
        · simp [hab]

lemma nodup_distinctFrom (as seen : List α) : (distinctFrom seen as).Nodup := by
  induction as generalizing seen with
  | nil => exact List.nodup_nil
  | cons b as ih =>
      rw [distinctFrom]
      split_ifs
      · exact ih seen
      · refine List.nodup_cons.mpr ⟨fun h => ?_, ih _⟩
        exact (mem_distinctFrom.mp h).2 (List.mem_cons_self ..)

/-- Only what is in the list of things seen counts, not where. -/
lemma distinctFrom_congr {seen seen' : List α} (h : ∀ a, a ∈ seen ↔ a ∈ seen') (as : List α) :
    distinctFrom seen as = distinctFrom seen' as := by
  induction as generalizing seen seen' with
  | nil => rfl
  | cons a as ih =>
      have hcons : ∀ b, b ∈ a :: seen ↔ b ∈ a :: seen' := fun b => by simp [h]
      rw [distinctFrom, distinctFrom, ih h, ih hcons]
      simp only [h a]

lemma distinctFrom_append (seen as bs : List α) :
    distinctFrom seen (as ++ bs) = distinctFrom seen as ++ distinctFrom (as ++ seen) bs := by
  induction as generalizing seen with
  | nil => rfl
  | cons a as ih =>
      rw [List.cons_append, distinctFrom, distinctFrom]
      split_ifs with ha
      · rw [ih]
        refine congrArg _ (distinctFrom_congr (fun b => ?_) bs)
        simp only [List.mem_append, List.cons_append, List.mem_cons]
        refine ⟨.inr, ?_⟩
        rintro (rfl | h)
        · exact .inr ha
        · exact h
      · rw [ih, List.cons_append]
        refine congrArg _ (congrArg _ (distinctFrom_congr (fun b => ?_) bs))
        simp only [List.mem_append, List.cons_append, List.mem_cons]
        tauto

/-- What has been seen when the inner list is made has been seen when the outer one is. -/
lemma distinctFrom_distinctFrom {inner seen : List α} (h : inner ⊆ seen) (as : List α) :
    distinctFrom seen (distinctFrom inner as) = distinctFrom seen as := by
  induction as generalizing inner seen with
  | nil => rfl
  | cons a as ih =>
      rw [distinctFrom]
      split_ifs with hinner
      · rw [ih h, distinctFrom, if_pos (h hinner)]
      · rw [distinctFrom, distinctFrom]
        split_ifs with hseen
        · exact ih (List.cons_subset.mpr ⟨hseen, h⟩)
        · rw [ih (List.cons_subset_cons a h)]

/-- It does not matter whether each part has its repetitions dropped first. -/
lemma distinctFrom_flatMap {β : Type} (f : β → List α) (bs : List β) (seen : List α) :
    distinctFrom seen (bs.flatMap fun b => distinctFrom [] (f b))
      = distinctFrom seen (bs.flatMap f) := by
  induction bs generalizing seen with
  | nil => rfl
  | cons b bs ih =>
      rw [List.flatMap_cons, List.flatMap_cons, distinctFrom_append, distinctFrom_append, ih,
        distinctFrom_distinctFrom (List.nil_subset seen)]
      refine congrArg _ (distinctFrom_congr (fun a => ?_) _)
      rw [List.mem_append, List.mem_append, mem_distinctFrom]
      simp

/-- Each thing is kept where it stands first. -/
lemma distinctFrom_eq_eraseDups (seen as : List α) :
    distinctFrom seen as = (as.filter (· ∉ seen)).eraseDups := by
  induction as generalizing seen with
  | nil => rfl
  | cons a as ih =>
      rw [distinctFrom]
      split_ifs with ha
      · rw [ih, List.filter_cons_of_neg (by simpa using ha)]
      · rw [ih, List.filter_cons_of_pos (by simpa using ha), List.eraseDups_cons,
          List.filter_filter]
        refine congrArg (a :: List.eraseDups ·) (List.filter_congr fun b _ => ?_)
        by_cases hb : b = a <;> simp [hb]
end distinct

/-- Some step of the suites refers to the page. -/
def Refers (suites : List Suite) (id : Uuid) : Prop :=
  ∃ suite ∈ suites, ∃ c ∈ suite.cases, ∃ step ∈ c.allSteps, step.page = some id

/-- The pages that are fetched are those that some step refers to. -/
lemma mem_distinctPages {suites : List Suite} {id : Uuid} :
    id ∈ distinctPages suites ↔ Refers suites id := by
  simp only [distinctPages, Suite.pageIds, Suite.pageReferences, mem_distinctFrom, Refers,
    List.mem_flatMap, List.mem_filterMap, List.not_mem_nil, not_false_eq_true, and_true]

lemma nodup_distinctPages (suites : List Suite) : (distinctPages suites).Nodup :=
  nodup_distinctFrom _ _

/-- The pages that are fetched are those that some step refers to, in the order of first reference
across the suites. -/
theorem distinctPages_eq_eraseDups (suites : List Suite) :
    distinctPages suites = (suites.flatMap Suite.pageReferences).eraseDups := by
  have hflat : distinctPages suites = distinctFrom [] (suites.flatMap Suite.pageReferences) :=
    distinctFrom_flatMap Suite.pageReferences suites []
  rw [hflat, distinctFrom_eq_eraseDups, List.filter_eq_self.mpr]
  simp

/-- The renderer finds what was fetched. -/
lemma has_pagesOf {pages : List Page} {id : Uuid} (h : id ∈ pages.map Page.id) :
    Source.Pages.Has (pagesOf pages) (some id) := by
  rintro _ ⟨⟩
  obtain ⟨p, hp, rfl⟩ := List.mem_map.mp h
  have hsome : (pages.reverse.find? fun q => q.id == p.id).isSome :=
    List.find?_isSome.mpr ⟨p, List.mem_reverse.mpr hp, beq_self_eq_true _⟩
  exact Option.isSome_iff_exists.mp hsome

/-! ## Paths -/

/-- Where the page object of a page stands, if its stem is usable. -/
def pageFile (p : Page) : String := "tests/pages/" ++ Text.fileStem p.name ++ "_page.ts"

/-- Where the test file of a suite stands, if its stem is usable. -/
def testFile (s : Suite) : String := "tests/" ++ Text.fileStem s.name ++ ".spec.ts"

lemma checks_stem (kind name : String) : Checks (stem kind name) (Text.hasAlnum name = true) := by
  rw [stem]
  rw [Text.hasAlnum_fileStem]
  split_ifs with h
  · exact .ok h
  · exact .error (by simp [Error.emptyFileName, Error.category]) h

lemma stem_eq_ok {kind name s : String} (h : stem kind name = .ok s) : s = Text.fileStem name := by
  rw [stem] at h
  split_ifs at h
  cases h
  rfl

lemma testPath_eq_ok {s : Suite} {path : String} (h : testPath s = .ok path) :
    path = testFile s := by
  obtain ⟨t, ht, rfl⟩ := map_eq_ok_iff.mp h
  rw [stem_eq_ok ht]
  rfl

lemma pageArtifact_eq_ok [Libraries] {style : Source.Style} {p : Page} {a : Artifact}
    (h : pageArtifact style p = .ok a) :
    ∃ text, Source.pageObject style p = .ok text ∧ a = ⟨pageFile p, text, .pageObject⟩ := by
  obtain ⟨path, hpath, h⟩ := bind_eq_ok_iff.mp h
  obtain ⟨text, htext, h⟩ := bind_eq_ok_iff.mp h
  cases h
  obtain ⟨s, hs, rfl⟩ := map_eq_ok_iff.mp hpath
  rw [stem_eq_ok hs]
  exact ⟨text, htext, rfl⟩

lemma testArtifact_eq_ok {style : Source.Style} {pages : Source.Pages} {s : Suite}
    {a : Artifact} (h : testArtifact style pages s = .ok a) :
    ∃ text, Source.testFile style pages s = .ok text ∧ a = ⟨testFile s, text, .testFile⟩ := by
  obtain ⟨path, hpath, h⟩ := bind_eq_ok_iff.mp h
  obtain ⟨text, htext, h⟩ := bind_eq_ok_iff.mp h
  cases h
  rw [testPath_eq_ok hpath]
  exact ⟨text, htext, rfl⟩

lemma path_of_pageArtifact [Libraries] {style : Source.Style} {p : Page} {a : Artifact}
    (h : pageArtifact style p = .ok a) : a.path = pageFile p := by
  obtain ⟨text, -, rfl⟩ := pageArtifact_eq_ok h
  rfl

lemma path_of_testArtifact {style : Source.Style} {pages : Source.Pages} {s : Suite}
    {a : Artifact} (h : testArtifact style pages s = .ok a) : a.path = testFile s := by
  obtain ⟨text, -, rfl⟩ := testArtifact_eq_ok h
  rfl

lemma toList_pageFile (p : Page) : (pageFile p).toList
    = "tests/pages/".toList ++ ((Text.fileStem p.name).toList ++ "_page.ts".toList) := by
  simp only [pageFile, String.toList_append, List.append_assoc]

lemma toList_testFile (s : Suite) : (testFile s).toList
    = "tests/".toList ++ ((Text.fileStem s.name).toList ++ ".spec.ts".toList) := by
  simp only [testFile, String.toList_append, List.append_assoc]

/-- Behind its directory, the path of a test file has no slash. -/
lemma slash_notMem_drop_testFile (s : Suite) : '/' ∉ (testFile s).toList.drop 6 := by
  have hdrop : (testFile s).toList.drop 6
      = (Text.fileStem s.name).toList ++ ".spec.ts".toList := by
    rw [toList_testFile]
    rfl
  have hrest : '/' ∉ ".spec.ts".toList := by
    decide
  rw [hdrop, List.mem_append, not_or]
  exact ⟨Text.slash_notMem_fileStem s.name, hrest⟩

lemma pageFile_ne_testFile (p : Page) (s : Suite) : pageFile p ≠ testFile s := by
  intro h
  have hdrop : (pageFile p).toList.drop 6
      = "pages/".toList ++ ((Text.fileStem p.name).toList ++ "_page.ts".toList) := by
    rw [toList_pageFile]
    rfl
  refine slash_notMem_drop_testFile s ?_
  rw [← h, hdrop]
  exact List.mem_append_left _ (by decide)

lemma pageFile_eq_iff {p q : Page} :
    pageFile p = pageFile q ↔ Text.fileStem p.name = Text.fileStem q.name := by
  refine ⟨fun h => ?_, fun h => by rw [pageFile, pageFile, h]⟩
  rw [← String.toList_inj, toList_pageFile, toList_pageFile] at h
  exact String.toList_inj.mp (List.append_cancel_right (List.append_cancel_left h))

lemma testFile_eq_iff {s t : Suite} :
    testFile s = testFile t ↔ Text.fileStem s.name = Text.fileStem t.name := by
  refine ⟨fun h => ?_, fun h => by rw [testFile, testFile, h]⟩
  rw [← String.toList_inj, toList_testFile, toList_testFile] at h
  exact String.toList_inj.mp (List.append_cancel_right (List.append_cancel_left h))

/-- The paths that every plan has. -/
def supportFiles : List String := [assertionsPath, configurationPath, packagePath]

lemma pageFile_notMem_supportFiles (p : Page) : pageFile p ∉ supportFiles := by
  have htake : (pageFile p).toList.take 7 = "tests/p".toList := by
    rw [toList_pageFile]
    rfl
  intro h
  have hmem : "tests/p".toList ∈ supportFiles.map fun f => f.toList.take 7 :=
    htake ▸ List.mem_map_of_mem h
  revert hmem
  decide +kernel

lemma testFile_notMem_supportFiles (s : Suite) : testFile s ∉ supportFiles := by
  have htake : (testFile s).toList.take 6 = "tests/".toList := by
    rw [toList_testFile]
    rfl
  intro h
  have hslash : ∀ f ∈ supportFiles, f.toList.take 6 = "tests/".toList → '/' ∈ f.toList.drop 6 := by
    decide +kernel
  exact slash_notMem_drop_testFile s (hslash _ h htake)

/-- Pages do not get in the way of suites, nor either of them in the way of the rest. -/
theorem paths_nodup_iff (pages : List Page) (suites : List Suite) :
    (pages.map pageFile ++ suites.map testFile ++ supportFiles).Nodup
      ↔ (pages.map fun p => Text.fileStem p.name).Nodup
        ∧ (suites.map fun s => Text.fileStem s.name).Nodup := by
  have hpages : (pages.map pageFile).Nodup ↔ (pages.map fun p => Text.fileStem p.name).Nodup := by
    simp only [List.Nodup, List.pairwise_map, ne_eq, pageFile_eq_iff]
  have hsuites : (suites.map testFile).Nodup
      ↔ (suites.map fun s => Text.fileStem s.name).Nodup := by
    simp only [List.Nodup, List.pairwise_map, ne_eq, testFile_eq_iff]
  have hcross : ∀ f ∈ pages.map pageFile, ∀ g ∈ suites.map testFile, f ≠ g := by
    simp only [List.forall_mem_map]
    exact fun p _ s _ => pageFile_ne_testFile p s
  have hsupport : ∀ f ∈ pages.map pageFile ++ suites.map testFile, ∀ g ∈ supportFiles, f ≠ g := by
    rintro f hf g hg rfl
    rcases List.mem_append.mp hf with hf | hf
    · obtain ⟨p, -, rfl⟩ := List.mem_map.mp hf
      exact pageFile_notMem_supportFiles p hg
    · obtain ⟨s, -, rfl⟩ := List.mem_map.mp hf
      exact testFile_notMem_supportFiles s hg
  have hfixed : supportFiles.Nodup := by
    decide +kernel
  rw [List.nodup_append, List.nodup_append, hpages, hsuites]
  tauto

lemma repeated?_eq_none_iff {seen : List String} {as : List Artifact} :
    repeated? seen as = none
      ↔ (as.map Artifact.path).Nodup ∧ ∀ path ∈ as.map Artifact.path, path ∉ seen := by
  induction as generalizing seen with
  | nil => simp [repeated?]
  | cons a as ih =>
      rw [repeated?]
      rw [List.contains_eq_mem]
      by_cases ha : a.path ∈ seen
      · simp [ha]
      · simp only [ha, decide_false, Bool.false_eq_true, if_false, ih, List.map_cons,
          List.nodup_cons, List.mem_cons, forall_eq_or_imp, not_or]
        constructor
        · rintro ⟨hnodup, hfree⟩
          exact ⟨⟨fun h => (hfree _ h).1 rfl, hnodup⟩, not_false, fun f hf => (hfree f hf).2⟩
        · rintro ⟨⟨hmem, hnodup⟩, -, hfree⟩
          refine ⟨hnodup, fun f hf => ⟨?_, hfree f hf⟩⟩
          rintro rfl
          exact hmem hf

/-! ## Artifacts -/

/-- What a plan asks of its suites, their pages and the settings. -/
structure Fits (suites : List Suite) (pages : List Page) (overrides : Json.Bag) : Prop where
  settings : ∀ bag ∈ suites.map Suite.configuration ++ [overrides], ∀ e ∈ bag,
    Configuration.WellTyped e.1 e.2
  pageNames : ∀ p ∈ pages, Text.hasAlnum p.name = true
  accessors : ∀ p ∈ pages, Source.AccessorsFit p
  suiteNames : ∀ s ∈ suites, Text.hasAlnum s.name = true
  steps : ∀ s ∈ suites, ∀ c ∈ s.cases, ∀ step ∈ c.allSteps, step.Good
  pageStems : (pages.map fun p => Text.fileStem p.name).Nodup
  suiteStems : (suites.map fun s => Text.fileStem s.name).Nodup

lemma checks_pageArtifact [Libraries] (style : Source.Style) {p : Page} (h : p.validate = .ok ()) :
    Checks (pageArtifact style p) (Text.hasAlnum p.name = true ∧ Source.AccessorsFit p) := by
  refine (((checks_stem "Page" p.name).map).bind fun _ _ =>
    (Source.checks_pageObject style h).bind_ok).congr ?_
  tauto

lemma checks_testArtifact (style : Source.Style) {pages : Source.Pages} {s : Suite}
    (h : ∀ c ∈ s.cases, ∀ step ∈ c.allSteps, pages.Has step.page) :
    Checks (testArtifact style pages s)
      (Text.hasAlnum s.name = true ∧ ∀ c ∈ s.cases, ∀ step ∈ c.allSteps, step.Good) :=
  ((checks_stem "Suite" s.name).map).bind fun _ _ => (Source.checks_testFile style h).bind_ok

lemma checks_distinct (all : List Artifact) :
    Checks
      (match repeated? [] all with
        | some path => throw (Error.clashingArtifact path)
        | none => pure all : Except Error (List Artifact))
      (all.map Artifact.path).Nodup := by
  have hiff : repeated? [] all = none ↔ (all.map Artifact.path).Nodup := by
    simp [repeated?_eq_none_iff]
  split
  · next path h =>
      refine .error (by simp [Error.clashingArtifact, Error.category]) fun hnodup => ?_
      rw [hiff.mpr hnodup] at h
      cases h
  · next h => exact .ok (hiff.mp h)

lemma paths_of_parts [Libraries] {style : Source.Style} (c : Configuration) {suites : List Suite}
    {pages : List Page} {known : Source.Pages} {objects tests : List Artifact}
    (ho : collect (pageArtifact style) pages = .ok objects)
    (ht : collect (testArtifact style known) suites = .ok tests) :
    (objects ++ tests ++ supportArtifacts style c).map Artifact.path
      = pages.map pageFile ++ suites.map testFile ++ supportFiles := by
  rw [List.map_append, List.map_append, map_of_collect ho fun _ _ => path_of_pageArtifact,
    map_of_collect ht fun _ _ => path_of_testArtifact]
  rfl

/-- Planned page objects are page objects. -/
lemma kind_of_objects [Libraries] {style : Source.Style} {pages : List Page}
    {objects : List Artifact}
    (h : collect (pageArtifact style) pages = .ok objects) :
    ∀ a ∈ objects, a.kind = .pageObject := by
  intro a ha
  obtain ⟨p, -, hp⟩ := exists_of_mem_collect h a ha
  obtain ⟨text, -, rfl⟩ := pageArtifact_eq_ok hp
  rfl

/-- Planned test files are test files. -/
lemma kind_of_tests {style : Source.Style} {suites : List Suite} {known : Source.Pages}
    {tests : List Artifact}
    (h : collect (testArtifact style known) suites = .ok tests) :
    ∀ a ∈ tests, a.kind = .testFile := by
  intro a ha
  obtain ⟨s, -, hs⟩ := exists_of_mem_collect h a ha
  obtain ⟨text, -, rfl⟩ := testArtifact_eq_ok hs
  rfl

section artifacts

variable [Libraries] {style : Source.Style} {suites : List Suite} {pages : List Page}
  {overrides : Json.Bag} {all : List Artifact}

/-- A plan is made of page objects, test files and the rest, and no two files share a path. -/
lemma parts_of_artifacts (h : artifacts style suites pages overrides = .ok all) :
    ∃ c objects tests, Configuration.merged (suites.map Suite.configuration ++ [overrides]) = .ok c
      ∧ collect (pageArtifact style) pages = .ok objects
      ∧ collect (testArtifact style (pagesOf pages)) suites = .ok tests
      ∧ all = objects ++ tests ++ supportArtifacts style c ∧ (all.map Artifact.path).Nodup := by
  obtain ⟨c, hc, h⟩ := bind_eq_ok_iff.mp h
  obtain ⟨objects, ho, h⟩ := bind_eq_ok_iff.mp h
  obtain ⟨tests, ht, h⟩ := bind_eq_ok_iff.mp h
  dsimp only at h
  split at h
  · cases h
  · next hnone =>
      cases h
      exact ⟨c, objects, tests, hc, ho, ht, rfl, (repeated?_eq_none_iff.mp hnone).1⟩

/-- The paths of a plan. -/
lemma paths_of_artifacts (h : artifacts style suites pages overrides = .ok all) :
    all.map Artifact.path = pages.map pageFile ++ suites.map testFile ++ supportFiles := by
  obtain ⟨c, objects, tests, -, ho, ht, rfl, -⟩ := parts_of_artifacts h
  exact paths_of_parts c ho ht

/-- No two files of a plan share a path. -/
lemma nodup_of_artifacts (h : artifacts style suites pages overrides = .ok all) :
    (all.map Artifact.path).Nodup := by
  obtain ⟨c, objects, tests, -, -, -, -, hnodup⟩ := parts_of_artifacts h
  exact hnodup

/-- Every page has its page object in the plan. -/
lemma page_mem_artifacts (h : artifacts style suites pages overrides = .ok all) {p : Page}
    (hp : p ∈ pages) : ∃ text, Source.pageObject style p = .ok text
      ∧ ⟨pageFile p, text, .pageObject⟩ ∈ all := by
  obtain ⟨c, objects, tests, -, ho, -, rfl, -⟩ := parts_of_artifacts h
  obtain ⟨a, ha, hpage⟩ := exists_of_collect ho p hp
  obtain ⟨text, htext, rfl⟩ := pageArtifact_eq_ok hpage
  exact ⟨text, htext, List.mem_append_left _ (List.mem_append_left _ ha)⟩

/-- Every suite has its test file in the plan. -/
lemma test_mem_artifacts (h : artifacts style suites pages overrides = .ok all) {s : Suite}
    (hs : s ∈ suites) : ∃ text, Source.testFile style (pagesOf pages) s = .ok text
      ∧ ⟨testFile s, text, .testFile⟩ ∈ all := by
  obtain ⟨c, objects, tests, -, -, ht, rfl, -⟩ := parts_of_artifacts h
  obtain ⟨a, ha, htest⟩ := exists_of_collect ht s hs
  obtain ⟨text, htext, rfl⟩ := testArtifact_eq_ok htest
  exact ⟨text, htext, List.mem_append_left _ (List.mem_append_right _ ha)⟩

/-- Every suite has a path for its test file. -/
lemma testPath_of_artifacts (h : artifacts style suites pages overrides = .ok all)
    {s : Suite} (hs : s ∈ suites) : testPath s = .ok (testFile s) := by
  obtain ⟨c, objects, tests, -, -, ht, -, -⟩ := parts_of_artifacts h
  obtain ⟨a, -, htest⟩ := exists_of_collect ht s hs
  obtain ⟨path, hpath, -⟩ := bind_eq_ok_iff.mp htest
  rw [hpath, testPath_eq_ok hpath]

end artifacts

/-- There is a plan just when suites, pages and settings fit, if the pages are valid and all that
are referred to are at hand. -/
theorem checks_artifacts [Libraries] (style : Source.Style) {suites : List Suite}
    {pages : List Page}
    (overrides : Json.Bag) (hvalid : ∀ p ∈ pages, p.validate = .ok ())
    (hpages : ∀ id, Refers suites id → id ∈ pages.map Page.id) :
    Checks (artifacts style suites pages overrides) (Fits suites pages overrides) := by
  have hhas : ∀ s ∈ suites, ∀ c ∈ s.cases, ∀ step ∈ c.allSteps,
      (pagesOf pages).Has step.page := by
    intro s hs c hc step hstep id hid
    exact has_pagesOf (hpages id ⟨s, hs, c, hc, step, hstep, hid⟩) id rfl
  have hobjects := checks_collect fun p hp => checks_pageArtifact style (hvalid p hp)
  have htests := checks_collect fun s hs => checks_testArtifact style (hhas s hs)
  have hwhole := (Configuration.checks_merged (suites.map Suite.configuration ++ [overrides])).bind
    fun c _ => hobjects.bind fun objects ho => htests.bind fun tests ht =>
      (checks_distinct (objects ++ tests ++ supportArtifacts style c)).congr
        (paths_of_parts c ho ht ▸ paths_nodup_iff pages suites)
  refine hwhole.congr ⟨?_, ?_⟩
  · rintro ⟨hsettings, hp, hs, hpageStems, hsuiteStems⟩
    exact ⟨hsettings, fun p h => (hp p h).1, fun p h => (hp p h).2, fun s h => (hs s h).1,
      fun s h => (hs s h).2, hpageStems, hsuiteStems⟩
  · rintro ⟨hsettings, hnames, haccessors, hsuites, hsteps, hpageStems, hsuiteStems⟩
    exact ⟨hsettings, fun p h => ⟨hnames p h, haccessors p h⟩,
      fun s h => ⟨hsuites s h, hsteps s h⟩, hpageStems, hsuiteStems⟩

end Rehearsal.Plan
