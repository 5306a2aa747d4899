import Mathlib
import Rehearsal.Proofs.Generation
import Rehearsal.Proofs.Source.Nesting
import Rehearsal.Report.Result

/-!
# Which case an outcome is credited to

The runner puts the tests of a file into a group that is titled like the file, and in it into the
groups of the blocks they stand in.  The index looks at the titles of all these groups, the
outermost first, and the title of the file is one of them.

* `lookup?_ofSuites`: what the index knows, in the order in which it was filled: **the first suite
  of the name that has a case of the title**, and of its cases the first.
* `resolve_of_path`: the titles are asked in order, and the first that answers decides.
* `resolve_registered`: an outcome is credited to the case whose test it is, **unless some suite is
  named like the file** and has a case of the same title; then it is credited to that one.
-/

namespace Rehearsal.CaseIndex

/-! ## What the index knows -/

/-- The case of a suite that has a title, if the suite has the name. -/
def ownCase? (s : Suite) (name title : String) : Option Uuid :=
  if s.name = name then (s.cases.find? fun c => c.name == title).map Case.id else none

lemma lookup?_append (index more : CaseIndex) (name title : String) :
    lookup? (index ++ more) name title
      = (lookup? index name title).or (lookup? more name title) := by
  rw [lookup?, List.find?_append]
  cases h : List.find? (fun e => e.1 == (name, title)) index <;> simp [lookup?, h]

/-- A case that is added answers to its own names, if nothing did before. -/
lemma lookup?_add (index : CaseIndex) (suite : String) (c : Case) (name title : String) :
    lookup? (add index suite c) name title
      = (lookup? index name title).or
          (if suite = name ∧ c.name = title then some c.id else none) := by
  rw [add]
  split
  · next found h =>
      split_ifs with hnames
      · obtain ⟨rfl, rfl⟩ := hnames
        rw [h]
        rfl
      · rw [Option.or_none]
  · rw [lookup?_append]
    congr 1
    rw [lookup?, List.find?_cons]
    by_cases hnames : suite = name ∧ c.name = title
    · simp [hnames]
    · have hne : ((suite, c.name) == (name, title)) = false := by
        rw [beq_eq_false_iff_ne, ne_eq, Prod.mk.injEq]
        exact hnames
      simp [hne, hnames]

lemma lookup?_addSuite (index : CaseIndex) (s : Suite) (name title : String) :
    lookup? (addSuite index s) name title
      = (lookup? index name title).or (ownCase? s name title) := by
  rw [addSuite, ownCase?]
  generalize s.cases = cs
  induction cs generalizing index with
  | nil => simp
  | cons c cs ih =>
      rw [List.foldl_cons, ih, lookup?_add, Option.or_assoc]
      congr 1
      by_cases hname : s.name = name
      · by_cases htitle : c.name = title <;> simp [hname, htitle]
      · simp [hname]

/-- **The first suite of the name that has a case of the title decides.** -/
lemma lookup?_ofSuites (suites : List Suite) (name title : String) :
    lookup? (ofSuites suites) name title
      = suites.findSome? fun s => ownCase? s name title := by
  have hfold : ∀ index : CaseIndex, lookup? (suites.foldl addSuite index) name title
      = (lookup? index name title).or (suites.findSome? fun s => ownCase? s name title) := by
    induction suites with
    | nil => intro index; simp
    | cons s suites ih =>
        intro index
        rw [List.foldl_cons, ih, lookup?_addSuite, Option.or_assoc, List.findSome?_cons]
        cases ownCase? s name title <;> rfl
  exact hfold []

/-! ## Names that occur once -/

/-- Of things whose keys differ, the key finds the thing. -/
lemma find?_of_nodup {α : Type} {key : α → String} {as : List α} (h : (as.map key).Nodup) {a : α}
    (ha : a ∈ as) : (as.find? fun b => key b == key a) = some a := by
  induction as with
  | nil => cases ha
  | cons b as ih =>
      rw [List.map_cons, List.nodup_cons] at h
      rcases List.mem_cons.mp ha with rfl | ha
      · simp
      · have hne : key b ≠ key a := fun hkey => h.1 (hkey ▸ List.mem_map_of_mem ha)
        rw [List.find?_cons_of_neg (by simpa using hne), ih h.2 ha]

lemma ownCase?_of_mem {s : Suite} (h : (s.cases.map Case.name).Nodup) {c : Case}
    (hc : c ∈ s.cases) : ownCase? s s.name c.name = some c.id := by
  rw [ownCase?, if_pos rfl, find?_of_nodup h hc]
  rfl

/-- Where the names are different, every case is found under its own. -/
lemma lookup?_of_mem {suites : List Suite} (hsuites : (suites.map Suite.name).Nodup)
    (hcases : ∀ s ∈ suites, (s.cases.map Case.name).Nodup) {s : Suite} (hs : s ∈ suites) {c : Case}
    (hc : c ∈ s.cases) : lookup? (ofSuites suites) s.name c.name = some c.id := by
  rw [lookup?_ofSuites]
  induction suites with
  | nil => cases hs
  | cons t suites ih =>
      rw [List.map_cons, List.nodup_cons] at hsuites
      rw [List.findSome?_cons]
      rcases List.mem_cons.mp hs with rfl | hs
      · rw [ownCase?_of_mem (hcases s (List.mem_cons_self ..)) hc]
      · have hne : t.name ≠ s.name := fun hname => hsuites.1 (hname ▸ List.mem_map_of_mem hs)
        rw [ownCase?, if_neg hne]
        exact ih hsuites.2 (fun u hu => hcases u (List.mem_cons_of_mem _ hu)) hs

/-- Names that no case has find nothing. -/
lemma lookup?_eq_none {suites : List Suite} {name title : String}
    (h : ∀ s ∈ suites, s.name = name → ∀ c ∈ s.cases, c.name ≠ title) :
    lookup? (ofSuites suites) name title = none := by
  rw [lookup?_ofSuites, List.findSome?_eq_none_iff]
  intro s hs
  rw [ownCase?]
  split_ifs with hname
  · simpa using h s hs hname
  · rfl

/-- Suites with different stems have different names. -/
lemma names_nodup {suites : List Suite}
    (h : (suites.map fun s => Text.fileStem s.name).Nodup) : (suites.map Suite.name).Nodup := by
  have hmap : (suites.map fun s => Text.fileStem s.name)
      = (suites.map Suite.name).map Text.fileStem := by
    rw [List.map_map]
    rfl
  rw [hmap] at h
  exact h.of_map

/-! ## What is reported -/

/-- What stands behind the last slash of a path. -/
def fileName (path : String) : String :=
  String.ofList ((Path.pieces path.toList).getLast?.getD [])

/-- The name of a test file is the stem of its suite with an ending. -/
lemma fileName_of_testPath {s : Suite} {path : String} (h : Plan.testPath s = .ok path) :
    fileName path = Text.fileStem s.name ++ ".spec.ts" := by
  obtain ⟨stem, hstem, rfl⟩ := map_eq_ok_iff.mp h
  rw [Plan.stem_eq_ok hstem]
  have htext : ("tests/" ++ Text.fileStem s.name ++ ".spec.ts").toList
      = "tests".toList ++ '/' :: ((Text.fileStem s.name).toList ++ ".spec.ts".toList) := by
    simp only [String.toList_append, List.append_assoc]
    rfl
  have hlast : '/' ∉ (Text.fileStem s.name).toList ++ ".spec.ts".toList := by
    rw [List.mem_append, not_or]
    exact ⟨Text.slash_notMem_fileStem s.name, by decide⟩
  rw [fileName, htext, Path.pieces_append (by decide), Path.pieces_of_notMem hlast]
  apply String.toList_inj.mp
  simp

/-- The titles around an outcome are asked one after the other. -/
lemma resolve_of_path {index : CaseIndex} {o : Outcome} {file suite case : String}
    (h : o.path = [file, suite, case]) :
    resolve index o = ((lookup? index file o.title).or (lookup? index suite o.title)).or
      (lookup? index case o.title) := by
  rw [resolve, h]
  simp only [List.findSome?_cons, List.findSome?_nil]
  cases lookup? index file o.title with
  | some id => rfl
  | none =>
      cases lookup? index suite o.title with
      | some id => rfl
      | none => cases lookup? index case o.title <;> rfl

/-- **An outcome is credited to the case whose test it is, unless a suite is named like the
file.**  The file of a suite registers one test for each case, in the blocks of the suite and of
the case, and the runner reports it with these titles below that of the file.  If some suite is
named like the file and has a case of the same title, that case is taken, whatever test the
outcome is of; if none is, the case is the right one. -/
theorem resolve_registered {suites : List Suite}
    (hstems : (suites.map fun s => Text.fileStem s.name).Nodup)
    (hcases : ∀ s ∈ suites, (s.cases.map Case.name).Nodup) {S : Suite} (hS : S ∈ suites)
    {path : String} (hpath : Plan.testPath S = .ok path) :
    (∀ pages file, Source.testFile .standard pages S = .ok file →
      Source.Registers file (S.cases.map fun C => ([S.name, C.name], C.name))) ∧
    ∀ C ∈ S.cases, ∀ o : Outcome, o.path = fileName path :: [S.name, C.name] →
      o.title = C.name →
      (∀ T ∈ suites, T.name = Text.fileStem S.name ++ ".spec.ts" → ∀ D ∈ T.cases,
        D.name = C.name → (ofSuites suites).resolve o = some D.id) ∧
      ((∀ T ∈ suites, T.name = Text.fileStem S.name ++ ".spec.ts" → ∀ D ∈ T.cases,
        D.name ≠ C.name) → (ofSuites suites).resolve o = some C.id) := by
  have hnames := names_nodup hstems
  refine ⟨fun _ _ => Source.registers_testFile, fun C hC o ho htitle => ?_⟩
  rw [fileName_of_testPath hpath] at ho
  rw [resolve_of_path ho, htitle]
  constructor
  · intro T hT hfile D hD hname
    rw [← hfile, ← hname, lookup?_of_mem hnames hcases hT hD]
    rfl
  · intro hfree
    rw [lookup?_eq_none hfree, lookup?_of_mem hnames hcases hS hC]
    rfl

/-- Two suites, the first of which is named like the file of the second. -/
def namesakes : List Suite :=
  [.make ⟨1⟩ ⟨9⟩ "b.spec.ts" [.make ⟨3⟩ "x" []], .make ⟨2⟩ ⟨9⟩ "b" [.make ⟨4⟩ "x" []]]

/-- What is reported for the case of the second of them. -/
def secondOutcome : Outcome := ⟨["b.spec.ts", "b", "x"], "x", .passed, none, none, none, none, none⟩

/-- The outcome of the second suite's case is credited to the first suite's. -/
theorem resolve_registered_namesakes :
    (namesakes.map fun s => Text.fileStem s.name).Nodup ∧
    Plan.testPath (.make ⟨2⟩ ⟨9⟩ "b" [.make ⟨4⟩ "x" []]) = .ok "tests/b.spec.ts" ∧
    (ofSuites namesakes).resolve secondOutcome = some ⟨3⟩ := by
  have hstems : (namesakes.map fun s => Text.fileStem s.name).Nodup := by
    decide +kernel
  have hcases : ∀ s ∈ namesakes, (s.cases.map Case.name).Nodup := by
    decide +kernel
  have hpath : Plan.testPath (.make ⟨2⟩ ⟨9⟩ "b" [.make ⟨4⟩ "x" []]) = .ok "tests/b.spec.ts" := by
    rfl
  have hresolve := (resolve_registered hstems hcases
    (List.mem_cons_of_mem _ (List.mem_singleton.mpr rfl)) hpath).2 _ (List.mem_singleton.mpr rfl)
    secondOutcome (by decide +kernel) rfl
  exact ⟨hstems, hpath, hresolve.1 _ (List.mem_cons_self ..) (by decide +kernel) _
    (List.mem_singleton.mpr rfl) rfl⟩

/-- So it is not always the right case. -/
theorem not_credited_to_own_case :
    ¬ ∀ suites : List Suite, (suites.map fun s => Text.fileStem s.name).Nodup →
      (∀ s ∈ suites, (s.cases.map Case.name).Nodup) →
      ∀ S ∈ suites, ∀ path, Plan.testPath S = .ok path → ∀ C ∈ S.cases, ∀ o : Outcome,
        o.path = fileName path :: [S.name, C.name] → o.title = C.name →
        (ofSuites suites).resolve o = some C.id := by
  intro hall
  have hwrong := hall namesakes (by decide +kernel) (by decide +kernel) _
    (List.mem_cons_of_mem _ (List.mem_singleton.mpr rfl)) "tests/b.spec.ts" rfl _
    (List.mem_singleton.mpr rfl) secondOutcome (by decide +kernel) rfl
  have hfirst : (ofSuites namesakes).resolve secondOutcome = some ⟨3⟩ := by
    decide +kernel
  rw [hfirst] at hwrong
  exact absurd hwrong (by decide +kernel)

end Rehearsal.CaseIndex
