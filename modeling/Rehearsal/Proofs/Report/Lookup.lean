import Mathlib
import Rehearsal.Proofs.Fallible
import Rehearsal.Proofs.Report.Credit

/-!
# Crediting is a plain search

The index is filled once and asked for every outcome.  What it answers can be said without it, by
looking through the cases of the suites one after the other.

* `registered`: all cases in the order of the suites.
* `FirstNamed`: **the first case of the title in a suite of the name**, in that order.
* `credit_by_search`: an outcome goes to the case that its outermost title finds, of those titles
  that find one; the outcomes without such a title are dropped, and no others.
-/

namespace Rehearsal.CaseIndex

/-! ## Searching for a case -/

/-- All cases, each with the name of its suite: suite after suite, and in a suite case after
case. -/
def registered (suites : List Suite) : List (String × Case) :=
  suites.flatMap fun s => s.cases.map fun c => (s.name, c)

/-- A suite of the name has a case of the title. -/
def Known (suites : List Suite) (name title : String) : Prop :=
  ∃ s ∈ suites, s.name = name ∧ ∃ c ∈ s.cases, c.name = title

/-- The first case of the title in a suite of the name has the identifier. -/
def FirstNamed (suites : List Suite) (name title : String) (id : Uuid) : Prop :=
  First (fun p => ¬(p.1 = name ∧ p.2.name = title))
    (fun p => (p.1 = name ∧ p.2.name = title) ∧ p.2.id = id) (registered suites)

/-- Some title around the outcome is the name of a suite with a case of the outcome's title. -/
def Belongs (suites : List Suite) (o : Outcome) : Prop := ∃ t ∈ o.path, Known suites t o.title

instance (suites : List Suite) (name title : String) : Decidable (Known suites name title) :=
  inferInstanceAs (Decidable (∃ s ∈ suites, s.name = name ∧ ∃ c ∈ s.cases, c.name = title))

instance (suites : List Suite) (o : Outcome) : Decidable (Belongs suites o) :=
  inferInstanceAs (Decidable (∃ t ∈ o.path, Known suites t o.title))

variable {suites : List Suite} {name title : String} {id : Uuid} {o : Outcome}

/-- A suite is searched as its part of all cases. -/
lemma ownCase?_eq_find? (s : Suite) (name title : String) :
    ownCase? s name title
      = ((s.cases.map fun c => (s.name, c)).find? fun p => p.1 = name ∧ p.2.name = title).map
          fun p => p.2.id := by
  rw [ownCase?, List.find?_map, Option.map_map]
  by_cases hname : s.name = name
  · simp [hname, Function.comp_def, BEq.beq]
  · simp [hname, Function.comp_def]

/-- **The index answers like a search through all cases.** -/
lemma lookup?_eq_find? (suites : List Suite) (name title : String) :
    lookup? (ofSuites suites) name title
      = ((registered suites).find? fun p => p.1 = name ∧ p.2.name = title).map
          fun p => p.2.id := by
  rw [lookup?_ofSuites, registered, List.find?_flatMap, List.map_findSome?]
  congr 1
  funext s
  exact ownCase?_eq_find? s name title

lemma lookup?_eq_some_iff :
    lookup? (ofSuites suites) name title = some id ↔ FirstNamed suites name title id := by
  rw [lookup?_eq_find?, Option.map_eq_some_iff]
  simp only [List.find?_eq_some_iff_append, decide_eq_true_eq, Bool.not_eq_eq_eq_not,
    Bool.not_true, decide_eq_false_iff_not]
  constructor
  · rintro ⟨p, ⟨hp, before, after, hcases, hbefore⟩, hid⟩
    exact ⟨before, p, after, hcases, hbefore, hp, hid⟩
  · rintro ⟨before, p, after, hcases, hbefore, hp, hid⟩
    exact ⟨p, ⟨hp, before, after, hcases, hbefore⟩, hid⟩

lemma lookup?_eq_none_iff :
    lookup? (ofSuites suites) name title = none ↔ ¬Known suites name title := by
  rw [lookup?_eq_find?, Option.map_eq_none_iff, List.find?_eq_none]
  simp only [registered, Known, List.mem_flatMap, List.mem_map, decide_eq_true_eq]
  constructor
  · rintro h ⟨s, hs, hname, c, hc, htitle⟩
    exact h (s.name, c) ⟨s, hs, c, hc, rfl⟩ ⟨hname, htitle⟩
  · rintro h _ ⟨s, hs, c, hc, rfl⟩ ⟨hname, htitle⟩
    exact h ⟨s, hs, hname, c, hc, htitle⟩

/-! ## Crediting outcomes -/

/-- The outermost title that finds a case decides. -/
lemma resolve_eq_some_iff : resolve (ofSuites suites) o = some id
    ↔ First (fun t => ¬Known suites t o.title) (FirstNamed suites · o.title id) o.path := by
  rw [resolve, findSome?_eq_some_iff_first]
  exact first_congr (fun t _ => lookup?_eq_none_iff) fun t _ => lookup?_eq_some_iff

lemma exists_resolve_iff :
    (∃ id, resolve (ofSuites suites) o = some id) ↔ Belongs suites o := by
  rw [← Option.ne_none_iff_exists', resolve, ne_eq, List.findSome?_eq_none_iff, Belongs]
  simp only [lookup?_eq_none_iff, not_forall, not_not, exists_prop]

/-- Things that are looked up, those kept for which something is found. -/
lemma forall₂_filterMap {α β : Type} {f : α → Option β} {p : α → Bool}
    (h : ∀ a, p a = true ↔ ∃ b, f a = some b) (as : List α) :
    List.Forall₂ (fun q a => q.2 = a ∧ f a = some q.1)
      (as.filterMap fun a => (f a).map fun b => (b, a)) (as.filter p) := by
  induction as with
  | nil => exact .nil
  | cons a as ih =>
      by_cases ha : p a
      · obtain ⟨b, hb⟩ := (h a).mp ha
        rw [List.filter_cons_of_pos ha, List.filterMap_cons_some (by rw [hb]; rfl)]
        exact .cons ⟨rfl, hb⟩ ih
      · have hnone : f a = none := by
          rw [Option.eq_none_iff_forall_ne_some]
          exact fun b hb => ha ((h a).mpr ⟨b, hb⟩)
        rw [List.filter_cons_of_neg ha, List.filterMap_cons_none (by rw [hnone]; rfl)]
        exact ih

/-- **Crediting is a plain search.**

* An outcome has a case just when a title around it is the name of a suite with a case of its own
  title.
* It is then the first such case in the order of the suites, for the outermost such title.
* Of the outcomes of a run, those with a case are kept, in their order, each with its case, and
  the others are dropped. -/
theorem credit_by_search (suites : List Suite) (run : ParsedRun) :
    (∀ o, (∃ id, (ofSuites suites).resolve o = some id)
        ↔ ∃ t ∈ o.path, ∃ s ∈ suites, s.name = t ∧ ∃ c ∈ s.cases, c.name = o.title)
      ∧ (∀ o id, (ofSuites suites).resolve o = some id
        ↔ First (fun t => ¬Known suites t o.title) (FirstNamed suites · o.title id) o.path)
      ∧ List.Forall₂ (fun p o => p.2 = o ∧ (ofSuites suites).resolve o = some p.1)
          ((ofSuites suites).credit run.outcomes) (run.outcomes.filter (Belongs suites ·)) := by
  refine ⟨fun o => exists_resolve_iff, fun o id => resolve_eq_some_iff, ?_⟩
  exact forall₂_filterMap (fun o => by rw [decide_eq_true_eq, exists_resolve_iff]) run.outcomes

/-- A suite of the right name without the case leaves it to another one of that name. -/
example : (ofSuites [.make ⟨1⟩ ⟨9⟩ "a" [.make ⟨3⟩ "x" []],
      .make ⟨2⟩ ⟨9⟩ "a" [.make ⟨4⟩ "y" []]]).resolve
    ⟨["f", "a", "a"], "y", .passed, none, none, none, none, none⟩ = some ⟨4⟩ := by
  decide +kernel

end Rehearsal.CaseIndex
