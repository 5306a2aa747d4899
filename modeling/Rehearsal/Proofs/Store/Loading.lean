import Mathlib
import Rehearsal.Proofs.Store

/-!
# What loading a bundle comes to

A bundle is taken page by page, then suite by suite, then project by project, and of things with one
identifier the last one stays.  Pages are checked on the way.

* `lastUnder`: the last of the things with a key.
* `Table.get?_putAll`: what is found after things were put one after the other, be they pages,
  suites or projects: **the last one with that key, or what was there before**.
* `Catalog.putPages_append`: valid pages are taken, whatever stands behind them.  So loading comes
  to one of two ends (`Catalog.load_of_valid`, `Catalog.load_of_invalid`).
* `Store.load_comes_to`: the two ends, and the pages that any store holds.
-/

namespace Rehearsal

/-! ## The last one counts -/

section last

variable {κ α : Type} [DecidableEq κ]

/-- The last of the things with a key. -/
def lastUnder (key : α → κ) (as : List α) (k : κ) : Option α :=
  (as.filter fun a => key a = k).getLast?

lemma lastUnder_cons (key : α → κ) (a : α) (as : List α) (k : κ) :
    lastUnder key (a :: as) k = (lastUnder key as k).or (if k = key a then some a else none) := by
  rw [lastUnder, lastUnder]
  by_cases ha : key a = k
  · rw [List.filter_cons_of_pos (by simpa using ha), List.getLast?_cons, if_pos ha.symm]
    cases (as.filter fun a => key a = k).getLast? <;> rfl
  · rw [List.filter_cons_of_neg (by simpa using ha), if_neg (Ne.symm ha), Option.or_none]

/-- **The last one put under a key is found there**, and what was there before if there is none. -/
lemma Table.get?_putAll (key : α → κ) (t : Table κ α) (as : List α) (k : κ) :
    (t.putAll key as).get? k = (lastUnder key as k).or (t.get? k) := by
  induction as generalizing t with
  | nil => rfl
  | cons a as ih =>
      have hrest : (t.putAll key (a :: as)).get? k
          = (lastUnder key as k).or ((t.put (key a) a).get? k) := ih _
      rw [hrest, lastUnder_cons, Option.or_assoc, get?_put]
      split_ifs <;> rfl

end last

/-! ## Bundles -/

namespace Catalog

/-- With pages put in order, whether they are valid or not. -/
def withPages (c : Catalog) (ps : List Page) : Catalog :=
  { c with pages := c.pages.putAll Page.id ps }

variable [Libraries] {c : Catalog} {b : Bundle}

lemma putPage_of_valid {p : Page} (h : p.validate = .ok ()) :
    c.putPage p = .ok (c.withPages [p]) := by
  rw [putPage, h]
  rfl

lemma putPage_of_invalid {p : Page} {e : Error} (h : p.validate = .error e) :
    c.putPage p = .error e := by
  rw [putPage, h]
  rfl

/-- Valid pages are taken, and then the others. -/
lemma putPages_append {before : List Page} (h : ∀ p ∈ before, p.validate = .ok ())
    (ps : List Page) : c.putPages (before ++ ps) = (c.withPages before).putPages ps := by
  induction before generalizing c with
  | nil => rfl
  | cons p before ih =>
      obtain ⟨hp, hbefore⟩ := List.forall_mem_cons.mp h
      rw [List.cons_append, putPages, putPage_of_valid hp]
      exact ih hbefore

/-- **A bundle of valid pages is taken whole.** -/
lemma load_of_valid (h : ∀ p ∈ b.pages, p.validate = .ok ()) :
    c.load b = ({
      pages := c.pages.putAll Page.id b.pages
      suites := c.suites.putAll Suite.id b.suites
      projects := c.projects.putAll Project.id b.projects }, .ok ()) := by
  have hpages := putPages_append (c := c) h []
  rw [List.append_nil, putPages] at hpages
  simp only [load, hpages, foldl_putSuite, foldl_putProject, withPages]

/-- **Otherwise the pages before the first fault are taken, and nothing else.** -/
lemma load_of_invalid {before after : List Page} {p : Page} {e : Error}
    (hpages : b.pages = before ++ p :: after) (hbefore : ∀ q ∈ before, q.validate = .ok ())
    (hp : p.validate = .error e) : c.load b = (c.withPages before, .error e) := by
  have htaken : c.putPages b.pages = (c.withPages before, .error e) := by
    rw [hpages, putPages_append hbefore, putPages, putPage_of_invalid hp]
  simp only [load, htaken]

/-- The fault of the first page that is not valid. -/
def FirstFault (ps : List Page) (e : Error) : Prop :=
  First (fun p => p.validate = .ok ()) (fun p => p.validate = .error e) ps

lemma exists_firstFault_iff {ps : List Page} :
    (∃ e, FirstFault ps e) ↔ ∃ p ∈ ps, p.validate ≠ .ok () := by
  have hfault : ∀ p ∈ ps, (∃ e, p.validate = .error e) ↔ ¬p.validate = .ok () :=
    fun _ _ => exists_error_iff ⟨fun ⟨_, h⟩ => h, fun h => ⟨(), h⟩⟩
  refine (exists_first_iff hfault).trans ?_
  push Not
  rfl

/-- **What is reported is the first fault.** -/
lemma load_eq_error_iff {e : Error} : (c.load b).2 = .error e ↔ FirstFault b.pages e := by
  constructor
  · intro h
    by_cases hvalid : ∀ p ∈ b.pages, p.validate = .ok ()
    · rw [load_of_valid hvalid] at h
      cases h
    · push Not at hvalid
      obtain ⟨d, hd⟩ := exists_firstFault_iff.mpr hvalid
      obtain ⟨before, p, after, hpages, hbefore, hp⟩ := id hd
      rw [load_of_invalid hpages hbefore hp] at h
      cases h
      exact hd
  · rintro ⟨before, p, after, hpages, hbefore, hp⟩
    rw [load_of_invalid hpages hbefore hp]

/-- Loading succeeds only if all pages are valid. -/
lemma valid_of_load (h : (c.load b).2 = .ok ()) : ∀ p ∈ b.pages, p.validate = .ok () := by
  by_contra hinvalid
  push Not at hinvalid
  obtain ⟨e, he⟩ := exists_firstFault_iff.mpr hinvalid
  rw [load_eq_error_iff.mpr he] at h
  cases h

end Catalog

namespace Store

/-- **What loading a bundle comes to.**  It fails just when a page is not valid, with the fault of
the first such page; then the pages before it were put in order and nothing else was done.
Otherwise every identifier in the bundle has the last thing there that has it, and all else is as it
was.  So in every store that comes of calls, pages are valid and stand under their own
identifiers. -/
theorem load_comes_to [Libraries] (s : Store) (now : Instant) (b : Bundle)
    (calls : List (Instant × Call)) :
    let t := s.call now (.load b)
    ((∃ e, t.2 = .error e) ↔ ∃ p ∈ b.pages, p.validate ≠ .ok ())
      ∧ (∀ e, t.2 = .error e ↔ Catalog.FirstFault b.pages e)
      ∧ (∀ before p after, b.pages = before ++ p :: after → (∀ q ∈ before, q.validate = .ok ()) →
        p.validate ≠ .ok () → t.1 = { s with catalog := s.catalog.withPages before })
      ∧ (t.2 = .ok () →
        (∀ id, t.1.catalog.page? id = (lastUnder Page.id b.pages id).or (s.catalog.page? id))
          ∧ (∀ id, t.1.catalog.suite? id
            = (lastUnder Suite.id b.suites id).or (s.catalog.suite? id))
          ∧ (∀ id, t.1.catalog.project? id
            = (lastUnder Project.id b.projects id).or (s.catalog.project? id))
          ∧ t.1.logbook = s.logbook)
      ∧ ∀ id p, (Store.empty.callAll calls).catalog.page? id = some p →
        p.id = id ∧ p.validate = .ok () := by
  have hfault : ∀ e, (s.call now (.load b)).2 = .error e ↔ Catalog.FirstFault b.pages e :=
    fun _ => Catalog.load_eq_error_iff
  refine ⟨?_, hfault, ?_, fun hok => ?_, Reachable.catalog_sound ⟨calls, rfl⟩⟩
  · simp only [hfault]
    exact Catalog.exists_firstFault_iff
  · intro before p after hpages hbefore hp
    cases hinvalid : p.validate with
    | ok _ => exact absurd hinvalid hp
    | error e => rw [call, Catalog.load_of_invalid hpages hbefore hinvalid]
  · rw [call, Catalog.load_of_valid (Catalog.valid_of_load hok)]
    exact ⟨fun _ => Table.get?_putAll .., fun _ => Table.get?_putAll ..,
      fun _ => Table.get?_putAll .., rfl⟩

end Store

end Rehearsal
