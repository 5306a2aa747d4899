import Mathlib
import Rehearsal.Statistics
import Rehearsal.Proofs.Store.History

/-!
# Listings

A table gives out its records in an order of its own, which depends on what was done to it and
when.  A listing does not: it is filtered and sorted by identifiers, and no two records have the
same one.

* `Logbook.Labelled`: records stand under their own identifiers.  So they do in **every store**
  (`Store.Reachable.labelled`).
* `Logbook.Lists`: what the listing of a filter is, by its members and by their order.  There is
  **at most one** (`Logbook.Lists.unique`), and sorting makes it out of **any order** of the
  records (`Logbook.Labelled.lists`).
* `Logbook.Lists.length_filter`: a count in the listing is a number of records.
* `Store.list_independent_of_order`: listings and their statistics are **the same for the same
  records**, and what they ought to be.
-/

namespace Rehearsal

/-- The identifier of the one is less than that of the other. -/
def Execution.Precedes (d e : Execution) : Prop := d.id.number < e.id.number

instance : Std.Irrefl Execution.Precedes := ⟨fun e => BitVec.lt_irrefl e.id.number⟩

instance : Std.Antisymm Execution.Precedes :=
  ⟨fun _ _ h h' => absurd (BitVec.lt_trans h h') (BitVec.lt_irrefl _)⟩

open Execution (Precedes)

namespace Logbook

variable {l m : Logbook} {f : Filter} {es : List Execution}

/-! ## The order -/

lemma before_iff {d e : Execution} : before d e = true ↔ d.id.number ≤ e.id.number := by
  rw [before, Uuid.le, decide_eq_true_iff]

/-- Sorted records with different identifiers are strictly sorted. -/
lemma pairwise_precedes_mergeSort (h : (es.map Execution.id).Nodup) :
    (es.mergeSort before).Pairwise Precedes := by
  have hsorted : (es.mergeSort before).Pairwise fun d e => before d e = true := by
    refine List.pairwise_mergeSort (fun a b c hab hbc => ?_) (fun a b => ?_) es
    · exact before_iff.mpr (BitVec.le_trans (before_iff.mp hab) (before_iff.mp hbc))
    · rw [Bool.or_eq_true, before_iff, before_iff]
      exact BitVec.le_total _ _
  have hdistinct : (es.mergeSort before).Pairwise fun d e => d.id ≠ e.id :=
    List.pairwise_map.mp (((es.mergeSort_perm before).map Execution.id).nodup_iff.mpr h)
  refine List.Pairwise.imp₂ (fun d e hle hne => ?_) hsorted hdistinct
  exact BitVec.lt_of_le_ne (before_iff.mp hle) fun hid => hne (congrArg Uuid.mk hid)

/-! ## Records and their identifiers -/

/-- Records stand under their own identifiers. -/
def Labelled (l : Logbook) : Prop := ∀ id e, l.record? id = some e → e.id = id

/-- The identifiers of the records are the keys of the table. -/
lemma Labelled.nodup_ids (hl : l.Labelled) : (l.records.values.map Execution.id).Nodup := by
  have hkeys : l.records.values.map Execution.id = l.records.keys := by
    rw [Table.values, Table.keys, List.map_map]
    exact List.map_congr_left fun x hx => hl x.1 x.2 (Table.get?_eq_some_iff.mpr hx)
  rw [hkeys]
  exact l.records.distinct

/-- The records that a filter holds of. -/
def matching (l : Logbook) (f : Filter) : Set Execution :=
  {e | (∃ id, l.record? id = some e) ∧ f.holds e = true}

/-- The same records match in logbooks that hold the same. -/
lemma matching_congr (h : ∀ id, l.record? id = m.record? id) (f : Filter) :
    l.matching f = m.matching f := by
  simp only [matching, h]

/-- The listing made out of the records as they come, which is `Logbook.list` if they come as the
table has them. -/
def arranged (order : List Execution) (f : Filter) : List Execution :=
  (order.filter f.holds).mergeSort before

/-! ## The listing -/

/-- The listing of a filter: what matches, in the order of the identifiers. -/
structure Lists (l : Logbook) (f : Filter) (es : List Execution) : Prop where
  mem : ∀ e, e ∈ es ↔ e ∈ l.matching f
  ascending : es.Pairwise Precedes

/-- **Whatever order the records come in, the listing is made out of them.** -/
lemma Labelled.lists (hl : l.Labelled) {order : List Execution}
    (horder : order.Perm l.records.values) (f : Filter) : l.Lists f (arranged order f) where
  mem e := by
    rw [arranged, List.mem_mergeSort, List.mem_filter, horder.mem_iff, Table.mem_values_iff]
    rfl
  ascending := by
    have hnodup : (order.map Execution.id).Nodup :=
      (horder.map Execution.id).nodup_iff.mpr hl.nodup_ids
    exact pairwise_precedes_mergeSort (hnodup.sublist (List.filter_sublist.map _))

namespace Lists

/-- **There is at most one listing.** -/
lemma unique {ds : List Execution} (hd : l.Lists f ds) (he : l.Lists f es) : ds = es :=
  hd.ascending.eq_of_mem_iff he.ascending fun e => (hd.mem e).trans (he.mem e).symm

/-- It is the listing of every logbook that holds the same. -/
lemma congr (he : l.Lists f es) (h : ∀ id, l.record? id = m.record? id) : m.Lists f es :=
  ⟨matching_congr h f ▸ he.mem, he.ascending⟩

/-- Counting in the listing is counting records: none is listed twice. -/
lemma length_filter (he : l.Lists f es) (P : Execution → Bool) :
    (es.filter P).length = {e ∈ l.matching f | P e = true}.ncard := by
  classical
  have hset : {e ∈ l.matching f | P e = true} = ((es.filter P).toFinset : Set Execution) := by
    ext e
    simp only [List.coe_toFinset, Set.mem_ofPred_eq, List.mem_filter, he.mem]
  rw [hset, Set.ncard_coe_finset, List.toFinset_card_of_nodup (he.ascending.nodup.filter P)]

lemma length (he : l.Lists f es) : es.length = (l.matching f).ncard := by
  simpa using he.length_filter fun _ => true

lemma countIn (he : l.Lists f es) (status : Status) :
    Statistics.countIn status es = {e ∈ l.matching f | e.status = status}.ncard := by
  rw [Statistics.countIn, List.countP_eq_length_filter, he.length_filter]
  simp only [beq_iff_eq]

/-- If identifiers were given out in the order of creation, the oldest come first. -/
lemma oldest_first (he : l.Lists f es)
    (hage : ∀ d ∈ l.matching f, ∀ e ∈ l.matching f, d.Precedes e →
      d.createdAt.le e.createdAt = true) :
    es.Pairwise fun d e => d.createdAt.le e.createdAt = true :=
  he.ascending.imp_of_mem fun hd he' => hage _ ((he.mem _).mp hd) _ ((he.mem _).mp he')

end Lists

end Logbook

open Logbook History

/-! ## Stores -/

/-- What is recalled under an identifier was created under it. -/
lemma History.id_of_recalled {h : History} {id : Uuid} {e : Execution}
    (he : h.recalled id = some e) : e.id = id := by
  obtain ⟨d, hcreated, rfl⟩ := Option.map_eq_some_iff.mp he
  obtain ⟨⟨t, c⟩, -, hc⟩ := List.exists_of_findSome?_eq_some hcreated
  cases c with
  | create d' =>
      obtain ⟨hid, hd⟩ := Option.ite_none_right_eq_some.mp hc
      cases hd
      exact hid
  | _ => cases hc

namespace Store

variable {s t : Store}

lemma Reachable.labelled [Libraries] (hs : s.Reachable) : s.logbook.Labelled := by
  obtain ⟨calls, rfl⟩ := hs
  intro id e he
  rw [(Recalls.empty.callAll calls).record] at he
  exact id_of_recalled he

/-- **Listings and statistics depend on the records alone.**  Two stores that hold the same records
list the same, whatever calls have led to them and in whatever order the records are found: each
record that the filter holds of once, by ascending identifiers. -/
theorem list_independent_of_order [Libraries] (hs : s.Reachable) (ht : t.Reachable)
    (hrecords : ∀ id, s.logbook.record? id = t.logbook.record? id) (f : Filter) :
    let es := s.logbook.list f
    let stats := Statistics.ofExecutions es
    t.logbook.list f = es
      ∧ Statistics.ofExecutions (t.logbook.list f) = stats
      ∧ (∀ order, order.Perm s.logbook.records.values ∨ order.Perm t.logbook.records.values →
          arranged order f = es)
      ∧ (∀ e, e ∈ es ↔ (∃ id, s.logbook.record? id = some e) ∧ f.holds e = true)
      ∧ es.Pairwise (fun d e => d.id.number < e.id.number)
      ∧ ((∀ d ∈ s.logbook.matching f, ∀ e ∈ s.logbook.matching f, d.id.number < e.id.number →
            d.createdAt.le e.createdAt = true) →
          es.Pairwise fun d e => d.createdAt.le e.createdAt = true)
      ∧ stats.total = (s.logbook.matching f).ncard
      ∧ stats.passed = {e ∈ s.logbook.matching f | e.status = .completed}.ncard
      ∧ stats.failed = {e ∈ s.logbook.matching f | e.status = .failed}.ncard := by
  intro es stats
  have hes : s.logbook.Lists f es := hs.labelled.lists (List.Perm.refl _) f
  have harranged : ∀ order, order.Perm s.logbook.records.values
      ∨ order.Perm t.logbook.records.values → arranged order f = es := by
    rintro order (horder | horder)
    · exact (hs.labelled.lists horder f).unique hes
    · exact (ht.labelled.lists horder f).unique (hes.congr hrecords)
  have hlist : t.logbook.list f = es := harranged _ (.inr (List.Perm.refl _))
  exact ⟨hlist, congrArg Statistics.ofExecutions hlist, harranged, hes.mem, hes.ascending,
    hes.oldest_first, hes.length, hes.countIn .completed, hes.countIn .failed⟩

/-- A run of a project, each a second after the other. -/
def nthRun (n : Nat) : Execution :=
  (Request.forProject ⟨7⟩).toExecution ⟨BitVec.ofNat 128 n⟩ ⟨n, 0⟩

section

open scoped Libraries.Lenient

/-- The first run is done before the second one comes up. -/
def inTurn : Store :=
  Store.empty.callAll [(⟨1, 0⟩, .create (nthRun 1)),
    (⟨5, 0⟩, .update ⟨1⟩ { status := some .completed }), (⟨2, 0⟩, .create (nthRun 2))]

/-- The second run is recorded before the first one. -/
def outOfTurn : Store :=
  Store.empty.callAll [(⟨2, 0⟩, .create (nthRun 2)), (⟨1, 0⟩, .create (nthRun 1)),
    (⟨5, 0⟩, .update ⟨1⟩ { status := some .completed })]

theorem list_independent_of_order_two :
    inTurn.logbook.records.keys = [⟨2⟩, ⟨1⟩] ∧ outOfTurn.logbook.records.keys = [⟨1⟩, ⟨2⟩]
      ∧ (∀ id, inTurn.logbook.record? id = outOfTurn.logbook.record? id)
      ∧ outOfTurn.logbook.list {} = inTurn.logbook.list {}
      ∧ Statistics.ofExecutions (outOfTurn.logbook.list {})
        = Statistics.ofExecutions (inTurn.logbook.list {})
      ∧ (inTurn.logbook.list {}).Pairwise fun d e => d.createdAt.le e.createdAt = true := by
  obtain ⟨done, hdone⟩ :
      ∃ d, d = (nthRun 1).apply ⟨5, 0⟩ { status := some .completed } := ⟨_, rfl⟩
  have hs : inTurn.logbook
      = ((Logbook.empty.put ⟨1⟩ (nthRun 1)).put ⟨1⟩ done).put ⟨2⟩ (nthRun 2) := hdone ▸ rfl
  have ht : outOfTurn.logbook
      = ((Logbook.empty.put ⟨2⟩ (nthRun 2)).put ⟨1⟩ (nthRun 1)).put ⟨1⟩ done := hdone ▸ rfl
  have hrecords : ∀ id, inTurn.logbook.record? id = outOfTurn.logbook.record? id := by
    intro id
    rw [hs, ht]
    by_cases hid : id = ⟨2⟩
    · subst hid
      rfl
    · simp only [record?_put, if_neg hid]
  have hage : ∀ e ∈ inTurn.logbook.matching {}, e.createdAt = ⟨e.id.number.toNat, 0⟩ := by
    rintro e ⟨⟨id, he⟩, -⟩
    rw [hs] at he
    simp only [record?_put] at he
    split_ifs at he <;> cases he <;> subst hdone <;> rfl
  obtain ⟨hlist, hstats, -, -, -, holdest, -⟩ := list_independent_of_order (s := inTurn)
    (t := outOfTurn) ⟨_, rfl⟩ ⟨_, rfl⟩ hrecords {}
  refine ⟨rfl, rfl, hrecords, hlist, hstats, holdest fun d hd e he hlt => ?_⟩
  rw [hage d hd, hage e he]
  simp [Instant.le, BitVec.lt_def.mp hlt]

end

end Store

end Rehearsal
