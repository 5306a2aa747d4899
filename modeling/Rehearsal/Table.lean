/-!
# Tables

A table has at most one entry for each key.

* `Table.get?`: what stands under a key.
* `Table.put`: the last value put under a key is the one found there, **and nothing else
  changes** (`get?_put`).
* `Table.erase`: nothing is found under an erased key (`get?_erase`).
-/

namespace Rehearsal

/-- Entries with pairwise different keys. -/
structure Table (κ α : Type) where
  entries : List (κ × α)
  distinct : (entries.map Prod.fst).Nodup

namespace Table

variable {κ α : Type}

def empty : Table κ α := ⟨[], List.nodup_nil⟩

instance : Inhabited (Table κ α) := ⟨empty⟩

/-- All values, the last one put first. -/
def values (t : Table κ α) : List α := t.entries.map Prod.snd

/-- All keys, the last one put first. -/
def keys (t : Table κ α) : List κ := t.entries.map Prod.fst

/-- The entries whose keys satisfy a condition. -/
def filterKeys (keep : κ → Bool) (t : Table κ α) : Table κ α where
  entries := t.entries.filter fun e => keep e.1
  distinct := t.distinct.sublist (List.filter_sublist.map _)

variable [DecidableEq κ]

/-- The value under a key. -/
def get? (t : Table κ α) (k : κ) : Option α := (t.entries.find? fun e => e.1 = k).map Prod.snd

/-- Whether there is a value under a key. -/
def contains (t : Table κ α) (k : κ) : Bool := (t.get? k).isSome

/-- Without the entry of a key. -/
def erase (t : Table κ α) (k : κ) : Table κ α := t.filterKeys fun x => !decide (x = k)

/-- With one value under a key, in place of the one that was there. -/
def put (t : Table κ α) (k : κ) (a : α) : Table κ α where
  entries := (k, a) :: (t.erase k).entries
  distinct := by
    rw [List.map_cons, List.nodup_cons]
    refine ⟨?_, (t.erase k).distinct⟩
    intro h
    obtain ⟨e, he, rfl⟩ := List.mem_map.1 h
    simpa using (List.mem_filter.1 he).2

theorem get?_empty (k : κ) : (empty : Table κ α).get? k = none := rfl

/-- A key that is kept has the value it had, any other has none. -/
theorem get?_filterKeys (keep : κ → Bool) (t : Table κ α) (k : κ) :
    (t.filterKeys keep).get? k = if keep k then t.get? k else none := by
  obtain ⟨entries, distinct⟩ := t
  simp only [get?, filterKeys]
  clear distinct
  induction entries with
  | nil => simp
  | cons e rest ih =>
    rw [List.filter_cons]
    by_cases he : e.1 = k
    · subst he
      by_cases hk : keep e.1 = true
      · rw [if_pos hk, if_pos hk, List.find?_cons_of_pos (by simp),
          List.find?_cons_of_pos (by simp)]
      · rw [if_neg hk, if_neg hk]
        rwa [if_neg hk] at ih
    · rw [List.find?_cons_of_neg (by simpa using he), ← ih]
      by_cases hk : keep e.1 = true
      · rw [if_pos hk, List.find?_cons_of_neg (by simpa using he)]
      · rw [if_neg hk]

theorem get?_erase (t : Table κ α) (k l : κ) :
    (t.erase k).get? l = if l = k then none else t.get? l := by
  rw [erase, get?_filterKeys]
  by_cases h : l = k <;> simp [h]

/-- The value put is found under its key, and the other keys keep theirs. -/
theorem get?_put (t : Table κ α) (k l : κ) (a : α) :
    (t.put k a).get? l = if l = k then some a else t.get? l := by
  have key : (t.put k a).get? l = if k = l then some a else (t.erase k).get? l := by
    by_cases h : k = l <;> simp [get?, put, h]
  rw [key, get?_erase]
  by_cases h : l = k
  · simp [h]
  · simp [h, Ne.symm h]

end Table

end Rehearsal
