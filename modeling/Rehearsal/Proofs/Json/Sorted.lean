import Mathlib
import Rehearsal.Json.Value

/-!
# Values that were read stay as they are

An untyped value has the members of its objects sorted by name, each name once, so that putting
them in order again changes nothing.

* `sortMembers_of_sorted`: sorted members stay as they are, and `sortMembers` sorts.
* `member?_of_mem`, `member?_of_notMem`: what is found under a name.
* `value?_toNode`: **what was made of a document is made of it again** when it is written as one.
-/

namespace Rehearsal.Json

/-! ## Sorted members -/

section members

variable {α : Type} {ms : List (String × α)}

/-- Sorted by name, each name once. -/
def Sorted (ms : List (String × α)) : Prop := ms.Pairwise fun m n => m.1 < n.1

lemma mem_insertMember {name : String} {a : α} {m : String × α} (h : m ∈ insertMember name a ms) :
    m = (name, a) ∨ m ∈ ms := by
  induction ms with
  | nil => exact Or.inl (List.mem_singleton.mp h)
  | cons n ms ih =>
      obtain ⟨k, b⟩ := n
      rw [insertMember] at h
      split_ifs at h
      · exact List.mem_cons.mp h
      · exact (List.mem_cons.mp h).imp id (List.mem_cons_of_mem _)
      · rcases List.mem_cons.mp h with rfl | h
        · exact Or.inr List.mem_cons_self
        · exact (ih h).imp id (List.mem_cons_of_mem _)

lemma mem_foldl_insertMember {acc : List (String × α)} {m : String × α}
    (h : m ∈ ms.foldl (fun acc m => insertMember m.1 m.2 acc) acc) : m ∈ acc ∨ m ∈ ms := by
  induction ms generalizing acc with
  | nil => exact Or.inl h
  | cons n ms ih =>
      rcases ih h with h | h
      · rcases mem_insertMember h with rfl | h
        · exact Or.inr List.mem_cons_self
        · exact Or.inl h
      · exact Or.inr (List.mem_cons_of_mem _ h)

/-- Sorting adds no member. -/
lemma mem_of_mem_sortMembers {m : String × α} (h : m ∈ sortMembers ms) : m ∈ ms :=
  (mem_foldl_insertMember h).resolve_left List.not_mem_nil

lemma Sorted.insertMember (h : Sorted ms) (name : String) (a : α) :
    Sorted (insertMember name a ms) := by
  induction ms with
  | nil => exact List.pairwise_singleton _ _
  | cons n ms ih =>
      obtain ⟨k, b⟩ := n
      obtain ⟨hk, hms⟩ := List.pairwise_cons.mp h
      rw [Json.insertMember]
      split_ifs with hlt heq
      · exact List.pairwise_cons.mpr
          ⟨List.forall_mem_cons.mpr ⟨hlt, fun m hm => hlt.trans (hk m hm)⟩, h⟩
      · exact List.pairwise_cons.mpr ⟨fun m hm => heq ▸ hk m hm, hms⟩
      · refine List.pairwise_cons.mpr ⟨fun m hm => ?_, ih hms⟩
        rcases mem_insertMember hm with rfl | hm
        · exact lt_of_le_of_ne (not_lt.mp hlt) heq
        · exact hk m hm

lemma sorted_foldl {acc : List (String × α)} (h : Sorted acc) :
    Sorted (ms.foldl (fun acc m => insertMember m.1 m.2 acc) acc) := by
  induction ms generalizing acc with
  | nil => exact h
  | cons n ms ih => exact ih (h.insertMember n.1 n.2)

/-- **Sorting sorts.** -/
lemma sorted_sortMembers (ms : List (String × α)) : Sorted (sortMembers ms) :=
  sorted_foldl List.Pairwise.nil

/-- A member whose name comes last is put last. -/
lemma insertMember_last {name : String} {a : α} (h : ∀ m ∈ ms, m.1 < name) :
    insertMember name a ms = ms ++ [(name, a)] := by
  induction ms with
  | nil => rfl
  | cons n ms ih =>
      obtain ⟨k, b⟩ := n
      obtain ⟨hk, hms⟩ := List.forall_mem_cons.mp h
      rw [insertMember, if_neg (lt_asymm hk), if_neg hk.ne, ih hms, List.cons_append]

lemma foldl_insertMember {acc : List (String × α)} (h : Sorted (acc ++ ms)) :
    ms.foldl (fun acc m => insertMember m.1 m.2 acc) acc = acc ++ ms := by
  induction ms generalizing acc with
  | nil => exact (List.append_nil acc).symm
  | cons n ms ih =>
      have hlast : ∀ m ∈ acc, m.1 < n.1 :=
        fun m hm => (List.pairwise_append.mp h).2.2 m hm n List.mem_cons_self
      rw [List.foldl_cons, insertMember_last hlast, ih (by simpa using h), List.append_assoc,
        List.singleton_append]

/-- **Sorted members stay as they are.** -/
lemma sortMembers_of_sorted (h : Sorted ms) : sortMembers ms = ms :=
  foldl_insertMember h

end members

/-! ## Looking members up -/

section lookup

variable {α β : Type} {name : String} {ms : List (String × α)}

lemma member?_of_mem {a : α} (hnodup : (ms.map Prod.fst).Nodup) (h : (name, a) ∈ ms) :
    member? name ms = some a := by
  induction ms with
  | nil => cases h
  | cons m ms ih =>
      obtain ⟨k, b⟩ := m
      rw [List.map_cons, List.nodup_cons] at hnodup
      rw [member?]
      rcases List.mem_cons.mp h with heq | hmem
      · cases heq
        rw [if_pos rfl]
      · have hne : k ≠ name := by
          rintro rfl
          exact hnodup.1 (List.mem_map.mpr ⟨(k, a), hmem, rfl⟩)
        rw [if_neg hne, ih hnodup.2 hmem]

lemma mem_of_member? {a : α} (h : member? name ms = some a) : (name, a) ∈ ms := by
  induction ms with
  | nil => cases h
  | cons m ms ih =>
      obtain ⟨k, b⟩ := m
      rw [member?] at h
      split_ifs at h with hk
      · cases h
        exact hk ▸ List.mem_cons_self
      · exact List.mem_cons_of_mem _ (ih h)

lemma member?_of_notMem (h : name ∉ ms.map Prod.fst) : member? name ms = none := by
  induction ms with
  | nil => rfl
  | cons m ms ih =>
      obtain ⟨k, b⟩ := m
      rw [List.map_cons, List.mem_cons, not_or] at h
      rw [member?, if_neg (Ne.symm h.1), ih h.2]

lemma member?_map (f : α → β) :
    member? name (ms.map fun m => (m.1, f m.2)) = (member? name ms).map f := by
  induction ms with
  | nil => rfl
  | cons m ms ih =>
      rw [List.map_cons, member?, member?]
      split_ifs
      · rfl
      · exact ih

end lookup

/-! ## Untyped values -/

/-- Items that are made again are made again together. -/
lemma itemValues?_itemNodes {room : Nat} {vs : List Value}
    (h : ∀ v ∈ vs, v.toNode.value? room = some v) :
    itemValues? room (itemNodes vs) = some vs := by
  induction vs with
  | nil => rfl
  | cons v vs ih =>
      obtain ⟨hv, hvs⟩ := List.forall_mem_cons.mp h
      rw [itemNodes, itemValues?, hv, ih hvs]
      rfl

lemma memberValues?_memberNodes {room : Nat} {ms : List (String × Value)}
    (h : ∀ m ∈ ms, m.2.toNode.value? room = some m.2) :
    memberValues? room (memberNodes ms) = some ms := by
  induction ms with
  | nil => rfl
  | cons m ms ih =>
      obtain ⟨hm, hms⟩ := List.forall_mem_cons.mp h
      rw [memberNodes, memberValues?, hm, ih hms]
      rfl

mutual

/-- **What was made of a document is made of it again.** -/
theorem value?_toNode : ∀ {n : Node} {room : Nat} {v : Value}, n.value? room = some v →
    v.toNode.value? room = some v
  | .null, _, _, h => by
      cases h
      rfl
  | .bool b, _, _, h => by
      cases h
      rfl
  | .num n, _, _, h => by
      obtain ⟨m, -, rfl⟩ := Option.map_eq_some_iff.mp h
      rfl
  | .str s, _, _, h => by
      obtain ⟨t, -, rfl⟩ := Option.map_eq_some_iff.mp h
      rfl
  | .arr ns, 0, _, h => by cases h
  | .arr ns, room + 1, _, h => by
      obtain ⟨vs, hvs, rfl⟩ := Option.map_eq_some_iff.mp h
      rw [Value.toNode, Node.value?, itemValues?_itemNodes (value?_toNode_items hvs)]
      rfl
  | .obj ms, 0, _, h => by cases h
  | .obj ms, room + 1, _, h => by
      obtain ⟨vs, hvs, rfl⟩ := Option.map_eq_some_iff.mp h
      have hmembers : ∀ m ∈ sortMembers vs, m.2.toNode.value? room = some m.2 :=
        fun m hm => value?_toNode_members hvs m (mem_of_mem_sortMembers hm)
      rw [Value.toNode, Node.value?, memberValues?_memberNodes hmembers, Option.map_some,
        sortMembers_of_sorted (sorted_sortMembers vs)]

theorem value?_toNode_items : ∀ {ns : List Node} {room : Nat} {vs : List Value},
    itemValues? room ns = some vs → ∀ v ∈ vs, v.toNode.value? room = some v
  | [], _, _, h => by
      cases h
      simp
  | n :: ns, room, _, h => by
      simp only [itemValues?, Option.bind_eq_bind, Option.bind_eq_some_iff, Option.pure_def,
        Option.some.injEq] at h
      obtain ⟨v, hv, vs, hvs, rfl⟩ := h
      exact List.forall_mem_cons.mpr ⟨value?_toNode hv, value?_toNode_items hvs⟩

theorem value?_toNode_members : ∀ {ns : List (Option String × Node)} {room : Nat}
    {ms : List (String × Value)}, memberValues? room ns = some ms →
    ∀ m ∈ ms, m.2.toNode.value? room = some m.2
  | [], _, _, h => by
      cases h
      simp
  | (name, n) :: ns, room, _, h => by
      simp only [memberValues?, Option.bind_eq_bind, Option.bind_eq_some_iff, Option.pure_def,
        Option.some.injEq] at h
      obtain ⟨name, -, v, hv, ms, hms, rfl⟩ := h
      exact List.forall_mem_cons.mpr ⟨value?_toNode hv, value?_toNode_members hms⟩

end

end Rehearsal.Json
