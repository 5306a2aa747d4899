import Mathlib
import Rehearsal.Json.Decode
import Rehearsal.Proofs.Json.Reading
import Rehearsal.Proofs.Json.Field

/-!
# What was decoded is decoded again

A document may be spelled in many ways, and what is made of it is written in one.  A reader and a
writer fit together when what was read **from whatever spelling** is read again from what is
written of it.

* `Restores`: a written value is read as what it was written for, and its text is read too.
* `Stable`: a reader and a writer that fit together, for what is fine, as far as a number of
  nested brackets is at hand.  Strings, numbers, lists and bags are stable; a record is stable
  **field by field** (`Stable.required` and what follows it), since a written record is read by the
  names of its fields (`read_record`).
* `Stable.decode`: stability, of documents.
-/

namespace Rehearsal.Json

variable {α : Type} {read : Reader α} {write : α → Value} {Fine : α → Prop} {need room : Nat}

/-- A value whose text is read, and that is read as what it was written for. -/
structure Restores (read : Reader α) (room : Nat) (v : Value) (a : α) : Prop where
  whole : v.Whole
  reads : read room v.toNode = some a

/-- What was read from any document, and is fine, is read again from what is written of it. -/
def Stable (need : Nat) (read : Reader α) (write : α → Value) (Fine : α → Prop) : Prop :=
  ∀ ⦃room : Nat⦄ ⦃n : Node⦄ ⦃a : α⦄, need ≤ room → read room n = some a → Fine a →
    Restores read room (write a) a

/-- **Stability, of documents.** -/
theorem Stable.decode (hs : Stable need read write Fine) (hneed : need ≤ maxDepth) {s : String}
    {a : α} (h : Json.decode read s = some a) (hfine : Fine a) :
    Json.decode read (write a).compact = some a := by
  obtain ⟨n, -, h⟩ := Option.bind_eq_some_iff.mp h
  obtain ⟨hwhole, hreads⟩ := hs hneed h hfine
  rw [Json.decode, parse_compact hwhole]
  exact hreads

/-- A document given by its characters is read by evaluation, and what holds of it is tested. -/
lemma decode_of_any {P : α → Prop} [DecidablePred P] {cs : List Char}
    (h : ((parseChars cs).bind (read maxDepth)).any (fun a => decide (P a)) = true) :
    ∃ a, Json.decode read (String.ofList cs) = some a ∧ P a := by
  obtain ⟨a, ha, hP⟩ := (Option.any_eq_true _ _).mp h
  refine ⟨a, ?_, of_decide_eq_true hP⟩
  rw [Json.decode, parse, String.toList_ofList]
  exact ha

/-! ## Texts, truth values and numbers -/

lemma stable_string : Stable 0 Reader.string .str fun _ => True := by
  intro room n s _ h _
  cases n with
  | str t => exact ⟨whole_str s, rfl⟩
  | _ => cases h

lemma stable_bool : Stable 0 Reader.bool .bool fun _ => True := by
  intro room n b _ h _
  cases n with
  | bool c => exact ⟨whole_bool b, rfl⟩
  | _ => cases h

lemma integer_eq_some {low high a : Int} {n : Node} (h : Reader.integer low high room n = some a) :
    low ≤ a ∧ a ≤ high := by
  unfold Reader.integer at h
  split at h
  next m =>
    split_ifs at h with hbounds
    cases h
    simpa using hbounds
  next => cases h

lemma integer_int {low high a : Int} (hlow : low ≤ a) (hhigh : a ≤ high) :
    Reader.integer low high room (.num (some (.int a))) = some a :=
  if_pos (by simpa using ⟨hlow, hhigh⟩)

lemma stable_int64 : Stable 0 Reader.int64 (fun a => .num (.int a)) fun _ => True := by
  intro room n a _ h _
  obtain ⟨hlow, hhigh⟩ := integer_eq_some h
  refine ⟨⟨by omega, by omega⟩, integer_int hlow hhigh⟩

lemma stable_word32 : Stable 0 Reader.word32 (fun a => .num (.int a)) fun _ => True := by
  intro room n a _ h _
  obtain ⟨b, hb, rfl⟩ := Option.map_eq_some_iff.mp h
  obtain ⟨hlow, hhigh⟩ := integer_eq_some hb
  have hcast : (b.toNat : Int) = b := Int.toNat_of_nonneg hlow
  refine ⟨⟨by omega, by omega⟩, ?_⟩
  simp only [Value.toNode, Reader.word32, hcast, integer_int hlow hhigh, Option.map_some]

lemma stable_value : Stable 0 Reader.value id Value.Whole :=
  fun _ _ _ _ h hwhole => ⟨hwhole, value?_toNode h⟩

/-- What a name stands for is the thing of some name. -/
lemma exists_of_enumerated {find : String → Option α} {n : Node} {a : α}
    (h : Reader.enumerated find room n = some a) : ∃ name, find name = some a := by
  unfold Reader.enumerated at h
  split at h
  next => exact ⟨_, h⟩
  next => exact ⟨_, h⟩
  next => cases h

/-- A name from a closed set is written as a string. -/
lemma stable_enumerated {find : String → Option α} {name : α → String}
    (h : ∀ a, find (name a) = some a) :
    Stable 0 (Reader.enumerated find) (fun a => .str (name a)) fun _ => True :=
  fun _ _ a _ _ _ => ⟨whole_str _, h a⟩

/-! ## Lists -/

lemma items_of_restores {as : List α} (h : ∀ a ∈ as, Restores read room (write a) a) :
    Reader.items read room (itemNodes (as.map write)) = some as := by
  induction as with
  | nil => rfl
  | cons a as ih =>
      obtain ⟨ha, has⟩ := List.forall_mem_cons.mp h
      rw [List.map_cons, itemNodes, Reader.items, ha.reads, ih has]
      rfl

/-- Each item was read from somewhere. -/
lemma exists_of_items {ns : List Node} {as : List α} (h : Reader.items read room ns = some as) :
    ∀ a ∈ as, ∃ n, read room n = some a := by
  induction ns generalizing as with
  | nil =>
      cases h
      simp
  | cons n ns ih =>
      simp only [Reader.items, Option.bind_eq_bind, Option.bind_eq_some_iff, Option.pure_def,
        Option.some.injEq] at h
      obtain ⟨a, ha, as, has, rfl⟩ := h
      exact List.forall_mem_cons.mpr ⟨⟨n, ha⟩, ih has⟩

lemma restores_nil (h : 0 < room) : Restores (Reader.list read) room (.arr []) [] := by
  obtain ⟨room, rfl⟩ := Nat.exists_eq_add_of_le' h
  exact ⟨by simp, rfl⟩

/-- A list is stable if its items are. -/
lemma Stable.list (hs : Stable need read write Fine) :
    Stable (need + 1) (Reader.list read) (fun as => .arr (as.map write)) fun as =>
      ∀ a ∈ as, Fine a := by
  intro room n as hneed h hfine
  obtain ⟨room, rfl⟩ := Nat.exists_eq_add_of_le' (Nat.le_of_add_left_le hneed)
  cases n with
  | arr ns =>
      have hitems : ∀ a ∈ as, Restores read room (write a) a := by
        intro a ha
        obtain ⟨n, hn⟩ := exists_of_items h a ha
        exact hs (Nat.le_of_add_le_add_right hneed) hn (hfine a ha)
      refine ⟨?_, items_of_restores hitems⟩
      simpa using fun a ha => (hitems a ha).whole
  | _ => cases h

/-! ## Members -/

/-- The members that stand for things with names. -/
def membersOf (write : α → Value) (ms : List (String × α)) : List (String × Value) :=
  ms.map fun m => (m.1, write m.2)

lemma members_of_restores {ms : List (String × α)}
    (h : ∀ m ∈ ms, Restores read room (write m.2) m.2) :
    Reader.members read room (memberNodes (membersOf write ms)) = some ms := by
  induction ms with
  | nil => rfl
  | cons m ms ih =>
      obtain ⟨hm, hms⟩ := List.forall_mem_cons.mp h
      have hmore := ih hms
      rw [membersOf] at hmore
      rw [membersOf, List.map_cons, memberNodes, Reader.members, hm.reads, hmore]
      rfl

lemma exists_of_members {ns : List (Option String × Node)} {ms : List (String × α)}
    (h : Reader.members read room ns = some ms) : ∀ m ∈ ms, ∃ n, read room n = some m.2 := by
  induction ns generalizing ms with
  | nil =>
      cases h
      simp
  | cons n ns ih =>
      obtain ⟨name, n⟩ := n
      simp only [Reader.members, Option.bind_eq_bind, Option.bind_eq_some_iff, Option.pure_def,
        Option.some.injEq] at h
      obtain ⟨name, -, a, ha, ms, hms, rfl⟩ := h
      exact List.forall_mem_cons.mpr ⟨⟨n, ha⟩, ih hms⟩

lemma whole_membersOf {ms : List (String × α)} (h : ∀ m ∈ ms, (write m.2).Whole) :
    (Value.obj (membersOf write ms)).Whole := by
  rw [whole_obj, membersOf, List.forall_mem_map]
  exact h

/-- Things with names are read again, also when only some of them are written. -/
lemma Stable.restores_entries (hs : Stable need read write Fine) {n : Node}
    {ms ps : List (String × α)} (hneed : need + 1 ≤ room)
    (h : Reader.entries read room n = some ms) (hps : ps ⊆ ms) (hfine : ∀ m ∈ ps, Fine m.2) :
    Restores (Reader.entries read) room (.obj (membersOf write ps)) ps := by
  obtain ⟨room, rfl⟩ := Nat.exists_eq_add_of_le' (Nat.le_of_add_left_le hneed)
  cases n with
  | obj ns =>
      have hmembers : ∀ m ∈ ps, Restores read room (write m.2) m.2 := by
        intro m hm
        obtain ⟨n, hn⟩ := exists_of_members h m (hps hm)
        exact hs (Nat.le_of_add_le_add_right hneed) hn (hfine m hm)
      exact ⟨whole_membersOf fun m hm => (hmembers m hm).whole, members_of_restores hmembers⟩
  | _ => cases h

/-- A sorted collection is stable if what it holds is. -/
lemma Stable.sorted (hs : Stable need read write Fine) :
    Stable (need + 1) (Reader.sorted read) (fun ms => .obj (membersOf write ms)) fun ms =>
      ∀ m ∈ ms, Fine m.2 := by
  intro room n ms hneed h hfine
  obtain ⟨raw, hraw, rfl⟩ := Option.map_eq_some_iff.mp h
  obtain ⟨hwhole, hreads⟩ := hs.restores_entries hneed hraw (fun _ => mem_of_mem_sortMembers) hfine
  refine ⟨hwhole, ?_⟩
  rw [Reader.sorted, hreads, Option.map_some, sortMembers_of_sorted (sorted_sortMembers raw)]

lemma restores_empty (h : 0 < room) : Restores (Reader.sorted read) room (.obj []) [] := by
  obtain ⟨room, rfl⟩ := Nat.exists_eq_add_of_le' h
  exact ⟨by simp, rfl⟩

lemma stable_bag : Stable 1 Reader.bag .obj fun bag => ∀ m ∈ bag, m.2.Whole := by
  intro room n bag hneed h hfine
  have hwrite : Value.obj (membersOf id bag) = .obj bag := by
    rw [membersOf]
    exact congrArg Value.obj (List.map_id bag)
  exact hwrite ▸ stable_value.sorted hneed h hfine

/-! ## Records -/

/-- Fields under names that differ from one another. -/
structure Layout (names : List String) (fields : List Field) : Prop where
  names_eq : fields.map Prod.fst = names
  nodup : names.Nodup

/-- The fields of a written record, for a reader. -/
def written (room : Nat) (fields : List Field) : Entries :=
  ⟨false, room, (present fields).map fun m => (m.1, m.2.toNode)⟩

lemma names_present {fields : List Field} {m : String × Value} (h : m ∈ present fields) :
    m.1 ∈ fields.map Prod.fst := by
  induction fields with
  | nil => cases h
  | cons f fields ih =>
      obtain ⟨name, o⟩ := f
      cases o with
      | none => exact List.mem_cons_of_mem _ (ih h)
      | some v =>
          rcases List.mem_cons.mp h with rfl | h
          · exact List.mem_cons_self
          · exact List.mem_cons_of_mem _ (ih h)

lemma mem_of_mem_present {fields : List Field} {m : String × Value} (h : m ∈ present fields) :
    (m.1, some m.2) ∈ fields := by
  induction fields with
  | nil => cases h
  | cons f fields ih =>
      obtain ⟨name, o⟩ := f
      cases o with
      | none => exact List.mem_cons_of_mem _ (ih h)
      | some v =>
          rcases List.mem_cons.mp h with rfl | h
          · exact List.mem_cons_self
          · exact List.mem_cons_of_mem _ (ih h)

lemma whole_record {fields : List Field} (h : ∀ f ∈ fields, ∀ v ∈ f.2, v.Whole) :
    (record fields).Whole := by
  rw [record, whole_obj]
  exact fun m hm => h _ (mem_of_mem_present hm) m.2 rfl

lemma select_present {names : List String} {fields : List Field}
    (hnodup : (fields.map Prod.fst).Nodup) (hsub : fields.map Prod.fst ⊆ names) :
    Entries.select names (memberNodes (present fields))
      = some ((present fields).map fun m => (m.1, m.2.toNode)) := by
  induction fields with
  | nil => rfl
  | cons f fields ih =>
      obtain ⟨name, o⟩ := f
      rw [List.map_cons, List.nodup_cons] at hnodup
      rw [List.map_cons, List.cons_subset] at hsub
      have hmore := ih hnodup.2 hsub.2
      cases o with
      | none => exact hmore
      | some v =>
          have hname : names.contains name = true := List.contains_iff_mem.mpr hsub.1
          have hfresh : ((present fields).map fun m => (m.1, m.2.toNode)).any (·.1 == name)
              = false := by
            rw [List.any_map, List.any_eq_false]
            intro m hm heq
            refine hnodup.1 ?_
            rw [← beq_iff_eq.mp heq]
            exact names_present hm
          simp only [present, memberNodes, Entries.select, hmore, hname, hfresh,
            Option.bind_eq_bind, Option.bind_some, if_true, Bool.false_eq_true, if_false,
            Option.pure_def, List.map_cons]

/-- **A written record is read by the names of its fields**, whatever else may be looked for. -/
lemma read_record {names keys : List String} {fields : List Field} (h : Layout keys fields)
    (hsub : keys ⊆ names) (room : Nat) :
    Entries.read names (room + 1) (record fields).toNode = some (written room fields) := by
  rw [record, Value.toNode, Entries.read, select_present (h.names_eq ▸ h.nodup)
    (h.names_eq ▸ hsub), Option.map_some, written]

/-- A field of a record is found under its name if it was written. -/
lemma member?_present {fields : List Field} {name : String} {o : Option Value}
    (hnodup : (fields.map Prod.fst).Nodup) (h : member? name fields = some o) :
    member? name (present fields) = o := by
  induction fields with
  | nil => cases h
  | cons f fields ih =>
      obtain ⟨k, p⟩ := f
      rw [List.map_cons, List.nodup_cons] at hnodup
      rw [member?] at h
      split_ifs at h with hk
      · cases h
        subst hk
        cases o with
        | none =>
            refine member?_of_notMem fun hmem => hnodup.1 ?_
            obtain ⟨m, hm, rfl⟩ := List.mem_map.mp hmem
            exact names_present hm
        | some v => rw [present, member?, if_pos rfl]
      · cases p with
        | none => exact ih hnodup.2 h
        | some v => rw [present, member?, if_neg hk, ih hnodup.2 h]

lemma member?_written {names : List String} {fields : List Field} (hl : Layout names fields)
    {name : String} {o : Option Value} (h : member? name fields = some o) (room : Nat) :
    member? name (written room fields).fields = o.map Value.toNode := by
  rw [written, member?_map, member?_present (hl.names_eq ▸ hl.nodup) h]

/-! ### Fields -/

/-- A field whose value is read again as the part of the record that it was written for. -/
structure Keeps (fields : List Field) (room : Nat) (o : Option Value) (x : Entries → Option α)
    (a : α) : Prop where
  whole : ∀ v ∈ o, v.Whole
  reads : x (written room fields) = some a

section fields

variable {names : List String} {fields : List Field} {name : String} {es : Entries}

lemma Stable.required (hs : Stable need read write Fine) (hl : Layout names fields) {a : α}
    (h : es.required name read = some a) (hfine : Fine a) (hneed : need ≤ es.room)
    (hfield : member? name fields = some (some (write a))) :
    Keeps fields es.room (some (write a)) (·.required name read) a := by
  obtain ⟨n, -, hn⟩ := Option.bind_eq_some_iff.mp h
  obtain ⟨hwhole, hreads⟩ := hs hneed hn hfine
  refine ⟨by simpa using hwhole, ?_⟩
  simp only [Entries.required, member?_written hl hfield, Option.map_some, Option.bind_eq_bind,
    Option.bind_some]
  exact hreads

/-- A field that is always written, although it may be missing. -/
lemma Stable.defaulted (hs : Stable need read write Fine) (hl : Layout names fields)
    {a default : α} (h : es.defaulted name default read = some a) (hfine : Fine a)
    (hneed : need ≤ es.room) (hdefault : Restores read es.room (write default) default)
    (hfield : member? name fields = some (some (write a))) :
    Keeps fields es.room (some (write a)) (·.defaulted name default read) a := by
  have hrestores : Restores read es.room (write a) a := by
    rw [Entries.defaulted] at h
    split at h
    next n _ => exact hs hneed h hfine
    next =>
      cases h
      exact hdefault
  refine ⟨by simpa using hrestores.whole, ?_⟩
  simp only [Entries.defaulted, member?_written hl hfield, Option.map_some]
  exact hrestores.reads

/-- A field that is left out when it is what it would be if it were missing. -/
lemma Stable.omitted (hs : Stable need read write Fine) (hl : Layout names fields)
    {a default : α} (h : es.defaulted name default read = some a) (hfine : Fine a)
    (hneed : need ≤ es.room) {empty : Bool} (hempty : empty = true ↔ a = default)
    (hfield : member? name fields = some (if empty then none else some (write a))) :
    Keeps fields es.room (if empty then none else some (write a))
      (·.defaulted name default read) a := by
  cases hcase : empty with
  | true =>
      rw [hcase, if_pos rfl] at hfield
      refine ⟨by simp, ?_⟩
      simp only [Entries.defaulted, member?_written hl hfield, Option.map_none,
        hempty.mp hcase]
  | false =>
      rw [hcase, if_neg Bool.false_ne_true] at hfield
      rw [Entries.defaulted] at h
      split at h
      next n _ =>
        obtain ⟨hwhole, hreads⟩ := hs hneed h hfine
        refine ⟨by simpa using hwhole, ?_⟩
        simp only [Entries.defaulted, member?_written hl hfield, Option.map_some]
        exact hreads
      next =>
        cases h
        rw [hempty.mpr rfl] at hcase
        cases hcase

/-! Something that is there is never written as null. -/

/-- Only null is read as something that is written as null. -/
def Solid (read : Reader α) (write : α → Value) : Prop :=
  ∀ ⦃room : Nat⦄ ⦃n : Node⦄ ⦃a : α⦄, n ≠ .null → read room n = some a → (write a).toNode ≠ .null

lemma nullable_null : Reader.nullable read room .null = some none := rfl

lemma nullable_eq {n : Node} (h : n ≠ .null) :
    Reader.nullable read room n = (read room n).map some := by
  unfold Reader.nullable
  split
  next => exact absurd rfl h
  next => rfl

/-- What is there is read again as something that is there. -/
lemma Stable.restores_some (hs : Stable need read write Fine) (hsolid : Solid read write)
    (hneed : need ≤ room) {n : Node} {a : α} (h : Reader.nullable read room n = some (some a))
    (hfine : Fine a) : Restores (Reader.nullable read) room (write a) (some a) := by
  have hn : n ≠ .null := by
    rintro rfl
    rw [nullable_null] at h
    cases h
  rw [nullable_eq hn, Option.map_eq_some_iff] at h
  obtain ⟨b, hb, hba⟩ := h
  cases hba
  obtain ⟨hwhole, hreads⟩ := hs hneed hb hfine
  exact ⟨hwhole, by rw [nullable_eq (hsolid hn hb), hreads, Option.map_some]⟩

/-- A field that is left out when there is nothing. -/
lemma Stable.optional (hs : Stable need read write Fine) (hsolid : Solid read write)
    (hl : Layout names fields) {o : Option α} (h : es.optional name read = some o)
    (hfine : ∀ a ∈ o, Fine a) (hneed : need ≤ es.room)
    (hfield : member? name fields = some (o.map write)) :
    Keeps fields es.room (o.map write) (·.optional name read) o := by
  cases o with
  | none =>
      refine ⟨by simp, ?_⟩
      simp only [Entries.optional, Entries.defaulted, member?_written hl hfield, Option.map_none]
  | some a =>
      rw [Entries.optional, Entries.defaulted] at h
      split at h
      next n _ =>
        obtain ⟨hwhole, hreads⟩ := hs.restores_some hsolid hneed h (hfine a rfl)
        refine ⟨by simpa using hwhole, ?_⟩
        simp only [Entries.optional, Entries.defaulted, member?_written hl hfield, Option.map_some]
        exact hreads
      next => cases h

lemma Stable.restores_nullable (hs : Stable need read write Fine) (hsolid : Solid read write)
    (hneed : need ≤ es.room) {a : α} (h : es.nullable name read = some (some a))
    (hfine : Fine a) : Restores (Reader.nullable read) es.room (write a) (some a) := by
  rw [Entries.nullable] at h
  split at h
  next n _ => exact hs.restores_some hsolid hneed h hfine
  next => split_ifs at h; cases h

/-- A field that is left out when there is nothing, although it may be null. -/
lemma Stable.nullable (hs : Stable need read write Fine) (hsolid : Solid read write)
    (hl : Layout names fields) {o : Option α} (h : es.nullable name read = some o)
    (hfine : ∀ a ∈ o, Fine a) (hneed : need ≤ es.room)
    (hfield : member? name fields = some (o.map write)) :
    Keeps fields es.room (o.map write) (·.nullable name read) o := by
  cases o with
  | none =>
      refine ⟨by simp, ?_⟩
      simp only [Entries.nullable, member?_written hl hfield, Option.map_none]
      rfl
  | some a =>
      obtain ⟨hwhole, hreads⟩ := hs.restores_nullable hsolid hneed h (hfine a rfl)
      refine ⟨by simpa using hwhole, ?_⟩
      simp only [Entries.nullable, member?_written hl hfield, Option.map_some]
      exact hreads

/-- A field that is null when there is nothing. -/
lemma Stable.orNull (hs : Stable need read write Fine) (hsolid : Solid read write)
    (hl : Layout names fields) {o : Option α} (h : es.nullable name read = some o)
    (hfine : ∀ a ∈ o, Fine a) (hneed : need ≤ es.room)
    (hfield : member? name fields = some (some (orNull write o))) :
    Keeps fields es.room (some (orNull write o)) (·.nullable name read) o := by
  cases o with
  | none =>
      refine ⟨by simp [Json.orNull], ?_⟩
      simp only [Entries.nullable, member?_written hl hfield, Option.map_some]
      rfl
  | some a =>
      obtain ⟨hwhole, hreads⟩ := hs.restores_nullable hsolid hneed h (hfine a rfl)
      refine ⟨by simpa [Json.orNull] using hwhole, ?_⟩
      simp only [Entries.nullable, member?_written hl hfield, Option.map_some]
      exact hreads

end fields

lemma solid_of_ne (h : ∀ a, (write a).toNode ≠ .null) : Solid read write :=
  fun _ _ a _ _ => h a

lemma solid_string : Solid Reader.string .str := solid_of_ne fun _ => Node.noConfusion

lemma solid_int64 : Solid Reader.int64 fun a => .num (.int a) :=
  solid_of_ne fun _ => Node.noConfusion

lemma solid_list : Solid (Reader.list read) fun as => .arr (as.map write) :=
  solid_of_ne fun _ => Node.noConfusion

lemma solid_value : Solid Reader.value id := by
  intro room n v hn h hv
  have hnull : n.value? room = some .null := by
    cases v with
    | null => exact h
    | _ => cases hv
  cases n with
  | null => exact hn rfl
  | bool b => cases hnull
  | num m =>
      obtain ⟨_, -, heq⟩ := Option.map_eq_some_iff.mp hnull
      cases heq
  | str s =>
      obtain ⟨_, -, heq⟩ := Option.map_eq_some_iff.mp hnull
      cases heq
  | arr ns =>
      cases room with
      | zero => cases hnull
      | succ room =>
          obtain ⟨_, -, heq⟩ := Option.map_eq_some_iff.mp hnull
          cases heq
  | obj ms =>
      cases room with
      | zero => cases hnull
      | succ room =>
          obtain ⟨_, -, heq⟩ := Option.map_eq_some_iff.mp hnull
          cases heq

/-! ### Whole records -/

/-- What was read from a record is read again if it is made of the written fields again. -/
lemma restores_record {names : List String} {build : Entries → Option α} {fields : List Field}
    {n : Node} {es : Entries} {a : α} (hes : Entries.read names room n = some es)
    (hl : Layout names fields)
    (h : Layout names fields →
      (∀ f ∈ fields, ∀ v ∈ f.2, v.Whole) ∧ build (written es.room fields) = some a) :
    Restores (fun room n => (Entries.read names room n).bind build) room (record fields) a := by
  obtain rfl := room_of_read hes
  obtain ⟨hwhole, hagain⟩ := h hl
  refine ⟨whole_record hwhole, ?_⟩
  rw [read_record hl (List.Subset.refl _), Option.bind_some, hagain]

/-- **A record is stable if it is made of its written fields again.** -/
lemma Stable.record {names : List String} {build : Entries → Option α} {fields : α → List Field}
    (hl : ∀ a, Layout names (fields a))
    (h : ∀ {es : Entries} {a : α}, Layout names (fields a) → need ≤ es.room →
      build es = some a → Fine a →
      (∀ f ∈ fields a, ∀ v ∈ f.2, v.Whole) ∧ build (written es.room (fields a)) = some a) :
    Stable (need + 1) (fun room n => (Entries.read names room n).bind build)
      (fun a => Json.record (fields a)) Fine := by
  intro room n a hneed hread hfine
  obtain ⟨es, hes, hbuild⟩ := Option.bind_eq_some_iff.mp hread
  have hroom : need ≤ es.room := Nat.le_of_add_le_add_right (room_of_read hes ▸ hneed)
  exact restores_record hes (hl a) fun hl => h hl hroom hbuild hfine

end Rehearsal.Json
