import Mathlib
import Rehearsal.Json.Decode
import Rehearsal.Proofs.Json.Sorted

/-!
# The fields of an untyped value

A value is read as something typed by way of the document that it would be written as.  What
the reader finds there can be said of the value itself.

* `Value.field?`: what a value has under the name of a field, be it an object or an array.
* `exists_read_iff`: a value is read as a record **just when no field stands in it twice** or, if it
  is an array, when it has no more items than there are fields.
* `member?_of_read`: what a record has under a name is what the value has there.
* `list_eq_some_iff`: a list is read just when each of its items is.
-/

namespace Rehearsal.Json

variable {α : Type} {names : List String}

/-! ## Records -/

/-- What stands in a field: the member of that name, or the item at its place. -/
def Value.field? (names : List String) (name : String) : Value → Option Value
  | .obj ms => member? name ms
  | .arr items => member? name (names.zip items)
  | _ => none

/-- The members that are fields. -/
def fieldMembers {α : Type} (names : List String) (ms : List (String × α)) : List (String × α) :=
  ms.filter fun m => m.1 ∈ names

/-- A record can be read: an object in which no field stands twice, or an array that is not too
long. -/
def Value.Fits (names : List String) : Value → Prop
  | .obj ms => ((fieldMembers names ms).map Prod.fst).Nodup
  | .arr items => items.length ≤ names.length
  | _ => False

lemma fieldMembers_cons_of_mem {m : String × α} (h : m.1 ∈ names) (ms : List (String × α)) :
    fieldMembers names (m :: ms) = m :: fieldMembers names ms :=
  List.filter_cons_of_pos (decide_eq_true h)

lemma fieldMembers_cons_of_notMem {m : String × α} (h : m.1 ∉ names) (ms : List (String × α)) :
    fieldMembers names (m :: ms) = fieldMembers names ms :=
  List.filter_cons_of_neg (by simpa using h)

lemma itemNodes_eq (vs : List Value) : itemNodes vs = vs.map Value.toNode := by
  induction vs with
  | nil => rfl
  | cons v vs ih => rw [itemNodes, ih, List.map_cons]

/-- A member that is a field is taken, unless it stands there again. -/
lemma select_cons_of_mem {name : String} (hname : name ∈ names) (n : Node)
    (ns : List (Option String × Node)) :
    Entries.select names ((some name, n) :: ns)
      = (Entries.select names ns).bind fun found =>
          if name ∈ found.map Prod.fst then none else some ((name, n) :: found) := by
  have hany : ∀ found : List (String × Node),
      (found.any fun f => f.1 == name) = true ↔ name ∈ found.map Prod.fst := by
    intro found
    simp only [List.any_eq_true, beq_iff_eq, List.mem_map]
  rw [Entries.select]
  simp only [Option.bind_eq_bind, Option.bind_some, List.contains_iff_mem, hname, if_true, hany]
  rfl

lemma select_cons_of_notMem {name : String} (hname : name ∉ names) (n : Node)
    (ns : List (Option String × Node)) :
    Entries.select names ((some name, n) :: ns) = Entries.select names ns := by
  simp [Entries.select, hname]

/-- Of the members of an object, those that are fields are taken, if none of them stands there
twice. -/
lemma select_memberNodes (names : List String) (ms : List (String × Value)) :
    Entries.select names (memberNodes ms)
      = if ((fieldMembers names ms).map Prod.fst).Nodup
        then some ((fieldMembers names ms).map fun m => (m.1, m.2.toNode)) else none := by
  induction ms with
  | nil => rfl
  | cons m ms ih =>
      obtain ⟨name, v⟩ := m
      rw [memberNodes]
      by_cases hname : name ∈ names
      · rw [select_cons_of_mem hname, ih, fieldMembers_cons_of_mem hname, List.map_cons]
        simp only [List.nodup_cons]
        by_cases hnodup : ((fieldMembers names ms).map Prod.fst).Nodup
        · simp only [hnodup, if_true, and_true, Option.bind_some, List.map_map, Function.comp_def,
            ite_not, List.map_cons]
        · simp only [hnodup, if_false, and_false, Option.bind_none]
      · rw [select_cons_of_notMem hname, ih, fieldMembers_cons_of_notMem hname]

lemma member?_fieldMembers {name : String} (hname : name ∈ names) (ms : List (String × α)) :
    member? name (fieldMembers names ms) = member? name ms := by
  induction ms with
  | nil => rfl
  | cons m ms ih =>
      obtain ⟨k, a⟩ := m
      by_cases hk : k ∈ names
      · rw [fieldMembers_cons_of_mem hk, member?, member?, ih]
      · have hne : k ≠ name := by
          rintro rfl
          exact hk hname
        rw [fieldMembers_cons_of_notMem hk, member?, if_neg hne, ih]

/-- A record has room for its fields. -/
lemma room_of_read {room : Nat} {n : Node} {es : Entries}
    (h : Entries.read names room n = some es) : room = es.room + 1 := by
  unfold Entries.read at h
  split at h
  next =>
    obtain ⟨_, -, rfl⟩ := Option.map_eq_some_iff.mp h
    rfl
  next =>
    split_ifs at h
    cases h
    rfl
  next => cases h

/-- A value is read as a record just when it fits. -/
lemma exists_read_iff {room : Nat} {v : Value} :
    (∃ es, Entries.read names (room + 1) v.toNode = some es) ↔ v.Fits names := by
  cases v with
  | obj ms =>
      simp only [Value.toNode, Entries.read, select_memberNodes, Value.Fits]
      split_ifs with h <;> simp [h]
  | arr items =>
      simp only [Value.toNode, Entries.read, itemNodes_eq, List.length_map, Value.Fits]
      split_ifs with h <;> simp [h]
  | _ => simp [Value.toNode, Entries.read, Value.Fits]

lemma fits_of_read {room : Nat} {v : Value} {es : Entries}
    (h : Entries.read names room v.toNode = some es) : v.Fits names := by
  obtain rfl := room_of_read h
  exact exists_read_iff.mp ⟨es, h⟩

/-- What a record has under a name is what the value has there. -/
lemma member?_of_read {room : Nat} {v : Value} {es : Entries} {name : String}
    (h : Entries.read names room v.toNode = some es) (hname : name ∈ names) :
    member? name es.fields = (v.field? names name).map Value.toNode := by
  obtain rfl := room_of_read h
  cases v with
  | obj ms =>
      simp only [Value.toNode, Entries.read, select_memberNodes] at h
      split_ifs at h
      · have hfields := congrArg Entries.fields (Option.some.inj h)
        rw [← hfields, member?_map, member?_fieldMembers hname, Value.field?]
      · cases h
  | arr items =>
      simp only [Value.toNode, Entries.read, itemNodes_eq, List.length_map] at h
      split_ifs at h
      have hfields := congrArg Entries.fields (Option.some.inj h)
      rw [← hfields, Value.field?, ← member?_map, List.zip_map_right]
      rfl
  | _ => cases h

section fields

variable {room : Nat} {v : Value} {es : Entries} {name : String} {read : Reader α} {a default : α}

lemma required_eq_some_iff (h : Entries.read names room v.toNode = some es)
    (hname : name ∈ names) :
    es.required name read = some a
      ↔ ∃ w, v.field? names name = some w ∧ read es.room w.toNode = some a := by
  rw [Entries.required, member?_of_read h hname]
  cases v.field? names name <;> simp

lemma defaulted_eq_some_iff (h : Entries.read names room v.toNode = some es)
    (hname : name ∈ names) :
    es.defaulted name default read = some a
      ↔ (∃ w, v.field? names name = some w ∧ read es.room w.toNode = some a)
        ∨ v.field? names name = none ∧ default = a := by
  rw [Entries.defaulted, member?_of_read h hname]
  cases v.field? names name <;> simp

end fields

/-! ## Texts, numbers and lists -/

lemma word32_eq_some_iff {room n : Nat} {v : Value} :
    Reader.word32 room v.toNode = some n ↔ n < 0x100000000 ∧ v = .num (.int n) := by
  constructor
  · intro h
    obtain ⟨i, hi, rfl⟩ := Option.map_eq_some_iff.mp h
    cases v with
    | num m =>
        cases m with
        | int j =>
            simp only [Value.toNode, Reader.integer, Option.ite_none_right_eq_some,
              Bool.and_eq_true, decide_eq_true_eq, Option.some.injEq] at hi
            obtain ⟨⟨hlow, hhigh⟩, rfl⟩ := hi
            exact ⟨by omega, by rw [Int.toNat_of_nonneg hlow]⟩
        | real x => cases hi
    | _ => cases hi
  · rintro ⟨hn, rfl⟩
    have hbounds : (0 : Int) ≤ n ∧ (n : Int) ≤ 0xFFFFFFFF := by omega
    simp [Value.toNode, Reader.word32, Reader.integer, hbounds]

lemma items_eq_some_iff {read : Reader α} {room : Nat} {vs : List Value} {as : List α} :
    Reader.items read room (itemNodes vs) = some as
      ↔ List.Forall₂ (fun v a => read room v.toNode = some a) vs as := by
  induction vs generalizing as with
  | nil => cases as <;> simp [itemNodes, Reader.items]
  | cons v vs ih =>
      simp only [itemNodes, Reader.items, Option.bind_eq_bind, Option.bind_eq_some_iff,
        Option.pure_def, Option.some.injEq]
      cases as with
      | nil => simp
      | cons a as => simp [ih]

/-- A list is read just when each of its items is. -/
lemma list_eq_some_iff {read : Reader α} {room : Nat} {v : Value} {as : List α} :
    Reader.list read (room + 1) v.toNode = some as
      ↔ ∃ vs, v = .arr vs ∧ List.Forall₂ (fun v a => read room v.toNode = some a) vs as := by
  cases v with
  | arr vs => simp [Value.toNode, Reader.list, items_eq_some_iff]
  | _ => simp [Value.toNode, Reader.list]

end Rehearsal.Json
