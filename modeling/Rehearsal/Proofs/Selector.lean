import Mathlib
import Rehearsal.Proofs.Stored

/-!
# Selectors by name

A map of selectors is a list that grows at its end and refuses a name that it has.  Whatever was put
into it, it holds the first entry of each name, in order.

* `firsts`: the first entry of each name.
* `SelectorMap.insert_of_mem`, `insert_of_notMem`: what one insertion comes to, refused or not.
  `SelectorMap.entries_offerAll` says it of any number of them, from any map.
* `SelectorMap.insertAll_eq_ok_iff`: a list is taken whole **just when the map has all of it**, at
  its end.  A map cannot have a name twice, so this says which lists are refused.
* `SelectorMap.reader_eq_some_iff`: an object is read as the map that has its members, in order.
* `SelectorMap.decode_compact`: a written map is read as it was.
* `SelectorMap.holds_firsts`: all of this, for a map with its history and for a document.
-/

namespace Rehearsal

/-! ## Lists of entries -/

section entries

variable {α β : Type}

/-- The first entry of each name, in order. -/
def firsts : List (String × α) → List (String × α)
  | [] => []
  | e :: es => e :: (firsts es).filter fun f => f.1 ≠ e.1

lemma lookup_cons_eq (name : String) (e : String × α) (es : List (String × α)) :
    (e :: es).lookup name = (if name = e.1 then some e.2 else none).or (es.lookup name) := by
  obtain ⟨k, a⟩ := e
  rw [List.lookup_cons]
  split_ifs with hk
  · simp [hk]
  · simp [beq_eq_false_iff_ne.mpr hk]

/-- A list whose members can be related one by one can be related as a whole. -/
lemma exists_forall₂_iff {R : α → β → Prop} {as : List α} :
    (∃ bs, List.Forall₂ R as bs) ↔ ∀ a ∈ as, ∃ b, R a b := by
  induction as with
  | nil => simp
  | cons a as ih =>
      rw [List.forall_mem_cons, ← ih]
      constructor
      · rintro ⟨_, _ | ⟨hab, hbs⟩⟩
        exact ⟨⟨_, hab⟩, _, hbs⟩
      · rintro ⟨⟨b, hab⟩, bs, hbs⟩
        exact ⟨b :: bs, .cons hab hbs⟩

namespace Json

variable {read : Reader α} {room : Nat} {ns : List (Option String × Node)} {es : List (String × α)}

lemma member?_eq_lookup (name : String) (es : List (String × α)) :
    member? name es = es.lookup name := by
  induction es with
  | nil => rfl
  | cons e es ih =>
      obtain ⟨k, a⟩ := e
      rw [member?, lookup_cons_eq, ← ih]
      by_cases hk : k = name
      · rw [if_pos hk, if_pos hk.symm, Option.some_or]
      · rw [if_neg hk, if_neg (Ne.symm hk), Option.none_or]

/-- A member of an object is read as an entry: its name is a text, and its value is read. -/
def ReadsMember (read : Reader α) (room : Nat) (n : Option String × Node) (e : String × α) : Prop :=
  n.1 = some e.1 ∧ read room n.2 = some e.2

/-- Members are read one by one. -/
lemma members_eq_some_iff :
    Reader.members read room ns = some es ↔ List.Forall₂ (ReadsMember read room) ns es := by
  induction ns generalizing es with
  | nil => cases es <;> simp [Reader.members]
  | cons n ns ih =>
      obtain ⟨name, n⟩ := n
      simp only [Reader.members, Option.bind_eq_bind, Option.bind_eq_some_iff, Option.pure_def,
        Option.some.injEq]
      constructor
      · rintro ⟨name, rfl, s, hs, es, hes, rfl⟩
        exact .cons ⟨rfl, hs⟩ (ih.mp hes)
      · rintro (_ | ⟨⟨hname, hs⟩, hes⟩)
        exact ⟨_, hname, _, hs, _, ih.mpr hes, rfl⟩

lemma names_of_reads (h : List.Forall₂ (ReadsMember read room) ns es) :
    ns.map Prod.fst = (es.map Prod.fst).map some := by
  induction h with
  | nil => rfl
  | cons hname _ ih => rw [List.map_cons, hname.1, ih, List.map_cons, List.map_cons]

end Json

end entries

open Json

/-- Any selector is read as it was written. -/
lemma Selector.restores (s : Selector) (room : Nat) :
    Restores Selector.reader (room + 1) s.toValue s := by
  obtain ⟨kind, value⟩ := s
  refine ⟨?_, ?_⟩
  · simp [toValue, Json.record, present]
  · cases kind <;> rfl

namespace SelectorMap

variable {m m' : SelectorMap} {e : String × Selector} {es : List (String × Selector)}

/-! ## Insertions -/

/-- The names of a map. -/
def names (m : SelectorMap) : List String := m.entries.map Prod.fst

/-- A map is its entries. -/
lemma eq_of_entries (h : m.entries = m'.entries) : m = m' := by
  cases m
  cases m'
  cases h
  rfl

/-- The map after insertions, whether they fail or not. -/
def offerAll (m : SelectorMap) (es : List (String × Selector)) : SelectorMap :=
  es.foldl (fun m e => (m.insert e.1 e.2).1) m

/-- A name that is taken is refused, and the map stays as it is. -/
lemma insert_of_mem {name : String} {s : Selector} (h : name ∈ m.names) :
    m.insert name s = (m, .error (.duplicateSelector name)) :=
  dif_pos h

lemma insert_of_notMem {name : String} {s : Selector} (h : name ∉ m.names) :
    m.insert name s = (⟨m.entries ++ [(name, s)], nodup_append_one m.distinct h⟩, .ok ()) :=
  dif_neg h

/-- **Insertions add the first entry of each new name**, in order. -/
lemma entries_offerAll (m : SelectorMap) (es : List (String × Selector)) :
    (m.offerAll es).entries = m.entries ++ (firsts es).filter fun e => e.1 ∉ m.names := by
  induction es generalizing m with
  | nil => simp [offerAll, firsts]
  | cons e es ih =>
      have hrest : m.offerAll (e :: es) = (m.insert e.1 e.2).1.offerAll es := rfl
      rw [hrest, ih, firsts]
      by_cases he : e.1 ∈ m.names
      · -- a name that the map does not have is none of the entry that is refused
        have hsame : ∀ f ∈ firsts es, (f.1 ∉ m.names ∧ f.1 ≠ e.1) ↔ f.1 ∉ m.names := by
          intro f _
          refine and_iff_left_of_imp fun hf heq => hf ?_
          rwa [heq]
        rw [insert_of_mem he, List.filter_cons_of_neg (by simpa using he), List.filter_filter]
        congr 1
        exact List.filter_congr fun f hf => by simpa using (hsame f hf).symm
      · have hnames : names (m.insert e.1 e.2).1 = m.names ++ [e.1] := by
          rw [insert_of_notMem he, names, List.map_append, List.map_singleton, names]
        rw [hnames, insert_of_notMem he, List.filter_cons_of_pos (by simpa using he),
          List.filter_filter, List.append_assoc, List.singleton_append]
        congr 2
        exact List.filter_congr fun f _ => by simp

/-- What is found under a name is the entry of that name. -/
lemma get?_eq_some_iff {name : String} {s : Selector} :
    m.get? name = some s ↔ (name, s) ∈ m.entries :=
  ⟨mem_of_member?, member?_of_mem m.distinct⟩

/-- Something is found under the names of a map. -/
lemma mem_names_iff {name : String} : name ∈ m.names ↔ ∃ s, m.get? name = some s := by
  simp [names, get?_eq_some_iff]

lemma get?_insert (m : SelectorMap) (e : String × Selector) (name : String) :
    (m.insert e.1 e.2).1.get? name = (m.get? name).or (if name = e.1 then some e.2 else none) := by
  by_cases he : e.1 ∈ m.names
  · rw [insert_of_mem he]
    split_ifs with hname
    · obtain ⟨s, hs⟩ := mem_names_iff.mp he
      rw [hname, hs, Option.some_or]
    · rw [Option.or_none]
  · rw [insert_of_notMem he, get?, get?, member?_eq_lookup, member?_eq_lookup, List.lookup_append,
      lookup_cons_eq, List.lookup_nil, Option.or_none]

/-- **Under a name, the entry that was first is found.** -/
lemma get?_offerAll (m : SelectorMap) (es : List (String × Selector)) (name : String) :
    (m.offerAll es).get? name = (m.get? name).or (es.lookup name) := by
  induction es generalizing m with
  | nil => simp [offerAll]
  | cons e es ih =>
      have hrest : m.offerAll (e :: es) = (m.insert e.1 e.2).1.offerAll es := rfl
      rw [hrest, ih, get?_insert, Option.or_assoc, lookup_cons_eq]

/-! ## Reading -/

/-- **A list is taken whole just when the map has it at its end.** -/
lemma insertAll_eq_ok_iff :
    m.insertAll es = (m', .ok ()) ↔ m'.entries = m.entries ++ es := by
  refine ⟨entries_of_insertAll, fun h => ?_⟩
  induction es generalizing m with
  | nil =>
      rw [List.append_nil] at h
      rw [eq_of_entries h, insertAll]
  | cons e es ih =>
      have hnew : e.1 ∉ m.entries.map Prod.fst := by
        have hdistinct := m'.distinct
        rw [h, List.map_append, List.nodup_append] at hdistinct
        intro hmem
        exact hdistinct.2.2 _ hmem _ (List.mem_map.mpr ⟨e, List.mem_cons_self, rfl⟩) rfl
      rw [insertAll, insert_of_notMem hnew]
      exact ih (by rw [h, List.append_assoc, List.singleton_append])

/-- A list is a map just when the map has it as its entries. -/
lemma ofEntries?_eq_some_iff : ofEntries? es = some m ↔ m.entries = es := by
  refine ⟨entries_of_ofEntries?, fun h => ?_⟩
  have hall : empty.insertAll es = (m, .ok ()) := insertAll_eq_ok_iff.mpr h
  rw [ofEntries?, hall]

variable {room : Nat} {ns : List (Option String × Node)}

/-- **An object is read as the map that has its members**, in order. -/
lemma reader_eq_some_iff : reader (room + 1) (.obj ns) = some m
    ↔ List.Forall₂ (ReadsMember Selector.reader room) ns m.entries := by
  rw [← members_eq_some_iff]
  constructor
  · intro h
    obtain ⟨es, hes, hm⟩ := Option.bind_eq_some_iff.mp h
    rwa [ofEntries?_eq_some_iff.mp hm]
  · intro h
    exact Option.bind_eq_some_iff.mpr ⟨_, h, ofEntries?_eq_some_iff.mpr rfl⟩

/-- **It is read just when its names are distinct and each of its members is read.** -/
lemma exists_reader_iff : (∃ m, reader (room + 1) (.obj ns) = some m)
    ↔ (ns.map Prod.fst).Nodup ∧ ∀ n ∈ ns, ∃ e, ReadsMember Selector.reader room n e := by
  simp only [reader_eq_some_iff, ← exists_forall₂_iff]
  constructor
  · rintro ⟨m, hm⟩
    refine ⟨?_, _, hm⟩
    rw [names_of_reads hm]
    exact m.distinct.map (Option.some_injective String)
  · rintro ⟨hdistinct, es, hes⟩
    rw [names_of_reads hes] at hdistinct
    exact ⟨⟨es, hdistinct.of_map some⟩, hes⟩

/-! ## Writing -/

/-- **A written map is read as it was**, its order included. -/
lemma decode_compact (m : SelectorMap) : decode reader m.toValue.compact = some m := by
  have hvalue : m.toValue = .obj (membersOf Selector.toValue m.entries) := rfl
  have hwhole : m.toValue.Whole := by
    rw [hvalue]
    exact whole_membersOf fun e _ => (e.2.restores 0).whole
  have hmembers : Reader.members Selector.reader 126
      (memberNodes (membersOf Selector.toValue m.entries)) = some m.entries :=
    members_of_restores fun e _ => e.2.restores 125
  rw [decode, parse_compact hwhole, hvalue, Value.toNode]
  exact reader_eq_some_iff.mpr (members_eq_some_iff.mp hmembers)

/-- **A map holds the first entry of each name, in order.**  After any insertions its names are
distinct, the first entry of a name is what is found under it, and an insertion fails just when
the name was inserted before, as a duplicate, and then changes nothing.  An object is read as a map
just when its names are distinct and its members are read, and the map has these in their order; and
a map that was written is read as it was. -/
theorem holds_firsts (inserted : List (String × Selector)) (room : Nat)
    (ns : List (Option String × Node)) (m : SelectorMap) :
    let made := empty.offerAll inserted
    made.names.Nodup
      ∧ made.entries = firsts inserted
      ∧ (∀ name s, made.get? name = some s ↔ (name, s) ∈ made.entries)
      ∧ (∀ name, made.get? name = inserted.lookup name)
      ∧ (∀ name s, (made.insert name s).2 = .ok () ↔ name ∉ inserted.map Prod.fst)
      ∧ (∀ name s f, (made.insert name s).2 = .error f →
          (made.insert name s).1 = made ∧ f = .duplicateSelector name)
      ∧ ((∃ m, reader (room + 1) (.obj ns) = some m)
        ↔ (ns.map Prod.fst).Nodup ∧ ∀ n ∈ ns, ∃ e, ReadsMember Selector.reader room n e)
      ∧ (reader (room + 1) (.obj ns) = some m
        ↔ List.Forall₂ (ReadsMember Selector.reader room) ns m.entries)
      ∧ decode reader m.toValue.compact = some m := by
  have hget : ∀ name, (empty.offerAll inserted).get? name = inserted.lookup name :=
    get?_offerAll empty inserted
  have hnames : ∀ name, name ∈ (empty.offerAll inserted).names
      ↔ name ∈ inserted.map Prod.fst := by
    intro name
    rw [mem_names_iff, hget, ← Option.isSome_iff_exists, List.lookup_isSome_iff, List.mem_map]
    refine exists_congr fun e => and_congr_right fun _ => ?_
    rw [beq_iff_eq, eq_comm]
  refine ⟨(empty.offerAll inserted).distinct, ?_, fun _ _ => get?_eq_some_iff, hget, ?_, ?_,
    exists_reader_iff, reader_eq_some_iff, decode_compact m⟩
  · rw [entries_offerAll]
    simp [empty, names]
  · intro name s
    rw [← hnames]
    by_cases hname : name ∈ (empty.offerAll inserted).names
    · simp [insert_of_mem hname, hname]
    · simp [insert_of_notMem hname, hname]
  · intro name s f hf
    by_cases hname : name ∈ (empty.offerAll inserted).names
    · rw [insert_of_mem hname] at hf ⊢
      exact ⟨rfl, (Except.error.inj hf).symm⟩
    · rw [insert_of_notMem hname] at hf
      cases hf

end SelectorMap

end Rehearsal
