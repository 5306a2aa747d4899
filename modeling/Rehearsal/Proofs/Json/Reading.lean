import Mathlib
import Rehearsal.Json.Printer
import Rehearsal.Json.Parser
import Rehearsal.Proofs.Json.Number
import Rehearsal.Proofs.Text.Literal

/-!
# A compact document is read back

The text of a value, without any space, is read as that value.  The numbers must be integers that
a document can hold as such (`Value.Whole`): the text of any other number is only an attempt at it.

* `Numeral.value?_digits`: a written integer is read as that integer.
* `readNode_compact`: a written value is read **up to its end**, whatever may follow a value.  The
  induction is on the value, with the bound on the depth of the recursion kept general.
* `parse_compact`: the document of a written value.
-/

namespace Rehearsal.Json

/-- What may follow a value: nothing, or a comma or a bracket. -/
def Follows (rest : List Char) : Prop := ∀ c ∈ rest.head?, c ∈ [',', ']', '\x7d']

lemma Follows.nil : Follows [] := fun _ hc => by cases hc

lemma Follows.cons {c : Char} {rest : List Char} (h : c ∈ [',', ']', '\x7d']) :
    Follows (c :: rest) := by
  intro d hd
  rwa [← Option.some.inj hd]

/-- What follows a value goes on in none of its characters. -/
lemma Follows.stops {rest : List Char} (h : Follows rest) {p : Char → Bool}
    (hp : [',', ']', '\x7d'].any p = false) : Stops p rest := fun c hc => by
  simpa using List.any_eq_false.mp hp c (h c hc)

/-! ## Numerals -/

namespace Numeral

lemma digitsOf_of_lt {n : Nat} (h : n < 10) : digitsOf n = [n] := by
  have hchar : ∀ m < 10, (Nat.digitChar m).toNat - 48 = m := by decide
  rw [digitsOf, Nat.toDigits_of_lt_base h, List.map_singleton, hchar n h]

lemma digitsOf_of_le {n : Nat} (h : 10 ≤ n) :
    digitsOf n = digitsOf (n / 10) ++ digitsOf (n % 10) := by
  rw [digitsOf, Nat.toDigits_of_base_le (by decide) h, List.map_append, digitsOf, digitsOf,
    Nat.toDigits_of_lt_base (Nat.mod_lt n (by decide)), List.map_singleton]

/-- Only zero is written with a zero in front. -/
lemma head?_digitsOf {n : Nat} (h : 0 < n) : (digitsOf n).head? ≠ some 0 := by
  induction n using Nat.strong_induction_on with
  | _ n ih =>
      by_cases hn : n < 10
      · rw [digitsOf_of_lt hn]
        simpa using h.ne'
      · have hmore := ih (n / 10) (by omega) (by omega)
        rw [digitsOf_of_le (by omega), List.head?_append_of_ne_nil _ (digitsOf_ne_nil _)]
        exact hmore

lemma readWhole_digits (n : Nat) {rest : List Char} (h : Stops Char.isDigit rest) :
    readWhole ((Number.digits n).toList ++ rest) = some (digitsOf n, rest) := by
  rw [readWhole, takeDigits_digits n h]
  cases hds : digitsOf n with
  | nil => exact absurd hds (digitsOf_ne_nil n)
  | cons d ds =>
      by_cases hd : d = 0
      · -- a zero in front is the only digit
        have hzero : n = 0 := by
          by_contra hn
          exact head?_digitsOf (Nat.pos_of_ne_zero hn) (by rw [hds, hd, List.head?_cons])
        rw [hzero, digitsOf_of_lt (by decide)] at hds
        cases hds
        rfl
      · obtain ⟨k, rfl⟩ := Nat.exists_eq_succ_of_ne_zero hd
        rfl

lemma readFraction_of_follows {rest : List Char} (h : Follows rest) :
    readFraction rest = some ([], rest) := by
  refine readFraction.eq_2 rest fun cs hcs => ?_
  have hpoint := h '.' (by rw [hcs]; rfl)
  revert hpoint
  decide

lemma readExponent_of_follows {rest : List Char} (h : Follows rest) :
    readExponent rest = some (none, rest) := by
  cases rest with
  | nil => rfl
  | cons c rest =>
      have hc : ¬(c = 'e' || c = 'E') = true := by
        have hmark := h c rfl
        simp only [List.mem_cons, List.not_mem_nil, or_false] at hmark
        rcases hmark with rfl | rfl | rfl <;> decide
      rw [readExponent.eq_def]
      exact if_neg hc

/-- The digits of a number are a numeral. -/
lemma read_digits (negative : Bool) (n : Nat) {rest : List Char} (h : Follows rest) :
    read negative ((Number.digits n).toList ++ rest)
      = some (⟨negative, digitsOf n, [], none⟩, rest) := by
  have hdigit : Stops Char.isDigit rest := h.stops (by rfl)
  simp only [read, readWhole_digits n hdigit, readFraction_of_follows h, readExponent_of_follows h,
    Option.bind_eq_bind, Option.bind_some, Option.pure_def]

lemma le_foldl (acc : Nat) (ds : List Nat) : acc ≤ ds.foldl (fun n d => n * 10 + d) acc := by
  induction ds generalizing acc with
  | nil => exact le_rfl
  | cons d ds ih => exact le_trans (by omega) (ih (acc * 10 + d))

/-- Digits are gathered as long as the number fits a word. -/
lemma gather_eq {acc : Nat} {ds : List Nat}
    (h : ds.foldl (fun n d => n * 10 + d) acc ≤ maxWord) :
    gather acc ds = (ds.foldl (fun n d => n * 10 + d) acc, []) := by
  induction ds generalizing acc with
  | nil => rfl
  | cons d ds ih =>
      rw [List.foldl_cons] at h ⊢
      rw [gather, if_pos (le_trans (le_foldl _ ds) h), ih h]

/-- **Written integers are read as integers**, as far as a word or its negative reaches. -/
lemma value?_digits (negative : Bool) {n : Nat} (h : n ≤ maxWord)
    (hneg : negative = true → 0 < n ∧ n ≤ 0x8000000000000000) :
    value? ⟨negative, digitsOf n, [], none⟩
      = some (.int (if negative then -(n : Int) else n)) := by
  have hgather : gather 0 (digitsOf n) = (n, []) := by
    have hvalue := ofDigits_digitsOf n
    rw [ofDigits] at hvalue
    rw [gather_eq (by rw [hvalue]; exact h), hvalue]
  simp only [value?, hgather]
  cases negative with
  | false => rfl
  | true =>
      obtain ⟨hpos, hle⟩ := hneg rfl
      simp [hpos, hle]

end Numeral

/-- An integer that a document holds as such. -/
def Number.Whole : Number → Prop
  | .int n => -0x8000000000000000 ≤ n ∧ n ≤ 0xFFFFFFFFFFFFFFFF
  | .real _ => False

instance : DecidablePred Number.Whole
  | .int _ => inferInstanceAs (Decidable (_ ∧ _))
  | .real _ => isFalse id

/-! ## Values -/

mutual

/-- All numbers of the value are integers that a document holds as such. -/
def Value.Whole : Value → Prop
  | .num n => n.Whole
  | .arr items => WholeItems items
  | .obj members => WholeMembers members
  | _ => True

/-- The same for all items. -/
def WholeItems : List Value → Prop
  | [] => True
  | v :: rest => v.Whole ∧ WholeItems rest

/-- The same for all members. -/
def WholeMembers : List (String × Value) → Prop
  | [] => True
  | (_, v) :: rest => v.Whole ∧ WholeMembers rest

end

mutual

/-- Wholeness can be decided. -/
def decideWhole : (v : Value) → Decidable v.Whole
  | .null => isTrue trivial
  | .bool _ => isTrue trivial
  | .str _ => isTrue trivial
  | .num n => inferInstanceAs (Decidable n.Whole)
  | .arr items => decideWholeItems items
  | .obj members => decideWholeMembers members

/-- The same for all items. -/
def decideWholeItems : (vs : List Value) → Decidable (WholeItems vs)
  | [] => isTrue trivial
  | v :: rest => @instDecidableAnd _ _ (decideWhole v) (decideWholeItems rest)

/-- The same for all members. -/
def decideWholeMembers : (ms : List (String × Value)) → Decidable (WholeMembers ms)
  | [] => isTrue trivial
  | (_, v) :: rest => @instDecidableAnd _ _ (decideWhole v) (decideWholeMembers rest)

end

instance : DecidablePred Value.Whole := decideWhole

@[simp] lemma whole_null : Value.null.Whole := trivial

@[simp] lemma whole_bool (b : Bool) : (Value.bool b).Whole := trivial

@[simp] lemma whole_str (s : String) : (Value.str s).Whole := trivial

lemma wholeItems_iff {vs : List Value} : WholeItems vs ↔ ∀ v ∈ vs, v.Whole := by
  induction vs with
  | nil => simp [WholeItems]
  | cons v vs ih => rw [WholeItems, ih, List.forall_mem_cons]

lemma wholeMembers_iff {ms : List (String × Value)} : WholeMembers ms ↔ ∀ m ∈ ms, m.2.Whole := by
  induction ms with
  | nil => simp [WholeMembers]
  | cons m ms ih => rw [WholeMembers, ih, List.forall_mem_cons]

@[simp] lemma whole_arr {vs : List Value} : (Value.arr vs).Whole ↔ ∀ v ∈ vs, v.Whole :=
  wholeItems_iff

@[simp] lemma whole_obj {ms : List (String × Value)} :
    (Value.obj ms).Whole ↔ ∀ m ∈ ms, m.2.Whole := wholeMembers_iff

/-! ## Reading values -/

lemma skipSpace_cons {c : Char} (h : isSpace c = false) (cs : List Char) :
    skipSpace (c :: cs) = c :: cs :=
  List.dropWhile_cons_of_neg (by simp [h])

lemma digits_begins (n : Nat) : ∃ c cs, (Number.digits n).toList = c :: cs
    ∧ c.isDigit = true ∧ isSpace c = false := by
  have hne : (Number.digits n).toList ≠ [] := by
    rw [Number.digits, String.toList_ofList]
    exact Nat.toDigits_ne_nil
  obtain ⟨c, cs, hds⟩ := List.exists_cons_of_ne_nil hne
  have hc : c.isDigit = true := by
    have hmem : c ∈ (Number.digits n).toList := by
      rw [hds]
      exact List.mem_cons_self
    rw [Number.digits, String.toList_ofList] at hmem
    exact Nat.isDigit_of_mem_toDigits (by decide) (by decide) hmem
  refine ⟨c, cs, hds, hc, Bool.eq_false_iff.mpr fun hspace => ?_⟩
  simp only [isSpace, Bool.or_eq_true, beq_iff_eq] at hspace
  rcases hspace with ((rfl | rfl) | rfl) | rfl <;> exact absurd hc (by decide)

/-- Digits open no array, no object and no word. -/
lemma readNode_digits (fuel n : Nat) {rest : List Char} (h : Follows rest) :
    readNode (fuel + 1) ((Number.digits n).toList ++ rest)
      = some (.num (Numeral.value? ⟨false, Numeral.digitsOf n, [], none⟩), rest) := by
  have hread := Numeral.read_digits false n h
  obtain ⟨c, cs, hds, hc, hspace⟩ := digits_begins n
  rw [hds, List.cons_append] at hread
  rw [hds, List.cons_append, readNode, skipSpace_cons hspace]
  split
  case h_8 => simp only [hread, Option.bind_eq_bind, Option.bind_some, Option.pure_def]
  all_goals
    next heq =>
      obtain ⟨rfl, -⟩ := List.cons.inj heq
      exact absurd hc (by decide)

/-- Behind a sign they are the digits of a negative number. -/
lemma readNode_negative (fuel n : Nat) {rest : List Char} (h : Follows rest) :
    readNode (fuel + 1) ('-' :: ((Number.digits n).toList ++ rest))
      = some (.num (Numeral.value? ⟨true, Numeral.digitsOf n, [], none⟩), rest) := by
  rw [readNode, skipSpace_cons (by decide)]
  simp only [Numeral.read_digits true n h, Option.bind_eq_bind, Option.bind_some, Option.pure_def]

lemma readNode_number (fuel : Nat) {n : Number} (hn : n.Whole) {rest : List Char}
    (h : Follows rest) :
    readNode (fuel + 1) (n.text.toList ++ rest) = some (.num (some n), rest) := by
  cases n with
  | real x => cases hn
  | int n =>
      obtain ⟨hlow, hhigh⟩ := hn
      rw [Number.text, Number.intText]
      split_ifs with hneg
      · have hsign : "-".toList = ['-'] := rfl
        have habs : (-(n.natAbs : Int)) = n := by omega
        rw [String.toList_append, hsign, List.singleton_append, List.cons_append,
          readNode_negative fuel _ h, Numeral.value?_digits true (by simp [Numeral.maxWord]; omega)
            fun _ => by omega, if_pos rfl, habs]
      · have habs : ((n.natAbs : Int)) = n := by omega
        rw [readNode_digits fuel _ h, Numeral.value?_digits false (by simp [Numeral.maxWord]; omega)
            (absurd · Bool.false_ne_true), if_neg Bool.false_ne_true, habs]

lemma readString_quote (s : String) (rest : List Char) :
    readString (s.toList.flatMap Text.escape ++ '"' :: rest) = some (some s, rest) := by
  rw [readString, Text.Literal.readBody_flatMap_escape]
  simp

lemma toList_quote (s : String) :
    (Text.quote s).toList = '"' :: (s.toList.flatMap Text.escape ++ ['"']) := by
  rw [Text.quote, String.toList_ofList, Text.quoteChars]

lemma readNode_string (fuel : Nat) (s : String) (rest : List Char) :
    readNode (fuel + 1) ((Text.quote s).toList ++ rest) = some (.str (some s), rest) := by
  rw [toList_quote, List.cons_append, List.append_assoc, List.singleton_append, readNode,
    skipSpace_cons (by decide)]
  simp only [readString_quote, Option.bind_eq_bind, Option.bind_some, Option.pure_def]

/-- Behind its brackets and between them, a value begins with no space, and an array with no
end. -/
def Begins (cs : List Char) : Prop := ∃ c rest, cs = c :: rest ∧ isSpace c = false ∧ c ≠ ']'

lemma Begins.append {cs : List Char} (h : Begins cs) (rest : List Char) : Begins (cs ++ rest) := by
  obtain ⟨c, more, rfl, hc⟩ := h
  exact ⟨c, more ++ rest, rfl, hc⟩

/-- How a written value begins. -/
lemma begins_compact {v : Value} (h : v.Whole) : Begins v.compact.toList := by
  have hlead : ∀ {opening : String} (rest : String), Begins opening.toList →
      Begins (opening ++ rest).toList := by
    intro opening rest hopening
    rw [String.toList_append]
    exact hopening.append rest.toList
  cases v with
  | null => exact ⟨'n', _, rfl, by decide, by decide⟩
  | bool b => cases b <;> exact ⟨_, _, rfl, by decide, by decide⟩
  | num n =>
      cases n with
      | real x => cases h
      | int n =>
          obtain ⟨c, cs, hds, hc, hspace⟩ := digits_begins n.natAbs
          rw [Value.compact, Number.text, Number.intText]
          split_ifs
          · exact hlead _ ⟨'-', _, rfl, by decide, by decide⟩
          · refine ⟨c, cs, hds, hspace, ?_⟩
            rintro rfl
            exact absurd hc (by decide)
  | str s => exact ⟨'"', _, toList_quote s, by decide, by decide⟩
  | arr items =>
      rw [Value.compact]
      exact hlead _ (hlead _ ⟨'[', _, rfl, by decide, by decide⟩)
  | obj members =>
      rw [Value.compact]
      exact hlead _ (hlead _ ⟨'\x7b', _, rfl, by decide, by decide⟩)

/-- The text between the brackets of an array that is not empty. -/
def itemsText (v : Value) (vs : List Value) : List Char :=
  (joinWith "," (itemTexts (v :: vs))).toList

/-- The text between the braces of an object that is not empty. -/
def membersText (m : String × Value) (ms : List (String × Value)) : List Char :=
  (joinWith "," (memberTexts (m :: ms))).toList

lemma itemsText_cons (v w : Value) (vs : List Value) :
    itemsText v (w :: vs) = v.compact.toList ++ ',' :: itemsText w vs := by
  have hcomma : ",".toList = [','] := rfl
  simp only [itemsText, itemTexts, joinWith, String.toList_append, hcomma, List.append_assoc,
    List.singleton_append]

lemma membersText_cons (m n : String × Value) (ms : List (String × Value)) :
    membersText m (n :: ms) = membersText m [] ++ ',' :: membersText n ms := by
  have hcomma : ",".toList = [','] := rfl
  simp only [membersText, memberTexts, joinWith, String.toList_append, hcomma, List.append_assoc,
    List.singleton_append]

lemma membersText_one (name : String) (v : Value) (rest : List Char) :
    membersText (name, v) [] ++ rest
      = '"' :: (name.toList.flatMap Text.escape ++ '"' :: ':' :: (v.compact.toList ++ rest)) := by
  have hcolon : ":".toList = [':'] := rfl
  simp only [membersText, memberTexts, joinWith, String.toList_append, toList_quote, hcolon,
    List.append_assoc, List.cons_append, List.nil_append]

lemma toList_compact_arr (v : Value) (vs : List Value) :
    (Value.arr (v :: vs)).compact.toList = '[' :: (itemsText v vs ++ [']']) := by
  have hopen : "[".toList = ['['] := rfl
  have hclose : "]".toList = [']'] := rfl
  rw [Value.compact, String.toList_append, String.toList_append, hopen, hclose]
  rfl

lemma toList_compact_obj (m : String × Value) (ms : List (String × Value)) :
    (Value.obj (m :: ms)).compact.toList = '\x7b' :: (membersText m ms ++ ['\x7d']) := by
  have hopen : "\x7b".toList = ['\x7b'] := rfl
  have hclose : "\x7d".toList = ['\x7d'] := rfl
  rw [Value.compact, String.toList_append, String.toList_append, hopen, hclose]
  rfl

/-- Members begin with the quoted name of the first one. -/
lemma exists_membersText_append (m : String × Value) (ms : List (String × Value))
    (rest : List Char) : ∃ cs, membersText m ms ++ rest = '"' :: cs := by
  cases ms with
  | nil => exact ⟨_, membersText_one m.1 m.2 rest⟩
  | cons n ms =>
      rw [membersText_cons, List.append_assoc]
      exact ⟨_, membersText_one m.1 m.2 _⟩

lemma begins_itemsText {v : Value} (h : v.Whole) (vs : List Value) : Begins (itemsText v vs) := by
  cases vs with
  | nil => exact begins_compact h
  | cons w vs =>
      rw [itemsText_cons]
      exact (begins_compact h).append _

lemma readNode_arr (fuel : Nat) {cs : List Char} (h : Begins cs) :
    readNode (fuel + 1) ('[' :: cs)
      = (readItems fuel cs).map fun q => (.arr q.1, q.2) := by
  obtain ⟨c, rest, rfl, hspace, hend⟩ := h
  rw [readNode, skipSpace_cons (by decide)]
  simp only [skipSpace_cons hspace]
  split
  next heq =>
    obtain ⟨rfl, -⟩ := List.cons.inj heq
    exact absurd rfl hend
  next => cases readItems fuel (c :: rest) <;> rfl

lemma readNode_obj (fuel : Nat) (cs : List Char) :
    readNode (fuel + 1) ('\x7b' :: '"' :: cs)
      = (readMembers fuel ('"' :: cs)).map fun q => (.obj q.1, q.2) := by
  rw [readNode, skipSpace_cons (by decide)]
  simp only [skipSpace_cons (c := '"') (by decide)]
  split
  next heq => cases heq
  next => cases readMembers fuel ('"' :: cs) <;> rfl

mutual

/-- **A written value is read back, up to its end.** -/
theorem readNode_compact : ∀ (v : Value) (fuel : Nat) (rest : List Char), v.Whole →
    Follows rest → 2 * v.compact.toList.length ≤ fuel →
    readNode fuel (v.compact.toList ++ rest) = some (v.toNode, rest)
  | v, 0 => fun rest h hrest hfuel => by
      obtain ⟨c, cs, hv, -⟩ := begins_compact h
      rw [hv, List.length_cons] at hfuel
      omega
  | .null, _ + 1 => fun _ _ _ _ => rfl
  | .bool b, _ + 1 => fun _ _ _ _ => by cases b <;> rfl
  | .num n, fuel + 1 => fun rest h hrest _ => by
      rw [Value.compact, Value.toNode]
      exact readNode_number fuel h hrest
  | .str s, fuel + 1 => fun rest _ _ _ => by
      rw [Value.compact, Value.toNode]
      exact readNode_string fuel s rest
  | .arr [], _ + 1 => fun _ _ _ _ => rfl
  | .arr (v :: vs), fuel + 1 => fun rest h _ hfuel => by
      rw [toList_compact_arr, List.length_cons, List.length_append, List.length_singleton]
        at hfuel
      have hitems := readItems_compact v vs fuel rest h (by omega)
      rw [toList_compact_arr, List.cons_append, List.append_assoc, List.singleton_append,
        readNode_arr fuel ((begins_itemsText h.1 vs).append _), hitems]
      rfl
  | .obj [], _ + 1 => fun _ _ _ _ => rfl
  | .obj ((name, v) :: ms), fuel + 1 => fun rest h _ hfuel => by
      obtain ⟨cs, hcs⟩ := exists_membersText_append (name, v) ms ('\x7d' :: rest)
      rw [toList_compact_obj, List.length_cons, List.length_append, List.length_singleton]
        at hfuel
      have hmembers := readMembers_compact name v ms fuel rest h (by omega)
      rw [hcs] at hmembers
      rw [toList_compact_obj, List.cons_append, List.append_assoc, List.singleton_append, hcs,
        readNode_obj fuel cs, hmembers]
      rfl
termination_by structural _ fuel => fuel

theorem readItems_compact : ∀ (v : Value) (vs : List Value) (fuel : Nat) (rest : List Char),
    WholeItems (v :: vs) → 2 * (itemsText v vs).length + 1 ≤ fuel →
    readItems fuel (itemsText v vs ++ ']' :: rest) = some (itemNodes (v :: vs), rest)
  | _, _, 0 => fun _ _ hfuel => by omega
  | v, [], fuel + 1 => fun rest h hfuel => by
      have hfirst : itemsText v [] = v.compact.toList := rfl
      rw [hfirst] at hfuel ⊢
      have hv := readNode_compact v fuel (']' :: rest) h.1 (.cons (by decide)) (by omega)
      simp only [readItems, hv, Option.bind_eq_bind, Option.bind_some,
        skipSpace_cons (c := ']') (by decide), itemNodes, Option.pure_def]
  | v, w :: vs, fuel + 1 => fun rest h hfuel => by
      rw [itemsText_cons, List.length_append, List.length_cons] at hfuel
      have hv := readNode_compact v fuel (',' :: (itemsText w vs ++ ']' :: rest)) h.1
        (.cons (by decide)) (by omega)
      have hvs := readItems_compact w vs fuel rest h.2 (by omega)
      rw [itemsText_cons, List.append_assoc, List.cons_append]
      simp only [readItems, hv, hvs, Option.bind_eq_bind, Option.bind_some,
        skipSpace_cons (c := ',') (by decide), itemNodes, Option.pure_def]
termination_by structural _ _ fuel => fuel

theorem readMembers_compact : ∀ (name : String) (v : Value) (ms : List (String × Value))
    (fuel : Nat) (rest : List Char), WholeMembers ((name, v) :: ms) →
    2 * (membersText (name, v) ms).length + 1 ≤ fuel →
    readMembers fuel (membersText (name, v) ms ++ '\x7d' :: rest)
      = some (memberNodes ((name, v) :: ms), rest)
  | _, _, _, 0 => fun _ _ hfuel => by omega
  | name, v, [], fuel + 1 => fun rest h hfuel => by
      have hlength := congrArg List.length (membersText_one name v [])
      simp only [List.append_nil, List.length_cons, List.length_append] at hlength
      have hv := readNode_compact v fuel ('\x7d' :: rest) h.1 (.cons (by decide)) (by omega)
      rw [membersText_one]
      simp only [readMembers, skipSpace_cons (c := '"') (by decide), readString_quote, hv,
        skipSpace_cons (c := ':') (by decide), skipSpace_cons (c := '\x7d') (by decide),
        Option.bind_eq_bind, Option.bind_some, memberNodes, Option.pure_def]
  | name, v, (next, w) :: ms, fuel + 1 => fun rest h hfuel => by
      have hlength := congrArg List.length (membersText_one name v [])
      rw [membersText_cons, List.length_append, List.length_cons] at hfuel
      simp only [List.append_nil, List.length_cons, List.length_append] at hlength
      have hv := readNode_compact v fuel (',' :: (membersText (next, w) ms ++ '\x7d' :: rest)) h.1
        (.cons (by decide)) (by omega)
      have hms := readMembers_compact next w ms fuel rest h.2 (by omega)
      rw [membersText_cons, List.append_assoc, List.cons_append, membersText_one]
      simp only [readMembers, skipSpace_cons (c := '"') (by decide), readString_quote, hv, hms,
        skipSpace_cons (c := ':') (by decide), skipSpace_cons (c := ',') (by decide),
        Option.bind_eq_bind, Option.bind_some, memberNodes, Option.pure_def]
termination_by structural _ _ _ fuel => fuel

end

/-- **The document of a written value is that value.** -/
theorem parse_compact {v : Value} (h : v.Whole) : parse v.compact = some v.toNode := by
  have hnode := readNode_compact v (2 * v.compact.toList.length + 2) [] h .nil (by omega)
  rw [List.append_nil] at hnode
  rw [parse, parseChars, hnode]
  rfl

end Rehearsal.Json
