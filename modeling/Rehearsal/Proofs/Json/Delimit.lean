import Mathlib
import Rehearsal.Proofs.Json.Printer

/-!
# A compact object ends itself

Where an object stands in a text, its end can be found without knowing what follows: strings are
passed over, and the brackets that are open are counted.

* `behind`: what follows the bracket that closes the outermost one, when some are open inside.
* `Settled`: a text that leaves the count as it finds it.  **The compact text of every value is
  settled** (`settled_compact`), by induction on the value together with its items and members.
* `compact_obj_append_inj`: a text determines the object that it begins with, and what follows.
-/

namespace Rehearsal.Json

open Text

/-! ## Counting brackets -/

/-- What follows the closing bracket, when so many others are open inside of it.  Between quotation
marks brackets do not count, and a backslash takes the next character with it. -/
def behind : (quoted : Bool) → (depth : Nat) → List Char → Option (List Char)
  | _, _, [] => none
  | true, _, '\\' :: [] => none
  | true, depth, '\\' :: _ :: rest => behind true depth rest
  | true, depth, c :: rest => behind (c ≠ '"') depth rest
  | false, depth, c :: rest =>
    if c = '"' then behind true depth rest
    else if c = '[' ∨ c = '\x7b' then behind false (depth + 1) rest
    else if c = ']' ∨ c = '\x7d' then
      match depth with
      | 0 => some rest
      | depth + 1 => behind false depth rest
    else behind false depth rest

/-- A text that leaves the count as it finds it. -/
def Settled (s : String) : Prop :=
  ∀ depth rest, behind false depth (s.toList ++ rest) = behind false depth rest

/-- A text without quotation marks and brackets. -/
def Plain (s : String) : Prop := ∀ c ∈ s.toList, c ∉ ['"', '[', ']', '\x7b', '\x7d']

instance (s : String) : Decidable (Plain s) :=
  List.decidableBAll (· ∉ ['"', '[', ']', '\x7b', '\x7d']) s.toList

/-- Outside of quotation marks, a character of such a text is passed over. -/
lemma behind_outside {c : Char} (h : c ∉ ['"', '[', ']', '\x7b', '\x7d']) (depth : Nat)
    (rest : List Char) : behind false depth (c :: rest) = behind false depth rest := by
  simp only [List.mem_cons, List.not_mem_nil, or_false, not_or] at h
  obtain ⟨hquote, hopen, hclose, hopen', hclose'⟩ := h
  cases depth <;>
    rw [behind, if_neg hquote, if_neg (not_or.mpr ⟨hopen, hopen'⟩),
      if_neg (not_or.mpr ⟨hclose, hclose'⟩)]

/-! ### Strings -/

/-- Between quotation marks, a character that is neither a mark nor a backslash is passed over. -/
lemma behind_plain {c : Char} (hq : c ≠ '"') (hb : c ≠ '\\') (depth : Nat) (rest : List Char) :
    behind true depth (c :: rest) = behind true depth rest := by
  rw [behind.eq_4 depth c rest (fun h _ => hb h) (fun _ _ h _ => hb h), decide_eq_true hq]

/-- A character is passed over as it is written between quotation marks. -/
lemma behind_escape (c : Char) (depth : Nat) (rest : List Char) :
    behind true depth (escape c ++ rest) = behind true depth rest := by
  obtain ⟨e, -, hc⟩ | ⟨hcontrol, hc⟩ | ⟨hquote, hbackslash, -, hc⟩ := escape_cases c <;> rw [hc]
  · rfl
  · -- four digits are left when the letter behind the backslash is passed over
    have hdigit : ∀ n < 16, hexDigit n ≠ '"' ∧ hexDigit n ≠ '\\' := by decide
    have hhigh := hdigit (c.toNat / 16) (by omega)
    have hlow := hdigit (c.toNat % 16) (by omega)
    show behind true depth
        ('0' :: '0' :: hexDigit (c.toNat / 16) :: hexDigit (c.toNat % 16) :: rest)
      = behind true depth rest
    rw [behind_plain (by decide) (by decide), behind_plain (by decide) (by decide),
      behind_plain hhigh.1 hhigh.2, behind_plain hlow.1 hlow.2]
  · exact behind_plain hquote hbackslash depth rest

namespace Settled

lemma empty : Settled "" := fun _ _ => rfl

lemma append {s t : String} (hs : Settled s) (ht : Settled t) : Settled (s ++ t) := by
  intro depth rest
  rw [String.toList_append, List.append_assoc, hs, ht]

/-- A literal is passed over. -/
lemma quote (s : String) : Settled (quote s) := by
  intro depth rest
  have hbody : ∀ cs : List Char,
      behind true depth (cs.flatMap escape ++ '"' :: rest) = behind false depth rest := by
    intro cs
    induction cs with
    | nil => rfl
    | cons c cs ih => rw [List.flatMap_cons, List.append_assoc, behind_escape, ih]
  have hchars : (Text.quote s).toList ++ rest
      = '"' :: (s.toList.flatMap escape ++ '"' :: rest) := by
    simp [Text.quote, quoteChars]
  rw [hchars]
  exact hbody s.toList

/-- What holds neither quotation marks nor brackets does not count. -/
lemma of_plain {s : String} (h : Plain s) : Settled s := by
  intro depth rest
  rw [Plain] at h
  generalize s.toList = cs at h
  induction cs with
  | nil => rfl
  | cons c cs ih =>
      obtain ⟨hc, hcs⟩ := List.forall_mem_cons.mp h
      exact (behind_outside hc depth (cs ++ rest)).trans (ih hcs)

lemma number (n : Number) : Settled n.text := by
  refine of_plain fun c hc hmem => ?_
  have hnumeric := spelled_text n c hc
  simp only [List.mem_cons, List.not_mem_nil, or_false] at hmem
  rcases hmem with rfl | rfl | rfl | rfl | rfl <;> exact absurd hnumeric (by decide)

/-- Brackets around what is settled are opened and closed. -/
lemma bracket {s : String} (h : Settled s) : Settled ("[" ++ s ++ "]") := by
  intro depth rest
  simp only [String.toList_append, List.append_assoc]
  exact h (depth + 1) (']' :: rest)

lemma brace {s : String} (h : Settled s) : Settled ("\x7b" ++ s ++ "\x7d") := by
  intro depth rest
  simp only [String.toList_append, List.append_assoc]
  exact h (depth + 1) ('\x7d' :: rest)

lemma joinWith {separator : String} (hs : Settled separator) :
    ∀ {ts : List String}, (∀ t ∈ ts, Settled t) → Settled (joinWith separator ts)
  | [], _ => empty
  | [t], h => h t List.mem_cons_self
  | t :: u :: ts, h => by
      obtain ⟨ht, hrest⟩ := List.forall_mem_cons.mp h
      exact (ht.append hs).append (joinWith hs hrest)

end Settled

/-! ## Values -/

mutual

/-- **The compact text of a value is settled.** -/
lemma settled_compact : ∀ v : Value, Settled v.compact
  | .null => .of_plain (by simp only [Value.compact]; decide)
  | .bool b => by cases b <;> exact .of_plain (by decide)
  | .num n => .number n
  | .str s => .quote s
  | .arr items => .bracket (.joinWith (.of_plain (by decide)) (settled_itemTexts items))
  | .obj members => .brace (.joinWith (.of_plain (by decide)) (settled_memberTexts members))

lemma settled_itemTexts : ∀ vs : List Value, ∀ t ∈ itemTexts vs, Settled t
  | [] => fun _ h => absurd h List.not_mem_nil
  | v :: vs => List.forall_mem_cons.mpr ⟨settled_compact v, settled_itemTexts vs⟩

lemma settled_memberTexts : ∀ ms : List (String × Value), ∀ t ∈ memberTexts ms, Settled t
  | [] => fun _ h => absurd h List.not_mem_nil
  | (name, v) :: ms => List.forall_mem_cons.mpr
      ⟨((Settled.quote name).append (.of_plain (by decide))).append (settled_compact v),
        settled_memberTexts ms⟩

end

/-- What follows an object is found by counting from its first bracket on. -/
lemma behind_compact_obj (members : List (String × Value)) (r : List Char) :
    ∃ body, (Value.obj members).compact.toList ++ r = '\x7b' :: body
      ∧ behind false 0 body = some r := by
  have hinner : Settled (joinWith "," (memberTexts members)) :=
    .joinWith (.of_plain (by decide)) (settled_memberTexts members)
  refine ⟨(joinWith "," (memberTexts members)).toList ++ '\x7d' :: r, ?_, ?_⟩
  · simp only [Value.compact, String.toList_append, List.append_assoc]
    rfl
  · exact hinner 0 ('\x7d' :: r)

/-- **A text determines the object that it begins with, and what follows.** -/
theorem compact_obj_append_inj {ms ns : List (String × Value)} {r s : List Char}
    (h : (Value.obj ms).compact.toList ++ r = (Value.obj ns).compact.toList ++ s) :
    (Value.obj ms).compact = (Value.obj ns).compact ∧ r = s := by
  obtain ⟨body, hbody, hr⟩ := behind_compact_obj ms r
  obtain ⟨body', hbody', hs⟩ := behind_compact_obj ns s
  have hsame : body = body' := (List.cons.inj (hbody.symm.trans (h.trans hbody'))).2
  rw [hsame] at hr
  have hrs : r = s := Option.some.inj (hr.symm.trans hs)
  subst hrs
  exact ⟨String.toList_inj.mp (List.append_cancel_right h), rfl⟩

end Rehearsal.Json
