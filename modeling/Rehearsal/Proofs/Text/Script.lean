import Mathlib
import Rehearsal.Proofs.Text.Comment

/-!
# Literals in a script

The literals that documents are written with stand in scripts, too, and a script reads them by a
grammar of its own.  It knows more escapes, lets a backslash take the end of a line with it, refuses
octal numbers, and keeps a text as code units.

* `units`: the code units of a text, which **determine the text** (`units_inj`).
* `Script.read`: reads one double-quoted literal off the front of a script.  What may stand between
  the marks includes the two line separators, but no line feed and no carriage return.
* `Script.readBody_flatMap_escape`: **a script reads what was quoted**, whatever follows.  Each
  character goes by the form in which it is written (`escape_cases`).
* `unescaped`: the characters that no backslash takes with it.  Between the marks of a literal, no
  mark and no backslash is among them.
-/

namespace Rehearsal.Text

/-! ## Code units -/

/-- The code units of a code point: itself, or two surrogates. -/
def unitsOf (n : Nat) : List Nat :=
  if n < 0x10000 then [n]
  else [0xD800 + (n - 0x10000) / 0x400, 0xDC00 + (n - 0x10000) % 0x400]

/-- The code units of a text. -/
def units (cs : List Char) : List Nat := cs.flatMap fun c => unitsOf c.toNat

/-- The units of a character delimit themselves, since no character is a surrogate. -/
lemma unitsOf_append_inj {c d : Char} {r s : List Nat}
    (h : unitsOf c.toNat ++ r = unitsOf d.toNat ++ s) : c = d ∧ r = s := by
  have hc : c.toNat < 0xD800 ∨ (0xDFFF < c.toNat ∧ c.toNat < 0x110000) := c.valid
  have hd : d.toNat < 0xD800 ∨ (0xDFFF < d.toNat ∧ d.toNat < 0x110000) := d.valid
  suffices hnat : c.toNat = d.toNat ∧ r = s from ⟨Char.toNat_inj.mp hnat.1, hnat.2⟩
  unfold unitsOf at h
  split_ifs at h with hlow hlow' hlow'
  · simpa using h
  · obtain ⟨hunit, -⟩ := List.cons.inj h
    omega
  · obtain ⟨hunit, -⟩ := List.cons.inj h
    omega
  · obtain ⟨hhigh, hrest⟩ := List.cons.inj h
    obtain ⟨hlow, hrest⟩ := List.cons.inj hrest
    exact ⟨by omega, hrest⟩

lemma unitsOf_ne_nil (n : Nat) : unitsOf n ≠ [] := by
  unfold unitsOf
  split_ifs <;> simp

/-- **The code units determine the text.** -/
lemma units_inj {cs ds : List Char} : units cs = units ds ↔ cs = ds := by
  refine ⟨fun h => ?_, congrArg units⟩
  induction cs generalizing ds with
  | nil =>
      cases ds with
      | nil => rfl
      | cons d ds => simp [units, unitsOf_ne_nil] at h
  | cons c cs ih =>
      cases ds with
      | nil => simp [units, unitsOf_ne_nil] at h
      | cons d ds =>
          obtain ⟨rfl, hrest⟩ := unitsOf_append_inj h
          rw [ih hrest]

/-! ## The grammar of a script -/

namespace Script

/-- What a single character stands for behind a backslash.  Digits stand for nothing, and two
letters begin a number. -/
def single? (c : Char) : Option Char :=
  if c = 'b' then some (Char.ofNat 8)
  else if c = 't' then some '\t'
  else if c = 'n' then some '\n'
  else if c = 'v' then some (Char.ofNat 11)
  else if c = 'f' then some (Char.ofNat 12)
  else if c = 'r' then some '\r'
  else if c.isDigit || c = 'x' || c = 'u' then none
  else some c

/-- A code point in hexadecimal digits, up to the brace that closes it, and what follows. -/
def point? (cs : List Char) : Option (List Nat × List Char) :=
  match cs.dropWhile (· ≠ '\x7d') with
  | [] => none
  | _ :: rest => do
    let digits ← (cs.takeWhile (· ≠ '\x7d')).mapM hexValue?
    let n := digits.foldl (fun n d => n * 16 + d) 0
    if digits = [] ∨ 0x10FFFF < n then none else return (unitsOf n, rest)

/-- What an escape stands for behind its backslash, and what follows it. -/
def escape? : List Char → Option (List Nat × List Char)
  | [] => none
  | 'x' :: a :: b :: rest => (Literal.code? '0' '0' a b).map fun n => (unitsOf n, rest)
  | 'u' :: '\x7b' :: cs => point? cs
  | 'u' :: a :: b :: c :: d :: rest => (Literal.code? a b c d).map fun n => (unitsOf n, rest)
  | '0' :: rest => if rest.head?.any Char.isDigit then none else some ([0], rest)
  | '\r' :: '\n' :: rest => some ([], rest)
  | c :: rest =>
    if isLineEnd c then some ([], rest)
    else (single? c).map fun d => (unitsOf d.toNat, rest)

lemma length_of_point? {cs rest : List Char} {us : List Nat} (h : point? cs = some (us, rest)) :
    rest.length < cs.length := by
  have hsuffix := (List.dropWhile_suffix (l := cs) (· ≠ '\x7d')).length_le
  unfold point? at h
  split at h
  next => cases h
  next brace tail heq =>
    obtain ⟨digits, -, h⟩ := Option.bind_eq_some_iff.mp h
    rw [heq, List.length_cons] at hsuffix
    simp only [Option.pure_def, Option.ite_none_left_eq_some, Option.some.injEq,
      Prod.mk.injEq] at h
    obtain ⟨-, -, rfl⟩ := h
    omega

/-- An escape takes at least one character. -/
lemma length_of_escape? {cs rest : List Char} {us : List Nat} (h : escape? cs = some (us, rest)) :
    rest.length < cs.length := by
  have hnumber : ∀ {α : Type} {o : Option α} {f : α → List Nat} {tail : List Char},
      o.map (fun n => (f n, tail)) = some (us, rest) → tail = rest := by
    intro α o f tail h
    obtain ⟨n, -, hn⟩ := Option.map_eq_some_iff.mp h
    exact congrArg Prod.snd hn
  unfold escape? at h
  split at h
  next => cases h
  next =>
    obtain rfl := hnumber h
    simp only [List.length_cons]
    omega
  next cs =>
    have hpoint := length_of_point? h
    simp only [List.length_cons]
    omega
  next =>
    obtain rfl := hnumber h
    simp only [List.length_cons]
    omega
  next =>
    split_ifs at h
    cases h
    exact Nat.lt_succ_self _
  next =>
    cases h
    simp only [List.length_cons]
    omega
  next =>
    split_ifs at h
    · cases h
      exact Nat.lt_succ_self _
    · obtain rfl := hnumber h
      exact Nat.lt_succ_self _

/-- The code units up to the closing mark, and what follows it. -/
def readBody : List Char → Option (List Nat × List Char)
  | [] => none
  | c :: cs =>
    if c = '"' then some ([], cs)
    else if c = '\\' then
      match h : escape? cs with
      | none => none
      | some (us, rest) =>
        have : rest.length < cs.length + 1 := Nat.lt_succ_of_lt (length_of_escape? h)
        (readBody rest).map fun q => (us ++ q.1, q.2)
    else if c = '\n' || c = '\r' then none
    else (readBody cs).map fun q => (unitsOf c.toNat ++ q.1, q.2)
termination_by cs => cs.length

/-- Reads one literal off the front. -/
def read : List Char → Option (List Nat × List Char)
  | '"' :: cs => readBody cs
  | _ => none

-- escapes that no literal of a document has: two digits, a code point, the end of a line
example : read "\"\\x41\\u\x7b1F600\x7d\\\n\"!".toList = some ([0x41, 0xD83D, 0xDE00], ['!']) := by
  cbv

/-! ## What was quoted is read -/

/-- The short escapes of a literal mean the same in a script. -/
lemma escape?_short {e c : Char} (h : Literal.shortEscape? e = some c) (rest : List Char) :
    escape? (e :: rest) = some (unitsOf c.toNat, rest) := by
  have he := mem_of_shortEscape? h
  simp only [List.mem_cons, List.not_mem_nil, or_false] at he
  rcases he with rfl | rfl | rfl | rfl | rfl | rfl | rfl | rfl <;>
    (obtain rfl := Option.some.inj h; rfl)

lemma escape?_code {a b c d : Char} {n : Nat} (h : Literal.code? a b c d = some n)
    (ha : a ≠ '\x7b') (rest : List Char) :
    escape? ('u' :: a :: b :: c :: d :: rest) = some (unitsOf n, rest) := by
  rw [escape?, h]
  · rfl
  · exact ha

lemma readBody_escaped {cs rest : List Char} {us : List Nat} (h : escape? cs = some (us, rest)) :
    readBody ('\\' :: cs) = (readBody rest).map fun q => (us ++ q.1, q.2) := by
  rw [readBody, if_neg (by decide), if_pos rfl]
  split
  next hnone => rw [h] at hnone; cases hnone
  next hsome => rw [h] at hsome; cases hsome; rfl

lemma readBody_plain {c : Char} (hquote : c ≠ '"') (hbackslash : c ≠ '\\') (hspace : 32 ≤ c.toNat)
    (cs : List Char) :
    readBody (c :: cs) = (readBody cs).map fun q => (unitsOf c.toNat ++ q.1, q.2) := by
  have hline : ¬(c = '\n' || c = '\r') = true := by
    intro h
    simp only [Bool.or_eq_true, decide_eq_true_eq] at h
    rcases h with rfl | rfl <;> exact absurd hspace (by decide)
  rw [readBody, if_neg hquote, if_neg hbackslash, if_neg hline]

/-- **A character is read as it is written**, in each of its forms. -/
lemma readBody_escape (c : Char) (rest : List Char) :
    readBody (escape c ++ rest) = (readBody rest).map fun q => (unitsOf c.toNat ++ q.1, q.2) := by
  obtain ⟨e, hletter, hc⟩ | ⟨hcontrol, hc⟩ | ⟨hquote, hbackslash, hspace, hc⟩ := escape_cases c <;>
    rw [hc]
  · exact readBody_escaped (escape?_short hletter rest)
  · exact readBody_escaped (escape?_code (Literal.code?_control hcontrol) (by decide) rest)
  · exact readBody_plain hquote hbackslash hspace rest

lemma readBody_flatMap_escape (cs rest : List Char) :
    readBody (cs.flatMap escape ++ '"' :: rest) = some (units cs, rest) := by
  induction cs with
  | nil => rw [List.flatMap_nil, List.nil_append, readBody, if_pos rfl]; rfl
  | cons c cs ih =>
      rw [List.flatMap_cons, List.append_assoc, readBody_escape, ih]
      rfl

end Script

/-! ## Marks -/

/-- The characters that no backslash takes with it, be it alone or with four digits. -/
def unescaped : List Char → List Char
  | '\\' :: 'u' :: _ :: _ :: _ :: _ :: rest => unescaped rest
  | '\\' :: _ :: rest => unescaped rest
  | c :: rest => c :: unescaped rest
  | [] => []

lemma unescaped_short {e : Char} (h : e ≠ 'u') (rest : List Char) :
    unescaped ('\\' :: e :: rest) = unescaped rest :=
  unescaped.eq_2 e rest fun _ _ _ _ _ he => absurd he h

lemma unescaped_plain {c : Char} (h : c ≠ '\\') (rest : List Char) :
    unescaped (c :: rest) = c :: unescaped rest :=
  unescaped.eq_3 c rest (fun _ _ _ _ _ hc => absurd hc h) fun _ _ hc => absurd hc h

/-- Between the marks of a literal, no mark and no backslash stands by itself. -/
lemma not_mem_unescaped (cs : List Char) :
    ∀ c ∈ unescaped (cs.flatMap escape), c ≠ '"' ∧ c ≠ '\\' := by
  induction cs with
  | nil => simp [unescaped]
  | cons c cs ih =>
      rw [List.flatMap_cons]
      obtain ⟨e, hletter, hc⟩ | ⟨-, hc⟩ | ⟨hquote, hbackslash, -, hc⟩ := escape_cases c <;> rw [hc]
      · have hu : e ≠ 'u' := by
          rintro rfl
          exact absurd (mem_of_shortEscape? hletter) (by decide)
        intro d hd
        exact ih d (unescaped_short hu (cs.flatMap escape) ▸ hd)
      · exact ih
      · rw [List.singleton_append, unescaped_plain hbackslash]
        exact List.forall_mem_cons.mpr ⟨⟨hquote, hbackslash⟩, ih⟩

/-- **A quoted text is read back by a document and by a script**, whatever follows it: they find
that text and leave what follows.  Its literal holds nothing below the space, and between the marks
at its ends no mark and no backslash that is not part of an escape. -/
theorem quote_read_whatever_follows (s rest : String) :
    Literal.read (quote s ++ rest).toList = some (s.toList, rest.toList)
      ∧ Script.read (quote s ++ rest).toList = some (units s.toList, rest.toList)
      ∧ (∀ t : String, units t.toList = units s.toList → t = s)
      ∧ (∀ c ∈ (quote s).toList, 0x20 ≤ c.toNat)
      ∧ ∃ body, (quote s).toList = '"' :: (body ++ ['"'])
        ∧ ∀ c ∈ unescaped body, c ≠ '"' ∧ c ≠ '\\' := by
  have hchars : (quote s ++ rest).toList = quoteChars s.toList ++ rest.toList := by
    rw [quote, String.toList_append, String.toList_ofList]
  refine ⟨?_, ?_, ?_, printable_quote s, s.toList.flatMap escape, ?_, not_mem_unescaped s.toList⟩
  · rw [hchars, Literal.read_quoteChars_append]
  · rw [hchars, quoteChars, List.cons_append, List.append_assoc, Script.read,
      List.singleton_append, Script.readBody_flatMap_escape]
  · intro t h
    exact String.toList_inj.mp (units_inj.mp h)
  · rw [quote, String.toList_ofList, quoteChars]

end Rehearsal.Text
