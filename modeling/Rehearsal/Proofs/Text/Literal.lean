import Mathlib
import Rehearsal.Text.Literal

/-!
# Quoted literals are read back

Reading undoes writing: whatever follows a quoted literal, the reader stops at the closing mark
and finds the text that was quoted.  So a literal is **self-delimiting**, and two texts that
begin with literals agree only if the literals do (`quoteChars_append_inj`).

* `escape_cases`: the three forms in which a character is written.
* `exists_piece` is the step: the way one character is written is one unit for the reader.
* `read_quoteChars_append` is the run over a whole text.
* `le_toNat_of_mem_quoteChars`: a literal holds **nothing below the space**, and never leaves its
  line.
-/

namespace Rehearsal.Text

/-! ## One character -/

lemma hexValue?_hexDigit : ∀ n < 16, hexValue? (hexDigit n) = some n := by decide

lemma le_toNat_hexDigit : ∀ n < 16, 32 ≤ (hexDigit n).toNat := by decide

open Literal in
/-- **The forms in which a character is written**: a backslash and a letter, a backslash and the
code of a control character, or the character as it is. -/
lemma escape_cases (c : Char) :
    (∃ e, shortEscape? e = some c ∧ escape c = ['\\', e])
      ∨ (c.toNat < 32 ∧ escape c
          = ['\\', 'u', '0', '0', hexDigit (c.toNat / 16), hexDigit (c.toNat % 16)])
      ∨ (c ≠ '"' ∧ c ≠ '\\' ∧ 32 ≤ c.toNat ∧ escape c = [c]) := by
  have hnat : ∀ n, c.toNat = n → Char.ofNat n = c := by
    rintro n rfl
    exact Char.ofNat_toNat c
  unfold escape
  split_ifs with h₁ h₂ h₃ h₄ h₅ h₆ h₇ h₈
  · exact .inl ⟨'"', by rw [h₁]; rfl, rfl⟩
  · exact .inl ⟨'\\', by rw [h₂]; rfl, rfl⟩
  · exact .inl ⟨'b', by rw [← hnat _ h₃]; rfl, rfl⟩
  · exact .inl ⟨'t', by rw [← hnat _ h₄]; rfl, rfl⟩
  · exact .inl ⟨'n', by rw [← hnat _ h₅]; rfl, rfl⟩
  · exact .inl ⟨'f', by rw [← hnat _ h₆]; rfl, rfl⟩
  · exact .inl ⟨'r', by rw [← hnat _ h₇]; rfl, rfl⟩
  · exact .inr (.inl ⟨h₈, rfl⟩)
  · exact .inr (.inr ⟨h₁, h₂, not_lt.mp h₈, rfl⟩)

/-- The letters that stand behind a backslash. -/
lemma mem_of_shortEscape? {c e : Char} (h : Literal.shortEscape? e = some c) :
    e ∈ ['"', '\\', '/', 'b', 'f', 'n', 'r', 't'] := by
  by_contra hother
  simp only [List.mem_cons, List.not_mem_nil, or_false, not_or] at hother
  simp [Literal.shortEscape?, hother] at h

namespace Literal

/-- A backslash and one letter are one unit. -/
lemma pieces_short {e c : Char} (h : shortEscape? e = some c) (rest : List Char) :
    pieces ('\\' :: e :: rest) = (pieces rest).map fun q => (.char c :: q.1, q.2) := by
  have hu : e ≠ 'u' := by
    rintro rfl
    simp [shortEscape?] at h
  rw [pieces.eq_4 e rest (fun _ _ _ _ _ he => absurd he hu), h]
  cases pieces rest <;> rfl

/-- A backslash, `u` and four digits are one unit. -/
lemma pieces_code {a b c d : Char} {n : Nat} (h : code? a b c d = some n) (rest : List Char) :
    pieces ('\\' :: 'u' :: a :: b :: c :: d :: rest)
      = (pieces rest).map fun q => (.code n :: q.1, q.2) := by
  rw [pieces, h]
  cases pieces rest <;> rfl

/-- A character that needs no escape is one unit. -/
lemma pieces_raw {c : Char} (hq : c ≠ '"') (hb : c ≠ '\\') (hc : ¬c.toNat < 32)
    (rest : List Char) :
    pieces (c :: rest) = (pieces rest).map fun q => (.char c :: q.1, q.2) := by
  rw [pieces.eq_5 c rest hq (fun _ _ _ _ _ h => absurd h hb) (fun _ _ h => absurd h hb),
    if_neg (by simp [hb, hc])]
  cases pieces rest <;> rfl

/-- The code of a control character. -/
lemma code?_control {n : Nat} (h : n < 32) :
    code? '0' '0' (hexDigit (n / 16)) (hexDigit (n % 16)) = some n := by
  have h₀ : hexValue? '0' = some 0 := by decide
  simp only [code?, h₀, hexValue?_hexDigit (n / 16) (by omega),
    hexValue?_hexDigit (n % 16) (by omega), Option.bind_eq_bind, Option.bind_some,
    Option.pure_def, Option.some.injEq]
  omega

/-- The way one character is written is one unit, and the unit stands for that character. -/
lemma exists_piece (c : Char) : ∃ p : Piece,
    (∀ ps, text? (p :: ps) = (text? ps).map (c :: ·)) ∧
    ∀ rest, pieces (escape c ++ rest) = (pieces rest).map fun q => (p :: q.1, q.2) := by
  have hchar : ∀ ps, text? (.char c :: ps) = (text? ps).map (c :: ·) := fun _ => rfl
  obtain ⟨e, hletter, hc⟩ | ⟨hcontrol, hc⟩ | ⟨hquote, hbackslash, hspace, hc⟩ := escape_cases c
  · exact ⟨.char c, hchar, fun rest => hc ▸ pieces_short hletter rest⟩
  · refine ⟨.code c.toNat, fun ps => ?_, fun rest => hc ▸ pieces_code (code?_control hcontrol) rest⟩
    -- a control character is no half of a surrogate pair
    have hlow : ¬(0xDC00 ≤ c.toNat ∧ c.toNat ≤ 0xDFFF) := by omega
    have hhigh : ¬(0xD800 ≤ c.toNat ∧ c.toNat ≤ 0xDBFF) := by omega
    rw [text?.eq_def]
    simp [hlow, hhigh, Char.ofNat_toNat]
  · refine ⟨.char c, hchar, fun rest => hc ▸ pieces_raw hquote hbackslash ?_ rest⟩
    exact not_lt.mpr hspace

/-! ## Whole texts -/

/-- The reader finds the text up to the closing mark and leaves what follows it. -/
lemma readBody_flatMap_escape (cs rest : List Char) :
    readBody (cs.flatMap escape ++ '"' :: rest) = some (some cs, rest) := by
  suffices h : ∃ ps, pieces (cs.flatMap escape ++ '"' :: rest) = some (ps, rest)
      ∧ text? ps = some cs by
    obtain ⟨ps, hp, ht⟩ := h
    simp [readBody, hp, ht]
  induction cs with
  | nil => exact ⟨[], by simp [pieces], rfl⟩
  | cons c cs ih =>
      obtain ⟨ps, hp, ht⟩ := ih
      obtain ⟨p, htext, hpieces⟩ := exists_piece c
      refine ⟨p :: ps, ?_, by rw [htext, ht]; rfl⟩
      rw [List.flatMap_cons, List.append_assoc, hpieces, hp]
      rfl

/-- **Reading undoes quoting**, whatever follows. -/
lemma read_quoteChars_append (cs rest : List Char) :
    read (quoteChars cs ++ rest) = some (cs, rest) := by
  have h : quoteChars cs ++ rest = '"' :: (cs.flatMap escape ++ '"' :: rest) := by
    simp [quoteChars]
  rw [h, read, readBody_flatMap_escape]
  rfl

end Literal

/-- Literals delimit themselves. -/
lemma quoteChars_append_inj {a b r s : List Char}
    (h : quoteChars a ++ r = quoteChars b ++ s) : a = b ∧ r = s := by
  have hread := congrArg Literal.read h
  rw [Literal.read_quoteChars_append, Literal.read_quoteChars_append] at hread
  simpa using hread

lemma quote_inj {s t : String} : quote s = quote t ↔ s = t := by
  refine ⟨fun h => ?_, congrArg quote⟩
  have hchars : quoteChars s.toList ++ [] = quoteChars t.toList ++ [] := by
    rw [String.ofList_inj.mp h]
  exact String.toList_inj.mp (quoteChars_append_inj hchars).1

/-! ## Lines -/

/-- Nothing below the space is written between quotation marks. -/
lemma le_toNat_of_mem_escape {c d : Char} (h : d ∈ escape c) : 32 ≤ d.toNat := by
  have hbackslash : 32 ≤ '\\'.toNat := by decide
  obtain ⟨e, hletter, hc⟩ | ⟨hcontrol, hc⟩ | ⟨-, -, hspace, hc⟩ := escape_cases c <;> rw [hc] at h
  · have hletters : ∀ e ∈ ['"', '\\', '/', 'b', 'f', 'n', 'r', 't'], 32 ≤ e.toNat := by simp
    rcases List.mem_pair.mp h with rfl | rfl
    · exact hbackslash
    · exact hletters _ (mem_of_shortEscape? hletter)
  · have hdigit := le_toNat_hexDigit
    simp only [List.mem_cons, List.not_mem_nil, or_false] at h
    rcases h with rfl | rfl | rfl | rfl | rfl | rfl
    · exact hbackslash
    · decide
    · decide
    · decide
    · exact hdigit _ (by omega)
    · exact hdigit _ (by omega)
  · rwa [List.mem_singleton.mp h]

/-- **A literal holds nothing below the space**, so that it never leaves its line. -/
lemma le_toNat_of_mem_quoteChars {cs : List Char} {d : Char} (h : d ∈ quoteChars cs) :
    32 ≤ d.toNat := by
  rw [quoteChars, List.mem_cons, List.mem_append, List.mem_flatMap, List.mem_singleton] at h
  rcases h with rfl | ⟨c, -, hd⟩ | rfl
  · decide
  · exact le_toNat_of_mem_escape hd
  · decide

end Rehearsal.Text
