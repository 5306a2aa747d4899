import Mathlib
import Rehearsal.Json.Parser

/-!
# Reading off the front

A reader takes what it wants from the front of a text and leaves the rest.  These are the
readers for a fixed word and for decimal digits, on texts that begin with what they look for.

* `expect?_append`: a word is found at the front.
* `takeDigits_digits`: the digits of a number are found, **all of them**, if no other digit
  follows.
-/

namespace Rehearsal.Json

/-! ## Words -/

lemma expect?_append (w rest : List Char) : expect? w (w ++ rest) = some rest := by
  induction w with
  | nil => rfl
  | cons c w ih => rw [List.cons_append, expect?, if_pos rfl, ih]

/-- A word is found only where it stands. -/
lemma eq_append_of_expect? {w cs rest : List Char} (h : expect? w cs = some rest) :
    cs = w ++ rest := by
  induction w generalizing cs with
  | nil =>
      cases h
      rfl
  | cons c w ih =>
      cases cs with
      | nil => cases h
      | cons d cs =>
          rw [expect?] at h
          split_ifs at h with hcd
          rw [ih h, hcd, List.cons_append]

/-! ## Runs of characters of one kind -/

/-- A text that does not begin with a character of a kind. -/
def Stops (p : Char → Bool) (cs : List Char) : Prop := ∀ c ∈ cs.head?, p c = false

section runs

variable {p : Char → Bool} {cs rest : List Char}

lemma Stops.cons {c : Char} (h : p c = false) : Stops p (c :: cs) := by
  intro d hd
  rwa [← Option.some.inj hd]

lemma takeWhile_append_stop (h : ∀ c ∈ cs, p c = true) (hrest : Stops p rest) :
    (cs ++ rest).takeWhile p = cs := by
  rw [List.takeWhile_append_of_pos h]
  cases rest with
  | nil => simp
  | cons c rest => simp [hrest c rfl]

lemma dropWhile_append_stop (h : ∀ c ∈ cs, p c = true) (hrest : Stops p rest) :
    (cs ++ rest).dropWhile p = rest := by
  rw [List.dropWhile_append_of_pos h]
  cases rest with
  | nil => rfl
  | cons c rest => simp [hrest c rfl]

end runs

/-! ## Digits -/

/-- Decimal digits, gathered from the front, make the number that they were written for. -/
lemma foldl_toDigits (n : Nat) :
    (Nat.toDigits 10 n).foldl (fun m c => m * 10 + (c.toNat - 48)) 0 = n := by
  have h : (Nat.toDigits 10 n).foldl (fun m c => 10 * m + (c.toNat - 48)) 0 = n :=
    Nat.ofDigitChars_toDigits (by decide) (by decide)
  simpa only [Nat.mul_comm 10] using h

namespace Numeral

/-- The digits of a number as numbers. -/
def digitsOf (n : Nat) : List Nat := (Nat.toDigits 10 n).map fun c => c.toNat - 48

lemma digitsOf_ne_nil (n : Nat) : digitsOf n ≠ [] :=
  List.map_eq_nil_iff.not.mpr Nat.toDigits_ne_nil

/-- Digits stand for the number that they were written for. -/
lemma ofDigits_digitsOf (n : Nat) : ofDigits (digitsOf n) = n := by
  rw [ofDigits, digitsOf, List.foldl_map, foldl_toDigits]

end Numeral

/-- The digits of a number are read back. -/
lemma takeDigits_digits (n : Nat) {rest : List Char} (hrest : Stops Char.isDigit rest) :
    takeDigits ((Number.digits n).toList ++ rest) = (Numeral.digitsOf n, rest) := by
  have hdigits : ∀ c ∈ Nat.toDigits 10 n, c.isDigit = true :=
    fun c hc => Nat.isDigit_of_mem_toDigits (by decide) (by decide) hc
  rw [Number.digits, String.toList_ofList, takeDigits, takeWhile_append_stop hdigits hrest,
    dropWhile_append_stop hdigits hrest, Numeral.digitsOf]

end Rehearsal.Json
