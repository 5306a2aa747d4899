import Mathlib
import Rehearsal.Uuid
import Rehearsal.Proofs.Text.Literal

/-!
# The written form of identifiers

* `Uuid.text_injective`: **no two identifiers are written alike**.
* `Uuid.forall_mem_text`: nothing but hexadecimal digits and hyphens is written, so that an
  identifier can be part of a name.
* `Uuid.parse?_text`: **an identifier is read back**.
-/

namespace Rehearsal.Uuid

open Text

/-- A hexadecimal digit tells its value. -/
lemma hexDigit_inj {a b : Nat} (ha : a < 16) (hb : b < 16) (h : hexDigit a = hexDigit b) :
    a = b := by
  have hvalue := hexValue?_hexDigit a ha
  rw [h, hexValue?_hexDigit b hb] at hvalue
  exact (Option.some.inj hvalue).symm

lemma length_hexDigits (count n : Nat) : (hexDigits count n).length = count := by
  induction count generalizing n with
  | zero => rfl
  | succ count ih => rw [hexDigits, List.length_append, ih, List.length_singleton]

/-- Digits tell the number, as far as they go. -/
lemma mod_eq_of_hexDigits_eq {count a b : Nat} (h : hexDigits count a = hexDigits count b) :
    a % 16 ^ count = b % 16 ^ count := by
  induction count generalizing a b with
  | zero => rw [pow_zero, Nat.mod_one, Nat.mod_one]
  | succ count ih =>
      rw [hexDigits, hexDigits] at h
      obtain ⟨hmore, hlast⟩ := List.append_inj h
        ((length_hexDigits count _).trans (length_hexDigits count _).symm)
      have hdigit : a % 16 = b % 16 := hexDigit_inj (Nat.mod_lt _ (by decide))
        (Nat.mod_lt _ (by decide)) (List.singleton_inj.mp hlast)
      rw [pow_succ', Nat.mod_mul, Nat.mod_mul, hdigit, ih hmore]

/-- What holds of every hexadecimal digit holds of all that are written. -/
lemma forall_mem_hexDigits {P : Char → Prop} (h : ∀ n < 16, P (hexDigit n)) (count n : Nat) :
    ∀ c ∈ hexDigits count n, P c := by
  induction count generalizing n with
  | zero => exact fun c hc => absurd hc List.not_mem_nil
  | succ count ih =>
      rw [hexDigits]
      refine List.forall_mem_append.mpr ⟨ih (n / 16), List.forall_mem_singleton.mpr ?_⟩
      exact h _ (Nat.mod_lt _ (by decide))

lemma digits_injective : Function.Injective digits := by
  rintro ⟨u⟩ ⟨v⟩ h
  have hmod : u.toNat % 2 ^ 128 = v.toNat % 2 ^ 128 := mod_eq_of_hexDigits_eq h
  rw [Nat.mod_eq_of_lt u.isLt, Nat.mod_eq_of_lt v.isLt] at hmod
  exact congrArg _ (BitVec.eq_of_toNat_eq hmod)

/-- The groups together are the digits. -/
lemma digits_groups (u : Uuid) :
    u.digits.take 8 ++ (u.digits.drop 8).take 4 ++ (u.digits.drop 12).take 4
      ++ (u.digits.drop 16).take 4 ++ u.digits.drop 20 = u.digits := by
  have hjoin : ∀ k, (u.digits.drop k).take 4 ++ u.digits.drop (k + 4) = u.digits.drop k :=
    fun k => by rw [← List.drop_drop, List.take_append_drop]
  simp only [List.append_assoc]
  rw [hjoin 16, hjoin 12, hjoin 8, List.take_append_drop]

/-- Without its hyphens, the written form is the digits. -/
lemma filter_textChars (u : Uuid) : (u.textChars.filter fun c => c ≠ '-') = u.digits := by
  have hdigits : ∀ c ∈ u.digits, decide (c ≠ '-') = true :=
    forall_mem_hexDigits (by decide) 32 _
  have hpart : ∀ {part : List Char}, part ⊆ u.digits →
      part.filter (fun c => decide (c ≠ '-')) = part :=
    fun hsub => List.filter_eq_self.mpr fun c hc => hdigits c (hsub hc)
  have hmiddle : ∀ k, (u.digits.drop k).take 4 ⊆ u.digits :=
    fun k c hc => List.drop_subset k _ (List.take_subset 4 _ hc)
  have hhyphen : decide ('-' ≠ '-') = false := by decide
  rw [textChars]
  simp only [List.filter_append, List.filter_cons, hhyphen, Bool.false_eq_true, if_false,
    hpart (List.take_subset 8 _), hpart (hmiddle _), hpart (List.drop_subset 20 _)]
  exact digits_groups u

/-- No two identifiers are written alike. -/
theorem text_injective : Function.Injective text := by
  intro u v h
  have hchars : u.textChars = v.textChars := String.ofList_inj.mp h
  refine digits_injective ?_
  rw [← filter_textChars, hchars, filter_textChars]

/-- Nothing but hexadecimal digits and hyphens is written. -/
lemma forall_mem_text {P : Char → Prop} (h : ∀ n < 16, P (hexDigit n)) (hhyphen : P '-')
    (u : Uuid) : ∀ c ∈ u.text.toList, P c := by
  have hdigits : ∀ c ∈ u.digits, P c := forall_mem_hexDigits h 32 _
  intro c hc
  by_cases hc' : c = '-'
  · exact hc' ▸ hhyphen
  · refine hdigits c ?_
    rw [← filter_textChars, List.mem_filter]
    rw [text, String.toList_ofList] at hc
    exact ⟨hc, decide_eq_true hc'⟩

/-! ## Reading -/

lemma number?_append (acc : Nat) (cs ds : List Char) :
    number? acc (cs ++ ds) = (number? acc cs).bind fun n => number? n ds := by
  induction cs generalizing acc with
  | nil => rfl
  | cons c cs ih =>
      rw [List.cons_append, number?, number?]
      cases hexValue? c with
      | none => rfl
      | some d => exact ih _

/-- The digits of a number are read back, as far as they go. -/
lemma number?_hexDigits (count n acc : Nat) :
    number? acc (hexDigits count n) = some (acc * 16 ^ count + n % 16 ^ count) := by
  induction count generalizing n with
  | zero => rw [hexDigits, number?, pow_zero, Nat.mod_one, mul_one, add_zero]
  | succ count ih =>
      have hlast : hexValue? (hexDigit (n % 16)) = some (n % 16) :=
        hexValue?_hexDigit _ (Nat.mod_lt _ (by decide))
      have hsum : (acc * 16 ^ count + n / 16 % 16 ^ count) * 16 + n % 16
          = acc * 16 ^ (count + 1) + n % 16 ^ (count + 1) := by
        rw [pow_succ', Nat.mod_mul]
        ring
      rw [hexDigits, number?_append, ih, Option.bind_some, number?, hlast]
      exact congrArg some hsum

lemma ofDigits?_digits (u : Uuid) : ofDigits? u.digits = some u := by
  have hlength : u.digits.length = 32 := length_hexDigits 32 _
  have hbound : u.number.toNat < 16 ^ 32 := u.number.isLt
  have hnumber : number? 0 u.digits = some u.number.toNat := by
    rw [digits, number?_hexDigits, zero_mul, zero_add, Nat.mod_eq_of_lt hbound]
  rw [ofDigits?, if_pos hlength, hnumber, Option.map_some, BitVec.ofNat_toNat,
    BitVec.setWidth_eq]

/-- The hyphens between the groups stand where they are looked for. -/
lemma ungrouped?_groups {a b c d e : List Char} (ha : a.length = 8) (hb : b.length = 4)
    (hc : c.length = 4) (hd : d.length = 4) (he : e.length = 12) :
    ungrouped? (a ++ '-' :: b ++ '-' :: c ++ '-' :: d ++ '-' :: e)
      = some (a ++ b ++ c ++ d ++ e) := by
  simp [ungrouped?, List.drop_append, List.drop_eq_nil_of_le, ha, hb, hc, hd, he]

/-- **An identifier is read back.** -/
theorem parse?_text (u : Uuid) : parse? u.text = some u := by
  have hlength : u.digits.length = 32 := length_hexDigits 32 _
  have hgroups : ungrouped? u.textChars = some u.digits := by
    rw [textChars, ungrouped?_groups]
    · rw [digits_groups]
    all_goals simp [hlength]
  have htext : u.textChars.length = 36 := by
    simp [textChars, hlength]
  have hunwrapped : unwrapped u.textChars = u.textChars := by
    simp [unwrapped, htext]
  have hnumber : (ungrouped? u.textChars).bind ofDigits? = some u := by
    rw [hgroups, Option.bind_some, ofDigits?_digits]
  have hplain : u.textChars.length ≠ 32 := by
    rw [htext]
    decide
  rw [parse?, text, String.toList_ofList, parseChars?, if_neg hplain, hunwrapped]
  exact hnumber

end Rehearsal.Uuid
