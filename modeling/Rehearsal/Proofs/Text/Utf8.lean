import Mathlib
import Rehearsal.Text.Utf8

/-!
# Bytes and the text they are

The bytes of a text are read back as that text, and only they are.
-/

namespace Rehearsal.Text.Utf8

/-- Reading bytes from a place on. -/
lemma toList_loop (bytes : ByteArray) (i : Nat) (front : List UInt8) :
    ByteArray.toList.loop bytes i front = front.reverse ++ bytes.data.toList.drop i := by
  fun_induction ByteArray.toList.loop bytes i front with
  | case1 i front hi ih =>
      have hdata : i < bytes.data.toList.length := hi
      have hget : bytes.get! i = bytes.data.toList[i] := getElem!_pos bytes.data i hi
      rw [ih, List.drop_eq_getElem_cons hdata, hget, List.reverse_cons, List.append_assoc,
        List.singleton_append]
  | case2 i front hi =>
      rw [List.drop_eq_nil_of_le (not_lt.mp hi), List.append_nil]

lemma encode_eq (s : String) : encode s = s.toByteArray.data.toList := toList_loop _ 0 []

lemma toByteArray_encode (s : String) : (encode s).toByteArray = s.toByteArray := by
  refine ByteArray.ext ?_
  rw [encode_eq, List.data_toByteArray]

/-- Bytes are text just when they are the bytes of that text. -/
lemma text?_eq_some_iff {bytes : List UInt8} {s : String} :
    text? bytes = some s ↔ bytes = encode s := by
  rw [text?, String.fromUTF8?]
  constructor
  · intro h
    split_ifs at h
    cases h
    rw [encode_eq, String.fromUTF8, List.data_toByteArray]
  · rintro rfl
    have hvalid : (encode s).toByteArray.IsValidUTF8 := toByteArray_encode s ▸ s.isValidUTF8
    rw [dif_pos hvalid]
    exact congrArg some (String.toByteArray_inj.mp (toByteArray_encode s))

end Rehearsal.Text.Utf8
