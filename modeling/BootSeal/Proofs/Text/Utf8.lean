/-
  BootSeal — texts as bytes in UTF-8.

  * `Text.toList_toUTF8`: the bytes of a text are those of its characters, one after the
    other, so that the bytes of what it begins with stand in front (`Text.toUTF8_append`);
  * `Text.fromUTF8?_toList_toUTF8`: these bytes are read back as the text and no other;
  * `Text.length_le_of_fromUTF8?`: a text has at most as many characters as bytes.
-/
import BootSeal.Bytes

namespace BootSeal

/-! ## Byte arrays as lists -/

/-- From `i` on, the bytes of an array are listed behind those already there. -/
theorem toList_loop_byteArray (b : ByteArray) (i : Nat) (r : List UInt8) :
    ByteArray.toList.loop b i r = r.reverse ++ b.data.toList.drop i := by
  fun_induction ByteArray.toList.loop b i r with
  | case1 i r hi ih =>
    have hlt : i < b.data.toList.length := hi
    rw [ih, List.reverse_cons, List.append_assoc, List.singleton_append,
      List.drop_eq_getElem_cons hlt]
    congr 2
    exact getElem!_pos b.data i hi
  | case2 i r hi =>
    rw [List.drop_of_length_le (Nat.le_of_not_lt hi), List.append_nil]

theorem toList_byteArray (b : ByteArray) : b.toList = b.data.toList := by
  rw [ByteArray.toList, toList_loop_byteArray]
  rfl

theorem mk_toList_byteArray (b : ByteArray) : (⟨b.toList.toArray⟩ : ByteArray) = b := by
  rw [toList_byteArray]

/-! ## Texts -/

namespace Text

theorem toList_toUTF8 (s : String) : s.toUTF8.toList = s.toList.flatMap String.utf8EncodeChar := by
  have hs : s.toUTF8 = (s.toList.flatMap String.utf8EncodeChar).toByteArray :=
    (congrArg String.toByteArray String.ofList_toList).symm.trans String.toByteArray_ofList
  rw [toList_byteArray, hs, List.toList_data_toByteArray]

theorem toUTF8_append (s t : String) :
    (s ++ t).toUTF8.toList = s.toUTF8.toList ++ t.toUTF8.toList := by
  simp only [toList_toUTF8, String.toList_append, List.flatMap_append]

theorem fromUTF8?_toList_toUTF8 (s : String) :
    String.fromUTF8? ⟨s.toUTF8.toList.toArray⟩ = some s := by
  have hbytes : (⟨s.toUTF8.toList.toArray⟩ : ByteArray) = s.toByteArray := mk_toList_byteArray _
  rw [hbytes, String.fromUTF8?, dif_pos s.isValidUTF8]
  rfl

/-- The bytes that a text was read from are its own. -/
theorem toList_toUTF8_of_fromUTF8? {b : Bytes} {s : String}
    (h : String.fromUTF8? ⟨b.toArray⟩ = some s) : s.toUTF8.toList = b := by
  rw [String.fromUTF8?] at h
  split at h
  · cases h
    exact toList_byteArray _
  · cases h

theorem length_le_toUTF8 (s : String) : s.toList.length ≤ s.toUTF8.toList.length := by
  rw [toList_toUTF8]
  induction s.toList with
  | nil => exact Nat.le_refl _
  | cons c cs ih =>
    have hc : 0 < (String.utf8EncodeChar c).length := by
      rw [String.length_utf8EncodeChar]
      exact c.utf8Size_pos
    rw [List.flatMap_cons, List.length_cons, List.length_append]
    omega

theorem length_le_of_fromUTF8? {b : Bytes} {s : String}
    (h : String.fromUTF8? ⟨b.toArray⟩ = some s) : s.toList.length ≤ b.length :=
  toList_toUTF8_of_fromUTF8? h ▸ length_le_toUTF8 s

end Text

end BootSeal
