/-
  BootSeal — the lines that are Intel Hex records.

  * `Digits`: pairs of hexadecimal digits, in either case, and the bytes they denote;
  * `Record.OnLine`: a line has the form of a record, with a payload of the length that
    it tells and a checksum that brings the sum of all bytes to zero;
  * `Record.parse_eq_ok_iff`: exactly these lines are read as records.
-/
import BootSeal.IntelHex.Record
import Mathlib.Tactic.SplitIfs

namespace BootSeal.IntelHex

/-! ## Digits -/

/-- The digits of bytes, two for each. -/
inductive Digits : List Char → Bytes → Prop
  | nil : Digits [] []
  | pair {high low : Char} {a b : Nat} {rest : List Char} {bytes : Bytes} :
      Text.digit? 16 high = some a → Text.digit? 16 low = some b → Digits rest bytes →
      Digits (high :: low :: rest) (UInt8.ofNat (16 * a + b) :: bytes)

namespace Digits

variable {digits : List Char} {bytes : Bytes}

theorem ofDigitPairs (h : Digits digits bytes) : IntelHex.ofDigitPairs digits = bytes := by
  induction h with
  | nil => rfl
  | pair ha hb _ ih => rw [IntelHex.ofDigitPairs, ha, hb, ih, Option.getD_some, Option.getD_some]

theorem length_eq (h : Digits digits bytes) : digits.length = 2 * bytes.length := by
  induction h with
  | nil => rfl
  | pair _ _ _ ih =>
    simp only [List.length_cons, ih]
    omega

theorem all_isHexDigit (h : Digits digits bytes) : digits.all Text.isHexDigit = true := by
  induction h with
  | nil => rfl
  | pair ha hb _ ih => simp [Text.isHexDigit, ha, hb, ih]

/-- An even number of digits denotes bytes. -/
theorem of_all_isHexDigit {digits : List Char} (h : digits.all Text.isHexDigit = true)
    (heven : digits.length % 2 = 0) : Digits digits (IntelHex.ofDigitPairs digits) := by
  fun_induction IntelHex.ofDigitPairs digits with
  | case1 high low rest ih =>
    simp only [List.all_cons, Bool.and_eq_true, Text.isHexDigit] at h
    simp only [List.length_cons] at heven
    obtain ⟨a, ha⟩ := Option.isSome_iff_exists.1 h.1
    obtain ⟨b, hb⟩ := Option.isSome_iff_exists.1 h.2.1
    rw [ha, hb, Option.getD_some, Option.getD_some]
    exact .pair ha hb (ih h.2.2 (by omega))
  | case2 digits hpair =>
    rcases digits with _ | ⟨c, _ | ⟨d, rest⟩⟩
    · exact .nil
    · cases heven
    · exact absurd rfl (hpair c d rest)

end Digits

/-! ## Checksums -/

theorem foldr_add_concat (b : Bytes) (x : UInt8) :
    (b ++ [x]).foldr (· + ·) 0 = b.foldr (· + ·) 0 + x := by
  induction b with
  | nil => simp
  | cons y b ih => rw [List.cons_append, List.foldr_cons, ih, List.foldr_cons, UInt8.add_assoc]

/-- A checksum brings the sum of all bytes to zero. -/
theorem checksum_eq_iff {b : Bytes} {x : UInt8} :
    checksum b = x ↔ (b ++ [x]).foldr (· + ·) 0 = 0 := by
  rw [foldr_add_concat, checksum]
  generalize b.foldr (· + ·) 0 = total
  constructor
  · rintro rfl
    rw [UInt8.add_comm, UInt8.sub_add_cancel]
  · intro h
    rw [← h, UInt8.add_comm, UInt8.add_sub_cancel]

/-! ## Records -/

namespace Record

/-- The line is a colon and the digits of a length, an offset, a type, a payload of that
    length as the type asks for it, and a byte that brings the sum of all to zero. -/
inductive OnLine : List Char → Record → Prop
  | mk {digits : List Char} {length high low code sum : UInt8} {payload : Bytes} {r : Record} :
      Digits digits (length :: high :: low :: code :: payload ++ [sum]) →
      payload.length = length.toNat →
      (length :: high :: low :: code :: payload ++ [sum]).foldr (· + ·) 0 = 0 →
      ofFields code (half [high, low]) payload = .ok r → OnLine (':' :: digits) r

theorem ofBody_eq_ok {body : Bytes} {r : Record} (h : ofBody body = .ok r) :
    ∃ length high low code payload, body = length :: high :: low :: code :: payload ∧
      payload.length = length.toNat ∧ ofFields code (half [high, low]) payload = .ok r := by
  unfold ofBody at h
  split at h
  · next length high low code payload =>
    split_ifs at h with hlength
    exact ⟨length, high, low, code, payload, rfl, hlength, h⟩
  · cases h

theorem OnLine.isEmpty_eq {line : List Char} {r : Record} (h : OnLine line r) :
    line.isEmpty = false := by
  cases h
  rfl

theorem OnLine.parse {line : List Char} {r : Record} (h : OnLine line r) :
    Record.parse line = .ok r := by
  obtain @⟨digits, length, high, low, code, sum, payload, _, hdigits, hlength, hsum, hfields⟩ := h
  have hbyte := length.toNat_lt
  have hcount := hdigits.length_eq
  rw [List.length_append, List.length_singleton] at hcount
  simp only [List.length_cons, hlength] at hcount
  simp only [Record.parse, minDigits, maxDigits, hdigits.all_isHexDigit, hdigits.ofDigitPairs,
    List.dropLast_concat, List.getLastD_concat, checksum_eq_iff.2 hsum, if_true, Bool.not_true,
    Bool.false_eq_true, if_false]
  rw [if_neg (by omega), if_neg (by omega), if_neg (by omega), ofBody, if_pos hlength, hfields]

/-- **Exactly the well-formed lines are read as records.** -/
theorem parse_eq_ok_iff {line : List Char} {r : Record} :
    Record.parse line = .ok r ↔ OnLine line r := by
  refine ⟨fun h => ?_, OnLine.parse⟩
  unfold Record.parse at h
  split at h
  · next digits =>
    dsimp only at h
    split_ifs at h with hhex hshort hlong hodd hsum
    have hdigits := Digits.of_all_isHexDigit (by simpa using hhex) (by omega : digits.length % 2 = 0)
    have hcount := hdigits.length_eq
    generalize ofDigitPairs digits = bytes at h hdigits hcount hsum
    have hne : bytes ≠ [] := by
      rintro rfl
      simp only [minDigits, hcount, List.length_nil] at hshort
      omega
    obtain ⟨body, sum, hbytes⟩ := bytes.eq_nil_or_concat.resolve_left hne
    rw [List.concat_eq_append] at hbytes
    subst hbytes
    rw [List.dropLast_concat] at h hsum
    rw [List.getLastD_concat] at hsum
    obtain ⟨length, high, low, code, payload, rfl, hlength, hfields⟩ := ofBody_eq_ok h
    exact .mk hdigits hlength (checksum_eq_iff.1 hsum) hfields
  · cases h

end Record

end BootSeal.IntelHex
