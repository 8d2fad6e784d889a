/-
  BootSeal — a written Intel Hex record is read back as itself.

  * `Record.Writable` records have a payload of a length that their type and the
    length byte allow;
  * `Record.parse_render`: reading inverts writing on them;
  * `Record.mem_render`: a line of a record has a colon and hexadecimal digits only.
-/
import BootSeal.IntelHex.Record
import BootSeal.Proofs.Bytes

namespace BootSeal.IntelHex

/-! ## Digits -/

theorem digit?_upperDigit : ∀ n < 16, Text.digit? 16 (Text.upperDigit n) = some n := by decide

theorem isHexDigit_upperDigit {n : Nat} (h : n < 16) : Text.isHexDigit (Text.upperDigit n) := by
  rw [Text.isHexDigit, digit?_upperDigit n h]; rfl

/-- The digits of bytes. -/
def digitsOf (b : Bytes) : List Char := b.flatMap (Bytes.hexPair Text.upperDigit)

theorem isHexDigit_of_mem {b : Bytes} {c : Char} (h : c ∈ digitsOf b) : Text.isHexDigit c := by
  obtain ⟨x, -, hx⟩ := List.mem_flatMap.1 h
  have := x.toNat_lt
  simp only [Bytes.hexPair, List.mem_cons, List.not_mem_nil, or_false] at hx
  rcases hx with rfl | rfl
  · exact isHexDigit_upperDigit (by omega)
  · exact isHexDigit_upperDigit (by omega)

theorem length_digitsOf (b : Bytes) : (digitsOf b).length = 2 * b.length := by
  induction b with
  | nil => rfl
  | cons x b ih =>
    rw [digitsOf, List.flatMap_cons, List.length_append, ← digitsOf, ih, List.length_cons]
    simp only [Bytes.hexPair, List.length_cons, List.length_nil]
    omega

theorem ofDigitPairs_digitsOf (b : Bytes) : ofDigitPairs (digitsOf b) = b := by
  induction b with
  | nil => rfl
  | cons x b ih =>
    have hx := x.toNat_lt
    rw [digitsOf, List.flatMap_cons, ← digitsOf, Bytes.hexPair, List.cons_append, List.cons_append,
      List.nil_append, ofDigitPairs, ih, digit?_upperDigit _ (by omega),
      digit?_upperDigit _ (by omega), Option.getD_some, Option.getD_some, Nat.div_add_mod,
      UInt8.ofNat_toNat]

/-! ## Records -/

namespace Record

/-- The payload has a length that the type and the length byte allow. -/
def Writable : Record → Prop
  | .data _ payload => payload.length < 256
  | .startSegment payload | .startLinear payload => payload.length = 4
  | .endOfFile | .extendedSegment _ | .extendedLinear _ => True

theorem ofNatBE_two (n : Nat) : Bytes.ofNatBE 2 n = [UInt8.ofNat (n / 256), UInt8.ofNat n] := rfl

theorem half_ofNatBE (u : UInt16) : half (Bytes.ofNatBE 2 u.toNat) = u := by
  rw [half, Bytes.toNatBE_ofNatBE u.toNat_lt, UInt16.ofNat_toNat]

theorem length_payload_lt {r : Record} (h : r.Writable) : r.fields.2.2.length < 256 := by
  cases r with
  | data offset payload => exact h
  | startSegment payload | startLinear payload =>
    have h : payload.length = 4 := h
    simp only [fields, h]; omega
  | endOfFile | extendedSegment | extendedLinear => simp [fields]

/-- The fields of a record tell which one it is. -/
theorem ofFields_fields {r : Record} (h : r.Writable) :
    ofFields r.fields.1 r.fields.2.1 r.fields.2.2 = .ok r := by
  cases r with
  | data | endOfFile => rfl
  | startSegment | startLinear => exact if_pos h
  | extendedSegment u | extendedLinear u =>
    simp only [fields, ofFields, Bytes.length_ofNatBE, if_true, half_ofNatBE]

theorem body_eq (r : Record) : r.body =
    UInt8.ofNat r.fields.2.2.length :: UInt8.ofNat (r.fields.2.1.toNat / 256) ::
      UInt8.ofNat r.fields.2.1.toNat :: r.fields.1 :: r.fields.2.2 := rfl

theorem ofBody_body {r : Record} (h : r.Writable) : ofBody r.body = .ok r := by
  have hl := length_payload_lt h
  rw [body_eq, ofBody, UInt8.toNat_ofNat_of_lt' hl, if_pos rfl, ← ofNatBE_two, half_ofNatBE,
    ofFields_fields h]

/-- **A written record is read back as itself.** -/
theorem parse_render {r : Record} (h : r.Writable) : parse r.render = .ok r := by
  have hl := length_payload_lt h
  have hd : (r.body ++ [checksum r.body]).flatMap (Bytes.hexPair Text.upperDigit) =
    digitsOf (r.body ++ [checksum r.body]) := rfl
  have hlen : (digitsOf (r.body ++ [checksum r.body])).length = 2 * (r.fields.2.2.length + 5) := by
    simp only [length_digitsOf, body_eq, List.length_append, List.length_cons, List.length_nil]
  have hall : (digitsOf (r.body ++ [checksum r.body])).all Text.isHexDigit := by
    exact List.all_eq_true.2 fun c hc => isHexDigit_of_mem hc
  rw [render, hd, parse, hall]
  simp only [hlen, minDigits, maxDigits, ofDigitPairs_digitsOf, List.dropLast_concat,
    List.getLastD_concat, if_true, Bool.not_true, Bool.false_eq_true, if_false]
  rw [if_neg (by omega), if_neg (by omega), if_neg (by omega), ofBody_body h]

theorem mem_render {r : Record} {c : Char} (h : c ∈ r.render) : c = ':' ∨ Text.isHexDigit c :=
  (List.mem_cons.1 h).imp id isHexDigit_of_mem

end Record

end BootSeal.IntelHex
