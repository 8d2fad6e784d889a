/-
  BootSeal — bytes are read back from base64 and from PEM texts.

  * `Base64.decode?_encode`: every byte string, by induction on its groups of three;
  * `Pem.wrap_spec`: characters in lines are joined again, by induction on the lines;
  * `Pem.decode?_trim_encode`: bytes under a label; and `Pem.decode?_eq_none_of_decode?`: no
    text is read under two;
  * `Pem.length_le_of_decode?`: how long a text is at least.
-/
import BootSeal.Encoding.Pem
import BootSeal.Proofs.Result
import BootSeal.Proofs.Text.Blank
import Mathlib.Data.Option.Basic

namespace BootSeal

/-! ## Base64 -/

namespace Base64

theorem value?_charOf : ∀ n < 64, value? (charOf n) = some n := by decide +kernel

/-- A character of the alphabet is no padding. -/
theorem charOf_ne_pad : ∀ n < 64, charOf n ≠ '=' := by decide +kernel

section
variable {w x y z : Nat} (hw : w < 64) (hx : x < 64)
include hw hx

/-- Two characters before padding. -/
theorem decode?_double (h : x % 16 = 0) :
    decode? [charOf w, charOf x, '=', '='] = some [UInt8.ofNat (4 * w + x / 16)] := by
  rw [decode?, value?_charOf w hw, value?_charOf x hx]
  show Option.bind (guard (x % 16 = 0)) _ = _
  rw [guard_of_pos h]
  rfl

variable (hy : y < 64)
include hy

/-- Three characters before padding. -/
theorem decode?_single (h : y % 4 = 0) :
    decode? [charOf w, charOf x, charOf y, '='] =
      some [UInt8.ofNat (4 * w + x / 16), UInt8.ofNat (16 * (x % 16) + y / 4)] := by
  rw [decode?, value?_charOf w hw, value?_charOf x hx, value?_charOf y hy]
  · show Option.bind (guard (y % 4 = 0)) _ = _
    rw [guard_of_pos h]
    rfl
  · exact charOf_ne_pad y hy

/-- Four characters without padding, and the others after them. -/
theorem decode?_cons (hz : z < 64) (rest : List Char) :
    decode? (charOf w :: charOf x :: charOf y :: charOf z :: rest) = (decode? rest).map fun b =>
      UInt8.ofNat (4 * w + x / 16) :: UInt8.ofNat (16 * (x % 16) + y / 4) ::
        UInt8.ofNat (64 * (y % 4) + z) :: b := by
  rw [decode?, value?_charOf w hw, value?_charOf x hx, value?_charOf y hy, value?_charOf z hz]
  · cases decode? rest <;> rfl
  · exact fun _ hpad => absurd hpad (charOf_ne_pad z hz)
  · exact fun hpad => absurd hpad (charOf_ne_pad z hz)

end

theorem ofNat_of_toNat_eq (x : UInt8) {n : Nat} (h : n = x.toNat) : UInt8.ofNat n = x := by
  rw [h, UInt8.ofNat_toNat]

/-- **Bytes are read back from their characters.** -/
theorem decode?_encode (b : Bytes) : decode? (encode b) = some b := by
  fun_induction encode b with
  | case1 => rfl
  | case2 x =>
    have hx := x.toNat_lt
    rw [decode?_double (by omega) (by omega) (by omega), ofNat_of_toNat_eq x (by omega)]
  | case3 x y =>
    have hx := x.toNat_lt
    have hy := y.toNat_lt
    rw [decode?_single (by omega) (by omega) (by omega) (by omega),
      ofNat_of_toNat_eq x (by omega), ofNat_of_toNat_eq y (by omega)]
  | case4 x y z rest ih =>
    have hx := x.toNat_lt
    have hy := y.toNat_lt
    have hz := z.toNat_lt
    rw [decode?_cons (by omega) (by omega) (by omega) (by omega), ih, Option.map_some,
      ofNat_of_toNat_eq x (by omega), ofNat_of_toNat_eq y (by omega), ofNat_of_toNat_eq z (by omega)]

/-- There are at least as many characters as bytes. -/
theorem length_le_of_decode? {cs : List Char} {b : Bytes} (h : decode? cs = some b) :
    b.length ≤ cs.length := by
  fun_induction decode? cs generalizing b with
  | case1 => cases h; exact Nat.le_refl _
  | case2 w x =>
    obtain ⟨w, -, h⟩ := Option.bind_eq_some_iff.1 h
    obtain ⟨x, -, h⟩ := Option.bind_eq_some_iff.1 h
    obtain ⟨-, -, h⟩ := Option.bind_eq_some_iff.1 h
    cases h
    simp
  | case3 w x y =>
    obtain ⟨w, -, h⟩ := Option.bind_eq_some_iff.1 h
    obtain ⟨x, -, h⟩ := Option.bind_eq_some_iff.1 h
    obtain ⟨y, -, h⟩ := Option.bind_eq_some_iff.1 h
    obtain ⟨-, -, h⟩ := Option.bind_eq_some_iff.1 h
    cases h
    simp
  | case4 w x y z rest _ _ ih =>
    obtain ⟨w, -, h⟩ := Option.bind_eq_some_iff.1 h
    obtain ⟨x, -, h⟩ := Option.bind_eq_some_iff.1 h
    obtain ⟨y, -, h⟩ := Option.bind_eq_some_iff.1 h
    obtain ⟨z, -, h⟩ := Option.bind_eq_some_iff.1 h
    obtain ⟨bytes, hbytes, h⟩ := Option.bind_eq_some_iff.1 h
    cases h
    have hle := ih hbytes
    simp only [List.length_cons]
    omega
  | case5 => cases h

theorem encode_ne_nil {b : Bytes} (h : b ≠ []) : encode b ≠ [] := by
  fun_cases encode b with
  | case1 => exact absurd rfl h
  | _ => exact List.cons_ne_nil _ _

/-- The characters of base64. -/
def IsDigit (c : Char) : Prop := c ∈ alphabet ∨ c = '='

@[simp] theorem isDigit_pad : IsDigit '=' := Or.inr rfl

@[simp] theorem isDigit_charOf (n : Nat) : IsDigit (charOf n) := by
  rw [charOf, List.getD_eq_getElem?_getD]
  cases h : alphabet[n]? with
  | none => exact isDigit_pad
  | some c => exact Or.inl (List.mem_of_getElem? h)

theorem isDigit_encode (b : Bytes) : ∀ c ∈ encode b, IsDigit c := by
  fun_induction encode b with
  | case1 => simp
  | case2 x => simp
  | case3 x y => simp
  | case4 x y z rest ih => simpa using ih

/-- Base64 has no line ends of its own. -/
theorem IsDigit.ne_lineEnd {c : Char} (h : IsDigit c) : c ≠ '\n' ∧ c ≠ '\r' := by
  have hends : '\n' ∉ alphabet ∧ '\r' ∉ alphabet := by decide +kernel
  obtain h | rfl := h
  · exact ⟨fun hc => hends.1 (hc ▸ h), fun hc => hends.2 (hc ▸ h)⟩
  · decide

end Base64

/-! ## PEM -/

namespace Pem

/-! ### Lines -/

section
variable {cs : List Char} {c : Char} (h : cs.getLast? = some c)
include h

theorem dropFinalLineEnd?_of_getLast? (hc : c ≠ '\n' ∧ c ≠ '\r') : dropFinalLineEnd? cs = none := by
  obtain ⟨init, rfl⟩ := List.getLast?_eq_some_iff.1 h
  rw [dropFinalLineEnd?, List.reverse_concat]
  split
  · next hr => exact absurd (List.cons.inj hr).1 hc.1
  · next hr => exact absurd (List.cons.inj hr).1 hc.1
  · next hr => exact absurd (List.cons.inj hr).1 hc.2
  · rfl

theorem dropFinalLineEnd?_concat (hc : c ≠ '\r') :
    dropFinalLineEnd? (cs ++ ['\n']) = some cs := by
  obtain ⟨init, rfl⟩ := List.getLast?_eq_some_iff.1 h
  rw [dropFinalLineEnd?, List.reverse_concat, List.reverse_concat]
  split
  · next hr => exact absurd (List.cons.inj (List.cons.inj hr).2).1 hc
  · next hr => rw [← (List.cons.inj hr).2, List.reverse_cons, List.reverse_reverse]
  · next hr => exact absurd (List.cons.inj hr).1 (by decide)
  · next hr _ => exact absurd rfl (hr _)

end

/-- **Characters in lines are joined again**, by induction on the lines. The last line end
    does not belong to them. -/
theorem wrap_spec {cs : List Char} (hne : cs ≠ []) (hcs : ∀ c ∈ cs, c ≠ '\n' ∧ c ≠ '\r')
    {limit : Nat} (hlimit : cs.length ≤ limit) :
    ∃ body, wrap.go limit cs = body ++ ['\n'] ∧ body.getLast? = cs.getLast? ∧
      ∀ limit', body.length < limit' → unwrap?.go limit' body = some cs := by
  induction limit generalizing cs with
  | zero => exact absurd (List.length_eq_zero_iff.1 (Nat.le_zero.1 hlimit)) hne
  | succ limit ih =>
    rw [wrap.go, if_neg (by simpa using hne)]
    by_cases hlen : cs.length ≤ lineWidth
    · refine ⟨cs, ?_, rfl, fun limit' hl => ?_⟩
      · rw [List.take_of_length_le hlen, List.drop_of_length_le hlen]
        cases limit <;> rfl
      · cases limit' with
        | zero => cases hl
        | succ limit' =>
          rw [unwrap?.go, if_pos hlen, dropFinalLineEnd?_of_getLast?
            (List.getLast?_eq_some_getLast hne) (hcs _ (List.getLast_mem hne))]
          rfl
    · have hfull : (cs.take lineWidth).length = lineWidth :=
        List.length_take_of_le (Nat.le_of_not_le hlen)
      have hwidth : 0 < lineWidth := by decide
      obtain ⟨body, hgo, hlast, hjoin⟩ := @ih (cs.drop lineWidth) (by simpa using hlen)
        (fun c hc => hcs c (List.mem_of_mem_drop hc)) (by rw [List.length_drop]; omega)
      refine ⟨cs.take lineWidth ++ '\n' :: body, ?_, ?_, fun limit' hl => ?_⟩
      · rw [hgo, List.append_assoc, List.cons_append]
      · rw [List.getLast?_drop, if_neg hlen] at hlast
        rw [List.getLast?_append, List.getLast?_cons, hlast, List.getLast?_eq_some_getLast hne]
        rfl
      · cases limit' with
        | zero => cases hl
        | succ limit' =>
          rw [List.length_append, List.length_cons, hfull] at hl
          rw [unwrap?.go, if_neg (by rw [List.length_append, List.length_cons, hfull]; omega),
            List.drop_left' hfull, List.take_left' hfull]
          show ((unwrap?.go limit' body).bind fun rest => some (cs.take lineWidth ++ rest)) = _
          rw [hjoin limit' (by omega), Option.bind_some, List.take_append_drop]

/-! ### Texts -/

theorem dropWord?_append (word rest : List Char) : Text.dropWord? word (word ++ rest) = some rest := by
  rw [Text.dropWord?, if_pos (List.isPrefixOf_iff_prefix.2 (List.prefix_append word rest)),
    List.drop_left]

theorem dropEndWord?_append (word rest : List Char) :
    Text.dropEndWord? word (rest ++ word) = some rest := by
  rw [Text.dropEndWord?, List.reverse_append, dropWord?_append, Option.map_some,
    List.reverse_reverse]

/-- The text of bytes without the line end after it. -/
theorem trim_encode (label : String) (b : Bytes) : Text.trim (encode label b) =
    beginLine label ++ ('\n' :: (wrap (Base64.encode b) ++ endLine label)) := by
  have hyphen : Text.isBlank '-' = false := by decide
  have hstart : (encode label b).dropWhile Text.isBlank = encode label b := by
    refine Text.dropWhile_eq_self fun c hc => ?_
    have hfirst : some '-' = some c := hc
    rw [← Option.some.inj hfirst, hyphen]
  have hlast : endLine label =
      "-----END ".toList ++ label.toList ++ "----".toList ++ ['-'] := by
    rw [List.append_assoc]
    rfl
  rw [Text.trim, Text.stripWhile, hstart, encode, Text.dropRightWhile_append (by simp; decide),
    hlast, ← List.append_assoc, Text.dropRightWhile_concat hyphen]
  simp only [List.append_assoc, List.cons_append]

theorem skipPreamble?_trim_encode (label : String) (b : Bytes) :
    skipPreamble? (Text.trim (encode label b)) = some (Text.trim (encode label b)) := by
  refine if_pos ?_
  rw [trim_encode, List.isPrefixOf_iff_prefix, beginLine]
  simp only [List.append_assoc]
  exact List.prefix_append _ _

/-- **Bytes are read back from their text**, without the line end after it. -/
theorem decode?_trim_encode (label : String) {b : Bytes} (h : b ≠ []) :
    decode? label (Text.trim (encode label b)) = some b := by
  have hne := Base64.encode_ne_nil h
  have hcs := fun c hc => (Base64.isDigit_encode b c hc).ne_lineEnd
  obtain ⟨body, hwrap, hlast, hjoin⟩ := wrap_spec hne hcs (Nat.le_refl _)
  rw [List.getLast?_eq_some_getLast hne] at hlast
  have hlines : dropFinalLineEnd? (wrap (Base64.encode b)) = some body := by
    rw [wrap, hwrap, dropFinalLineEnd?_concat hlast (hcs _ (List.getLast_mem hne)).2]
  have hunwrap : unwrap? body = some (Base64.encode b) := hjoin _ (Nat.lt_succ_self _)
  rw [decode?, skipPreamble?_trim_encode, trim_encode]
  simp only [Option.bind_eq_bind, Option.bind_some, dropWord?_append, dropLineEnd?,
    dropEndWord?_append, hlines, hunwrap, Base64.decode?_encode]

/-! ### Labels -/

section
variable {label other : String} (ho : ¬ beginLine other <+: beginLine label)
  (hl : ¬ beginLine label <+: beginLine other)
include ho hl

/-- **Nothing is read under a label where the boundary of another one stands**, if neither
    boundary begins with the other. -/
theorem decode?_eq_none_of_prefix {text start : List Char}
    (hstart : skipPreamble? text = some start)
    (hlabel : beginLine label <+: start) : decode? other text = none := by
  have hword : Text.dropWord? (beginLine other) start = none := if_neg fun hother =>
    (List.prefix_or_prefix_of_prefix (List.isPrefixOf_iff_prefix.1 hother) hlabel).elim ho hl
  rw [decode?, hstart]
  simp only [Option.bind_eq_bind, Option.bind_some, hword, Option.bind_none]

theorem decode?_of_other (b : Bytes) : decode? other (Text.trim (encode label b)) = none := by
  refine decode?_eq_none_of_prefix ho hl (skipPreamble?_trim_encode ..) ?_
  rw [trim_encode]
  exact List.prefix_append ..

/-- No text is read under two labels. -/
theorem decode?_eq_none_of_decode? {text : List Char} {b : Bytes}
    (h : decode? label text = some b) : decode? other text = none := by
  simp only [decode?, Option.bind_eq_bind, Option.bind_eq_some_iff] at h
  obtain ⟨start, hstart, rest, hrest, -⟩ := h
  refine decode?_eq_none_of_prefix ho hl hstart ?_
  rw [Text.dropWord?] at hrest
  split at hrest
  · next hword => exact List.isPrefixOf_iff_prefix.1 hword
  · cases hrest

end

/-! ### Lengths -/

section
variable {text rest : List Char}

theorem length_skipPreamble?_go (h : skipPreamble?.go text = some rest) :
    rest.length ≤ text.length := by
  fun_induction skipPreamble?.go text with
  | case1 => cases h
  | case2 => cases h; exact Nat.le_succ _
  | case3 => cases h
  | case4 c tail _ _ ih => exact Nat.le_succ_of_le (ih h)

theorem length_skipPreamble? (h : skipPreamble? text = some rest) :
    rest.length ≤ text.length := by
  rw [skipPreamble?] at h
  split at h
  · cases h
    exact Nat.le_refl _
  · exact length_skipPreamble?_go h

theorem length_dropWord? {word : List Char} (h : Text.dropWord? word text = some rest) :
    word.length + rest.length = text.length := by
  rw [Text.dropWord?] at h
  split at h
  · next hword =>
    cases h
    have hle := (List.isPrefixOf_iff_prefix.1 hword).length_le
    rw [List.length_drop]
    omega
  · cases h

theorem length_dropEndWord? {word : List Char} (h : Text.dropEndWord? word text = some rest) :
    word.length + rest.length = text.length := by
  obtain ⟨front, hfront, rfl⟩ := Option.map_eq_some_iff.1 h
  have hlen := length_dropWord? hfront
  simpa only [List.length_reverse] using hlen

theorem length_dropLineEnd? (h : dropLineEnd? text = some rest) :
    rest.length + 1 ≤ text.length := by
  rw [dropLineEnd?.eq_def] at h
  split at h <;> cases h <;> simp

theorem length_dropFinalLineEnd? (h : dropFinalLineEnd? text = some rest) :
    rest.length + 1 ≤ text.length := by
  have hreverse : text.reverse.length = text.length := List.length_reverse
  rw [dropFinalLineEnd?] at h
  rw [← hreverse]
  split at h <;> cases h <;> simp [*]

theorem length_unwrap?_go {limit : Nat} (h : unwrap?.go limit text = some rest) :
    rest.length ≤ text.length := by
  induction limit generalizing text rest with
  | zero => cases h
  | succ limit ih =>
    rw [unwrap?.go] at h
    split at h
    · cases h
      cases hend : dropFinalLineEnd? text with
      | none => exact Nat.le_refl _
      | some front => exact Nat.le_of_succ_le (length_dropFinalLineEnd? hend)
    · next hlong =>
      simp only [Option.bind_eq_bind, Option.bind_eq_some_iff] at h
      obtain ⟨tail, htail, joined, hjoined, h⟩ := h
      cases h
      have htail := length_dropLineEnd? htail
      have hjoined := ih hjoined
      rw [List.length_drop] at htail
      rw [List.length_append, List.length_take]
      omega

end

/-- **A text is longer than its two boundaries and the bytes between them.** -/
theorem length_le_of_decode? {label : String} {b : Bytes} (h : decode? label text = some b) :
    b.length + (beginLine label).length + (endLine label).length + 2 ≤ text.length := by
  simp only [decode?, Option.bind_eq_bind, Option.bind_eq_some_iff] at h
  obtain ⟨text₁, h₁, text₂, h₂, text₃, h₃, text₄, h₄, text₅, h₅, text₆, h₆, h₇⟩ := h
  have h₁ := length_skipPreamble? h₁
  have h₂ := length_dropWord? h₂
  have h₃ := length_dropLineEnd? h₃
  have h₄ := length_dropEndWord? h₄
  have h₅ := length_dropFinalLineEnd? h₅
  have h₆ := length_unwrap?_go h₆
  have h₇ := Base64.length_le_of_decode? h₇
  omega

end Pem

end BootSeal
