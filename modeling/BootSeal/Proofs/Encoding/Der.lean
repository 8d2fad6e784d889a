/-
  BootSeal — DER elements are read back from their bytes.

  * `Der.contentLength_encodeLength`, `Der.tagged_encode`: a length and an element,
    whatever follows them;
  * `Der.naturalContent_eq`: the shortest form of a number byte by byte, and
    `Der.naturalOf?_naturalContent`: the number that it stands for;
  * `Der.natural_encodeNatural`, `Der.sequence_encodeSequence`: integers and sequences;
  * `Der.explicitField_of_lt`, `Der.explicitField_encode`, `Der.bitStringField_encode`: a
    numbered field that is passed by, and those that are there;
  * `Der.length_of_tagged`, `Der.exists_content_of_within`, `Der.length_of_bitString`: a content
    that was read is part of the bytes that it was read from.
-/
import BootSeal.Encoding.Der
import BootSeal.Proofs.Bytes
import Mathlib.Tactic.SplitIfs

namespace BootSeal.Der

variable {α β : Type}

/-! ## Readers -/

/-- A reader goes on behind what the one before it has taken. -/
theorem bind_of_run {x : Reader α} {f : α → Reader β} {b rest : Bytes} {a : α}
    (h : x b = some (a, rest)) : (x >>= f) b = f a rest := by
  show (x b).bind (fun p => f p.1 p.2) = _
  rw [h, Option.bind_some]

theorem byte_cons (x : UInt8) (rest : Bytes) : byte (x :: rest) = some (x, rest) := rfl

theorem bytes_append (b rest : Bytes) : bytes b.length (b ++ rest) = some (b, rest) := by
  rw [bytes, if_pos (by rw [List.length_append]; omega), List.take_left, List.drop_left]

theorem whole?_of_run {r : Reader α} {b : Bytes} {a : α} (h : r b = some (a, [])) :
    whole? r b = some a := by
  have hrun : r.run b = some (a, []) := h
  rw [whole?, hrun]

/-! ## Elements -/

/-- The byte of a number below 128 does not have the highest bit. -/
theorem ofNat_lt_half {n : Nat} (h : n < 0x80) : UInt8.ofNat n < 0x80 := by
  rw [UInt8.lt_iff_toNat_lt, UInt8.toNat_ofNat_of_lt' (by show _ < 256; omega)]
  exact h

/-- A length in bytes of its own, of which the first is not zero. -/
theorem contentLength_long {n w : Nat} (hw : w < 4) (hlow : Nat.pow 256 w ≤ n)
    (hhigh : n < Nat.pow 256 (w + 1)) (h : 0x80 ≤ n) (hlimit : n < lengthLimit) (rest : Bytes) :
    contentLength (UInt8.ofNat (0x80 + (w + 1)) :: Bytes.ofNatBE (w + 1) n ++ rest) =
      some (n, rest) := by
  have hfirst : (UInt8.ofNat (0x80 + (w + 1))).toNat = 0x80 + (w + 1) :=
    UInt8.toNat_ofNat_of_lt' (by show _ < 256; omega)
  have hlong : ¬ UInt8.ofNat (0x80 + (w + 1)) < 0x80 := by
    rw [UInt8.lt_iff_toNat_lt, hfirst]
    show ¬ 0x80 + (w + 1) < 0x80
    omega
  have hwidth : (UInt8.ofNat (0x80 + (w + 1)) - 0x80).toNat = w + 1 := by
    rw [UInt8.toNat_sub_of_le _ _ (UInt8.not_lt.1 hlong), hfirst]
    exact Nat.add_sub_cancel_left ..
  have hbytes := bytes_append (Bytes.ofNatBE (w + 1) n) rest
  rw [Bytes.length_ofNatBE] at hbytes
  rw [List.cons_append, contentLength, bind_of_run (byte_cons ..), if_neg hlong]
  dsimp only
  rw [hwidth, if_neg (by omega), bind_of_run hbytes, Bytes.toNatBE_ofNatBE hhigh,
    if_pos ⟨Bytes.head?_ofNatBE hlow hhigh, h, hlimit⟩]
  rfl

/-- **A length is read back**, in either form. -/
theorem contentLength_encodeLength {n : Nat} (h : n < lengthLimit) (rest : Bytes) :
    contentLength (encodeLength n ++ rest) = some (n, rest) := by
  rw [encodeLength]
  split_ifs with h7 h8 h16 h24
  · rw [List.singleton_append, contentLength, bind_of_run (byte_cons ..),
      if_pos (ofNat_lt_half h7), UInt8.toNat_ofNat_of_lt' (by show _ < 256; omega)]
    rfl
  · exact contentLength_long (w := 0) (by decide) (by show 1 ≤ n; omega) h8 (by omega) h rest
  · exact contentLength_long (w := 1) (by decide) (Nat.le_of_not_lt h8) h16 (by omega) h rest
  · exact contentLength_long (w := 2) (by decide) (Nat.le_of_not_lt h16) h24 (by omega) h rest
  · exact contentLength_long (w := 3) (by decide) (Nat.le_of_not_lt h24)
      (Nat.lt_trans h (by decide)) (by omega) h rest

theorem length_encode {tag : UInt8} {content : Bytes} (h : content.length < 0x80) :
    (encode tag content).length = content.length + 2 := by
  rw [encode, List.cons_append, encodeLength, if_pos h]
  simp

/-- **An element is read back**, whatever follows it. -/
theorem element_encode {tag : UInt8} (ht : isTag tag) {content : Bytes}
    (h : content.length < lengthLimit) (rest : Bytes) :
    element (encode tag content ++ rest) = some ((tag, content), rest) := by
  have hbytes : encode tag content ++ rest =
      tag :: (encodeLength content.length ++ (content ++ rest)) := by
    rw [encode, List.cons_append, List.cons_append, List.append_assoc]
  rw [hbytes, element, bind_of_run (byte_cons ..), ht]
  show (contentLength >>= fun n => bytes n >>= fun c => pure (tag, c)) _ = _
  rw [bind_of_run (contentLength_encodeLength h _), bind_of_run (bytes_append content rest)]
  rfl

theorem tagged_encode {tag : UInt8} (ht : isTag tag) {content : Bytes}
    (h : content.length < lengthLimit) (rest : Bytes) :
    tagged tag (encode tag content ++ rest) = some (content, rest) := by
  rw [tagged, bind_of_run (element_encode ht h rest)]
  dsimp only
  rw [if_pos rfl]
  rfl

/-- **A sequence is read back** if its reader takes its content to the end. -/
theorem sequence_encodeSequence {r : Reader α} {elements : List Bytes} {a : α}
    (hr : r elements.flatten = some (a, [])) (h : elements.flatten.length < lengthLimit)
    (rest : Bytes) : sequence r (encodeSequence elements ++ rest) = some (a, rest) := by
  rw [sequence, within, encodeSequence, bind_of_run (tagged_encode (by decide) h rest),
    whole?_of_run hr]
  rfl

/-- A sequence that is all there is. -/
theorem whole?_sequence {r : Reader α} {elements : List Bytes} {a : α}
    (hr : r elements.flatten = some (a, [])) (h : elements.flatten.length < lengthLimit) :
    whole? (sequence r) (encodeSequence elements) = some a := by
  have hread := sequence_encodeSequence hr h []
  rw [List.append_nil] at hread
  exact whole?_of_run hread

/-! ## Integers -/

theorem log2_div_byte {n : Nat} (h : 0x100 ≤ n) : n.log2 = (n / 0x100).log2 + 8 := by
  have hhalf : ∀ m, 2 ≤ m → m.log2 = (m / 2).log2 + 1 := fun m hm => by
    rw [Nat.log2_def, if_pos hm]
  rw [hhalf n (by omega), hhalf (n / 2) (by omega), hhalf (n / 2 / 2) (by omega),
    hhalf (n / 2 / 2 / 2) (by omega), hhalf (n / 2 / 2 / 2 / 2) (by omega),
    hhalf (n / 2 / 2 / 2 / 2 / 2) (by omega), hhalf (n / 2 / 2 / 2 / 2 / 2 / 2) (by omega),
    hhalf (n / 2 / 2 / 2 / 2 / 2 / 2 / 2) (by omega)]
  simp only [Nat.div_div_eq_div_mul]

/-- The shortest form of a number, byte by byte: a zero byte stands only before a byte
    with the highest bit. -/
theorem naturalContent_eq (n : Nat) : naturalContent n =
    if n < 0x80 then [UInt8.ofNat n]
    else if n < 0x100 then [0, UInt8.ofNat n]
    else naturalContent (n / 0x100) ++ [UInt8.ofNat n] := by
  have hshort : ∀ n < 0x80, n.log2 / 8 + 1 + (if n.log2 % 8 = 7 then 1 else 0) = 1 := by
    decide +kernel
  have hsign : ∀ n < 0x100, 0x80 ≤ n →
      n.log2 / 8 + 1 + (if n.log2 % 8 = 7 then 1 else 0) = 2 := by decide +kernel
  split_ifs with h7 h8
  · rw [naturalContent, hshort n h7]
    rfl
  · have hzero : UInt8.ofNat (n / 256) = 0 := by rw [Nat.div_eq_of_lt h8]; rfl
    rw [naturalContent, hsign n h8 (Nat.le_of_not_lt h7), Bytes.ofNatBE_succ, Bytes.ofNatBE_succ,
      hzero]
    rfl
  · have hlog := log2_div_byte (Nat.le_of_not_lt h8)
    have hwidth : n.log2 / 8 + 1 + (if n.log2 % 8 = 7 then 1 else 0) =
        (n / 0x100).log2 / 8 + 1 + (if (n / 0x100).log2 % 8 = 7 then 1 else 0) + 1 := by
      rw [hlog]
      split_ifs <;> omega
    rw [naturalContent, hwidth, Bytes.ofNatBE_succ, ← naturalContent]

/-- A byte after the shortest form of a number other than zero makes a shortest form. -/
theorem naturalOf?_concat {b : Bytes} {m : Nat} (hb : naturalOf? b = some m) (hm : m ≠ 0)
    (x : UInt8) : naturalOf? (b ++ [x]) = some (256 * m + x.toNat) := by
  cases b with
  | nil => cases hb
  | cons y rest =>
    cases rest with
    | nil =>
      rw [naturalOf?] at hb
      split_ifs at hb with hy
      have hyx : y = 0 → 0x80 ≤ x := fun h0 => by
        rw [h0] at hb
        exact absurd (Option.some_inj.1 hb).symm hm
      have hone : Bytes.toNatBE [y] = m := (Nat.zero_add _).trans (Option.some_inj.1 hb)
      rw [List.singleton_append, naturalOf?, if_pos ⟨hy, hyx⟩, ← hone]
      exact congrArg some (Bytes.toNatBE_concat [y] x)
    | cons z rest =>
      rw [naturalOf?] at hb
      split_ifs at hb with hy
      rw [List.cons_append, List.cons_append, naturalOf?, if_pos hy, ← Option.some_inj.1 hb]
      exact congrArg some (Bytes.toNatBE_concat (y :: z :: rest) x)

/-- **The shortest form of a number stands for it.** -/
theorem naturalOf?_naturalContent (n : Nat) : naturalOf? (naturalContent n) = some n := by
  induction n using Nat.strongRecOn with
  | ind n ih =>
  rw [naturalContent_eq]
  have hbyte : (UInt8.ofNat n).toNat = n % 0x100 := UInt8.toNat_ofNat'
  split_ifs with h7 h8
  · rw [naturalOf?, if_pos (ofNat_lt_half h7), hbyte, Nat.mod_eq_of_lt (by omega)]
  · rw [Nat.mod_eq_of_lt h8] at hbyte
    have hle : 0x80 ≤ UInt8.ofNat n := by
      rw [UInt8.le_iff_toNat_le, hbyte]; exact Nat.le_of_not_lt h7
    rw [naturalOf?, if_pos ⟨by decide, fun _ => hle⟩, Bytes.toNatBE]
    simp [hbyte]
  · have hlead := ih (n / 0x100) (Nat.div_lt_self (by omega) (by decide))
    rw [naturalOf?_concat hlead (by omega), hbyte, Nat.div_add_mod]

theorem length_naturalContent_le {n k : Nat} (h : n < Nat.pow 256 k) :
    (naturalContent n).length ≤ k + 1 := by
  induction k generalizing n with
  | zero =>
    have hn : n < 1 := h
    rw [naturalContent_eq, if_pos (by omega)]
    exact Nat.le_refl _
  | succ k ih =>
    have hn : n < Nat.pow 256 k * 256 := h
    rw [naturalContent_eq]
    split_ifs
    · simp
    · simp
    · rw [List.length_append, List.length_singleton]
      exact Nat.succ_le_succ (ih (Nat.div_lt_of_lt_mul (by omega)))

theorem natural_encodeNatural {n : Nat} (h : (naturalContent n).length < lengthLimit)
    (rest : Bytes) : natural (encodeNatural n ++ rest) = some (n, rest) := by
  rw [natural, encodeNatural, bind_of_run (tagged_encode (by decide) h rest),
    naturalOf?_naturalContent]
  rfl

/-! ## Identifiers and bit strings -/

theorem objectIdentifier_encode {content : Bytes} (h : isIdentifier content = true)
    (rest : Bytes) : objectIdentifier (encode identifierTag content ++ rest) =
      some (content, rest) := by
  have hsize : content.length ≤ 39 := by
    simp only [isIdentifier, Bool.and_eq_true, decide_eq_true_eq] at h
    exact h.1.1.2
  rw [objectIdentifier, bind_of_run (tagged_encode (by decide)
    (Nat.lt_of_le_of_lt hsize (by decide)) rest), if_pos h]
  rfl

theorem octetString_encode {content : Bytes} (h : content.length < lengthLimit) (rest : Bytes) :
    octetString (encode octetStringTag content ++ rest) = some (content, rest) :=
  tagged_encode (by decide) h rest

theorem bitString_encodeBitString {content : Bytes} (h : content.length + 1 < lengthLimit)
    (rest : Bytes) : bitString (encodeBitString content ++ rest) = some (content, rest) := by
  have hsize : (0 :: content : Bytes).length < lengthLimit := h
  rw [bitString, encodeBitString, bind_of_run (tagged_encode (by decide) hsize rest)]
  rfl

/-! ## Numbered fields -/

theorem next?_cons (tag : UInt8) (b : Bytes) : next? (tag :: b) = some (some tag, tag :: b) := rfl

section
variable {number tag : UInt8} (ht : isContextTag tag = true) (r : Reader α) (b : Bytes)
include ht

/-- What a reader of a numbered field finds if no field of a lower number is there. -/
theorem contextField_cons (hn : number ≤ tagNumber tag) :
    contextField number r (tag :: b) =
      if tagNumber tag = number then (some <$> r) (tag :: b) else some (none, tag :: b) := by
  have hskip (limit : Nat) : skipUpTo (fun tag => isContextTag tag && tagNumber tag < number)
      limit (tag :: b) = some ((), tag :: b) := by
    cases limit with
    | zero => rfl
    | succ limit =>
      rw [skipUpTo, bind_of_run (next?_cons tag b)]
      dsimp only
      rw [decide_eq_false (UInt8.not_lt.2 hn), Bool.and_false]
      rfl
  have hget : (get : Reader Bytes) (tag :: b) = some (tag :: b, tag :: b) := rfl
  rw [contextField, bind_of_run hget, bind_of_run (hskip _), bind_of_run (next?_cons tag b)]
  dsimp only
  simp only [ht, Bool.true_and, decide_eq_true_eq]
  split_ifs <;> rfl

end

theorem encode_append (tag : UInt8) (content rest : Bytes) : encode tag content ++ rest =
    tag :: (encodeLength content.length ++ content ++ rest) := rfl

/-- A field of a higher number is passed by. -/
theorem contextField_of_lt {number tag : UInt8} (ht : isContextTag tag = true)
    (hn : number < tagNumber tag) (r : Reader α) (content rest : Bytes) :
    contextField number r (encode tag content ++ rest) = some (none, encode tag content ++ rest) := by
  rw [encode_append, contextField_cons ht r _ (UInt8.le_of_lt hn), if_neg (UInt8.ne_of_lt hn).symm]

theorem contextField_of_eq {number tag : UInt8} (ht : isContextTag tag = true)
    (hn : tagNumber tag = number) {r : Reader α} {content rest : Bytes} {a : α}
    (hr : r (encode tag content ++ rest) = some (a, rest)) :
    contextField number r (encode tag content ++ rest) = some (some a, rest) := by
  rw [encode_append] at hr ⊢
  rw [contextField_cons ht r _ (UInt8.le_of_eq hn.symm), if_pos hn]
  exact bind_of_run (f := fun a => pure (some a)) hr

theorem explicitField_of_lt {number tag : UInt8} (ht : isContextTag tag = true)
    (hn : number < tagNumber tag) (r : Reader α) (content rest : Bytes) :
    explicitField number r (encode tag content ++ rest) = some (none, encode tag content ++ rest) :=
  contextField_of_lt ht hn _ content rest

/-- **A field that holds an element is read back.** -/
theorem explicitField_encode {number : UInt8} (ht : isTag (contextTag true number) = true)
    (hc : isContextTag (contextTag true number) = true)
    (hn : tagNumber (contextTag true number) = number) {r : Reader α} {content : Bytes} {a : α}
    (hr : r content = some (a, [])) (h : content.length < lengthLimit) (rest : Bytes) :
    explicitField number r (encode (contextTag true number) content ++ rest) =
      some (some a, rest) := by
  refine contextField_of_eq hc hn ?_
  rw [within, bind_of_run (tagged_encode ht h rest), whole?_of_run hr]
  rfl

/-- **A field that holds the content of a bit string is read back.** -/
theorem bitStringField_encode {number : UInt8} (ht : isTag (contextTag false number) = true)
    (hc : isContextTag (contextTag false number) = true)
    (hn : tagNumber (contextTag false number) = number) {content : Bytes}
    (h : content.length + 1 < lengthLimit) (rest : Bytes) :
    bitStringField number (encode (contextTag false number) (0 :: content) ++ rest) =
      some (some content, rest) := by
  have hsize : (0 :: content : Bytes).length < lengthLimit := h
  refine contextField_of_eq hc hn ?_
  rw [bind_of_run (tagged_encode ht hsize rest)]
  rfl

/-! ## What readers leave -/

/-- What the second reader of two has taken. -/
theorem run_bind_eq_some {x : Reader α} {f : α → Reader β} {b rest : Bytes} {c : β} :
    (x >>= f) b = some (c, rest) ↔ ∃ a b', x b = some (a, b') ∧ f a b' = some (c, rest) := by
  show (x b).bind (fun p => f p.1 p.2) = _ ↔ _
  simp only [Option.bind_eq_some_iff, Prod.exists]

theorem run_pure_eq_some {a c : α} {b rest : Bytes} :
    (pure a : Reader α) b = some (c, rest) ↔ a = c ∧ b = rest := by
  show some (a, b) = some (c, rest) ↔ _
  rw [Option.some_inj, Prod.mk.injEq]

theorem run_of_whole? {r : Reader α} {b : Bytes} {a : α} (h : whole? r b = some a) :
    r b = some (a, []) := by
  rw [whole?] at h
  split at h
  · next hrun => cases h; exact hrun
  · cases h

section
variable {b rest content : Bytes}

theorem length_of_byte {x : UInt8} (h : byte b = some (x, rest)) :
    b.length = rest.length + 1 := by
  cases b with
  | nil => cases h
  | cons => cases h; rfl

theorem length_of_bytes {n : Nat} (h : bytes n b = some (content, rest)) :
    b.length = content.length + rest.length := by
  rw [bytes] at h
  split at h
  · cases h
    rw [← List.length_append, List.take_append_drop]
  · cases h

theorem length_of_contentLength {n : Nat} (h : contentLength b = some (n, rest)) :
    rest.length ≤ b.length := by
  obtain ⟨first, b₁, hfirst, h⟩ := run_bind_eq_some.1 h
  have hlen := length_of_byte hfirst
  split at h
  · obtain ⟨-, rfl⟩ := run_pure_eq_some.1 h
    omega
  · dsimp only at h
    split at h
    · cases h
    · obtain ⟨digits, b₂, hdigits, h⟩ := run_bind_eq_some.1 h
      have hlen := length_of_bytes hdigits
      split at h
      · obtain ⟨-, rfl⟩ := run_pure_eq_some.1 h
        omega
      · cases h

theorem length_of_element {tag : UInt8} (h : element b = some ((tag, content), rest)) :
    content.length + rest.length ≤ b.length := by
  obtain ⟨found, b₁, hfound, h⟩ := run_bind_eq_some.1 h
  have h₁ := length_of_byte hfound
  split at h
  · cases h
  · obtain ⟨n, b₂, hn, h⟩ := run_bind_eq_some.1 h
    obtain ⟨taken, b₃, htaken, h⟩ := run_bind_eq_some.1 h
    obtain ⟨heq, rfl⟩ := run_pure_eq_some.1 h
    cases heq
    have h₂ := length_of_contentLength hn
    have h₃ := length_of_bytes htaken
    omega

theorem length_of_tagged {tag : UInt8} (h : tagged tag b = some (content, rest)) :
    content.length + rest.length ≤ b.length := by
  obtain ⟨⟨found, taken⟩, b₁, helement, h⟩ := run_bind_eq_some.1 h
  dsimp only at h
  split at h
  · obtain ⟨rfl, rfl⟩ := run_pure_eq_some.1 h
    exact length_of_element helement
  · cases h

/-- An element that was read has a content that its reader takes to the end. -/
theorem exists_content_of_within {tag : UInt8} {r : Reader α} {a : α}
    (h : within tag r b = some (a, rest)) :
    ∃ content, content.length + rest.length ≤ b.length ∧ r content = some (a, []) := by
  obtain ⟨content, b₁, hcontent, h⟩ := run_bind_eq_some.1 h
  have hlen := length_of_tagged hcontent
  cases hr : whole? r content with
  | none => rw [hr] at h; cases h
  | some a' =>
    rw [hr] at h
    obtain ⟨rfl, rfl⟩ := run_pure_eq_some.1 h
    exact ⟨content, hlen, run_of_whole? hr⟩

theorem length_of_bitString (h : bitString b = some (content, rest)) :
    content.length + rest.length ≤ b.length := by
  obtain ⟨taken, b₁, htaken, h⟩ := run_bind_eq_some.1 h
  have hlen := length_of_tagged htaken
  cases hbits : bitStringOf? taken with
  | none => rw [hbits] at h; cases h
  | some bits =>
    rw [hbits] at h
    obtain ⟨rfl, rfl⟩ := run_pure_eq_some.1 h
    rw [bitStringOf?.eq_def] at hbits
    split at hbits
    · cases hbits
      exact Nat.le_of_succ_le (by rwa [List.length_cons, Nat.succ_add] at hlen)
    · cases hbits

end
end BootSeal.Der
