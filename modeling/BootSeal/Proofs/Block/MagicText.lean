/-
  BootSeal — the texts that a magic pattern is written in.

  * `WrittenWord`: a word as it is written, decimal or after a mark, and the number that it
    denotes. Its digits may have a plus sign before them;
  * `Text.markedWord?_eq_some_iff`: a word is read from its mark, its sign and its digits;
  * `Magic.wordOfText_eq_ok_iff`: hence the texts that are read as words are the written
    ones, with blanks around them;
  * `Magic.ofText_exact`: so a pattern is read exactly from three written words with commas
    between them, and all else is an error of the pattern.
-/
import BootSeal.Block.Magic
import BootSeal.Proofs.Partition.HexLiteral
import BootSeal.Proofs.Result
import BootSeal.Proofs.Text.Lines

namespace BootSeal

/-! ## Written words -/

/-- Of all signs there is a plus sign or none. -/
theorem Text.mem_signs_iff {sign : List Char} : sign ∈ [[], ['+']] ↔ sign = [] ∨ sign = ['+'] := by
  rw [List.mem_cons, List.mem_singleton]

/-- What stands before the digits of a number, and tells their radix. -/
inductive RadixMark where
  | decimal
  | hex
  | upperHex
  deriving DecidableEq, Repr

namespace RadixMark

def text : RadixMark → List Char
  | decimal => []
  | hex => ['0', 'x']
  | upperHex => ['0', 'X']

def radix : RadixMark → Nat
  | decimal => 10
  | hex | upperHex => 16

theorem radix_le (mark : RadixMark) : mark.radix ≤ 16 := by
  cases mark <;> decide

theorem forall_mem_text {mark : RadixMark} {P : Char → Prop} (h : P '0' ∧ P 'x' ∧ P 'X') :
    ∀ c ∈ mark.text, P c := by
  cases mark with
  | decimal => exact List.forall_mem_nil P
  | hex => exact List.forall_mem_cons.2 ⟨h.1, List.forall_mem_singleton.2 h.2.1⟩
  | upperHex => exact List.forall_mem_cons.2 ⟨h.1, List.forall_mem_singleton.2 h.2.2⟩

end RadixMark

/-- A number as a magic pattern has it, in decimal digits or in hexadecimal ones after a
    mark, with blanks around it. A plus sign may stand before the digits. -/
structure WrittenWord where
  before : List Char
  mark : RadixMark
  sign : List Char
  digits : List Char
  after : List Char
  value : Nat
  isBlank_before : ∀ c ∈ before, Text.isBlank c = true
  sign_mem : sign ∈ [[], ['+']]
  digits_ne_nil : digits ≠ []
  denotes : Text.Denotes mark.radix digits value
  isBlank_after : ∀ c ∈ after, Text.isBlank c = true

namespace WrittenWord

/-- The number without the blanks. -/
def core (w : WrittenWord) : List Char := w.mark.text ++ (w.sign ++ w.digits)

def text (w : WrittenWord) : List Char := w.before ++ w.core ++ w.after

variable (w : WrittenWord)

theorem eq_plus_of_mem_sign {c : Char} (hc : c ∈ w.sign) : c = '+' := by
  rcases Text.mem_signs_iff.1 w.sign_mem with h | h
  · rw [h] at hc
    cases hc
  · rw [h] at hc
    exact List.mem_singleton.1 hc

/-- What holds of the characters of marks, of a plus sign if there is one, and of digits,
    holds of all characters of a number. -/
theorem forall_mem_core {P : Char → Prop} (hmark : P '0' ∧ P 'x' ∧ P 'X')
    (hsign : '+' ∈ w.sign → P '+') (hdigit : ∀ c, Text.isHexDigit c = true → P c) :
    ∀ c ∈ w.core, P c := by
  rw [core, List.forall_mem_append, List.forall_mem_append]
  refine ⟨RadixMark.forall_mem_text hmark, fun c hc => ?_, fun c hc => ?_⟩
  · obtain rfl := w.eq_plus_of_mem_sign hc
    exact hsign hc
  · exact hdigit c (w.denotes.isHexDigit_of_le w.mark.radix_le c hc)

theorem isWord_core : Text.IsWord w.core := by
  refine ⟨?_, w.forall_mem_core (by decide) (fun _ => by decide) fun c hc => ?_⟩
  · exact List.append_ne_nil_of_right_ne_nil _
      (List.append_ne_nil_of_right_ne_nil _ w.digits_ne_nil)
  · exact (Text.isHexDigit_ne hc).1

/-- The blanks are gone from both ends. -/
theorem trim_text : Text.trim w.text = w.core := by
  rw [text, Text.trim, Text.stripWhile_append w.isBlank_before w.isBlank_after]
  exact w.isWord_core.trim

/-- A character that is no blank stands in the text exactly if it stands in the number. -/
theorem mem_text_iff {c : Char} (h : Text.isBlank c = false) : c ∈ w.text ↔ c ∈ w.core := by
  have hblank {l : List Char} (hl : ∀ c ∈ l, Text.isBlank c = true) : c ∉ l := fun hc =>
    Bool.false_ne_true (h.symm.trans (hl c hc))
  rw [text, List.mem_append, List.mem_append, or_iff_left (hblank w.isBlank_after),
    or_iff_right (hblank w.isBlank_before)]

theorem comma_not_mem_text : ',' ∉ w.text := by
  rw [w.mem_text_iff (by decide)]
  intro hc
  have hne := w.forall_mem_core (P := (· ≠ ',')) (by decide) (fun _ => by decide) fun c hc => by
    rintro rfl
    cases hc
  exact hne _ hc rfl

/-- A word without a sign has no plus sign anywhere. -/
theorem sign_eq_nil_iff : w.sign = [] ↔ '+' ∉ w.text := by
  rw [w.mem_text_iff (by decide)]
  constructor
  · intro hnil hc
    have hne := w.forall_mem_core (P := (· ≠ '+')) (by decide)
      (fun hmem => absurd hmem (hnil ▸ List.not_mem_nil)) fun c hc => (Text.isHexDigit_ne hc).2.2.2
    exact hne _ hc rfl
  · intro hnot
    refine List.eq_nil_iff_forall_not_mem.2 fun c hc => hnot ?_
    obtain rfl := w.eq_plus_of_mem_sign hc
    exact List.mem_append_right _ (List.mem_append_left _ hc)

end WrittenWord

/-! ## Reading words -/

namespace Text

variable {s : List Char} {n : UInt32}

/-- A run that begins with a plus sign is no run of digits. -/
theorem ofDigits?_cons_plus {radix : Nat} (hle : radix ≤ 16) (digits : List Char) :
    ofDigits? radix ('+' :: digits) = none := by
  rw [Option.eq_none_iff_forall_ne_some]
  intro n h
  have hplus := (ofDigits?_eq_some_iff.1 h).2.isHexDigit_of_le hle '+' List.mem_cons_self
  exact absurd hplus (by decide)

/-- A word is read from digits, with or without a plus sign before them. -/
theorem word?_eq_some_iff_exists {radix : Nat} (hle : radix ≤ 16) : word? radix s = some n ↔
    ∃ sign ∈ [[], ['+']], ∃ digits, s = sign ++ digits ∧
      ofDigits? radix digits = some n.toNat := by
  constructor
  · intro h
    by_cases hs : s.head? = some '+'
    · obtain ⟨digits, rfl⟩ := List.head?_eq_some_iff.1 hs
      exact ⟨['+'], by simp, digits, rfl, word?_cons_plus.1 h⟩
    · exact ⟨[], by simp, s, rfl, (word?_eq_some_iff hs).1 h⟩
  · rintro ⟨sign, hsign, digits, rfl, h⟩
    rcases mem_signs_iff.1 hsign with rfl | rfl
    · refine (word?_eq_some_iff fun hs => ?_).2 h
      obtain ⟨rest, rfl⟩ := List.head?_eq_some_iff.1 hs
      rw [ofDigits?_cons_plus hle] at h
      cases h
    · exact word?_cons_plus.2 h

/-- Decimal digits do not begin with a hexadecimal mark, whatever their sign. -/
theorem afterHexMark?_eq_none {sign digits : List Char} (hsign : sign ∈ [[], ['+']])
    (h : ofDigits? 10 digits = some n.toNat) : afterHexMark? (sign ++ digits) = none := by
  have hdigit := (ofDigits?_eq_some_iff.1 h).2.isHexDigit_of_le (by decide)
  rcases mem_signs_iff.1 hsign with rfl | rfl
  · rw [List.nil_append, afterHexMark?.eq_def]
    split
    · exact absurd (hdigit 'x' (by simp)) (by decide)
    · exact absurd (hdigit 'X' (by simp)) (by decide)
    · rfl
  · rfl

/-- **A word is read from its mark, its sign and its digits**, if these denote it. -/
theorem markedWord?_eq_some_iff : markedWord? s = some n ↔
    ∃ mark : RadixMark, ∃ sign ∈ [[], ['+']], ∃ digits, s = mark.text ++ (sign ++ digits) ∧
      ofDigits? mark.radix digits = some n.toNat := by
  constructor
  · intro h
    rw [markedWord?, afterHexMark?.eq_def] at h
    split at h
    · next rest hrest =>
      split at hrest
      · cases hrest
        obtain ⟨sign, hsign, digits, rfl, hdigits⟩ := (word?_eq_some_iff_exists (by decide)).1 h
        exact ⟨.hex, sign, hsign, digits, rfl, hdigits⟩
      · cases hrest
        obtain ⟨sign, hsign, digits, rfl, hdigits⟩ := (word?_eq_some_iff_exists (by decide)).1 h
        exact ⟨.upperHex, sign, hsign, digits, rfl, hdigits⟩
      · cases hrest
    · exact ⟨.decimal, (word?_eq_some_iff_exists (by decide)).1 h⟩
  · rintro ⟨mark, sign, hsign, digits, rfl, h⟩
    have hword := (word?_eq_some_iff_exists mark.radix_le).2 ⟨sign, hsign, digits, rfl, h⟩
    cases mark with
    | decimal =>
      show markedWord? (sign ++ digits) = some n
      rw [markedWord?, afterHexMark?_eq_none hsign h]
      exact hword
    | hex | upperHex => exact hword

end Text

namespace Magic

/-- **A piece is read as a word exactly if it is written as one.** -/
theorem wordOfText_eq_ok_iff {piece : List Char} {n : UInt32} :
    wordOfText piece = .ok n ↔ ∃ w : WrittenWord, w.text = piece ∧ w.value = n.toNat := by
  have hok : wordOfText piece = .ok n ↔ Text.markedWord? (Text.trim piece) = some n := by
    rw [wordOfText]
    cases Text.markedWord? (Text.trim piece) <;> simp
  rw [hok, Text.markedWord?_eq_some_iff]
  constructor
  · rintro ⟨mark, sign, hsign, digits, htrim, h⟩
    obtain ⟨before, after, hpiece, hbefore, hafter⟩ := Text.exists_stripWhile Text.isBlank piece
    obtain ⟨hne, hdenotes⟩ := Text.ofDigits?_eq_some_iff.1 h
    rw [← Text.trim, htrim] at hpiece
    exact ⟨⟨before, mark, sign, digits, after, n.toNat, hbefore, hsign, hne, hdenotes, hafter⟩,
      hpiece.symm, rfl⟩
  · rintro ⟨w, rfl, hvalue⟩
    exact ⟨w.mark, w.sign, w.sign_mem, w.digits, w.trim_text,
      Text.ofDigits?_eq_some_iff.2 ⟨w.digits_ne_nil, hvalue ▸ w.denotes⟩⟩

/-! ## Reading patterns -/

/-- A text that has written words with commas between them, and the pattern of their
    numbers. -/
def WrittenAs (text : String) (m : Magic) (words : List WrittenWord) : Prop :=
  text.toList = [','].intercalate (words.map WrittenWord.text) ∧
    words.map WrittenWord.value = m.words.map UInt32.toNat

/-- Pieces that are read as words one by one are the texts of written words. -/
theorem forall₂_wordOfText_iff {pieces : List (List Char)} {ns : List UInt32} :
    List.Forall₂ (fun piece n => wordOfText piece = .ok n) pieces ns ↔
      ∃ words : List WrittenWord, words.map WrittenWord.text = pieces ∧
        words.map WrittenWord.value = ns.map UInt32.toNat := by
  constructor
  · intro h
    induction h with
    | nil => exact ⟨[], rfl, rfl⟩
    | cons hword _ ih =>
      obtain ⟨w, rfl, hvalue⟩ := wordOfText_eq_ok_iff.1 hword
      obtain ⟨words, rfl, hvalues⟩ := ih
      exact ⟨w :: words, rfl, congrArg₂ List.cons hvalue hvalues⟩
  · rintro ⟨words, rfl, hvalues⟩
    rw [List.forall₂_map_left_iff]
    have hwords : List.Forall₂ (fun value n => value = UInt32.toNat n)
        (words.map WrittenWord.value) ns := by
      rw [hvalues, List.forall₂_map_left_iff]
      exact List.forall₂_same.2 fun _ _ => rfl
    rw [List.forall₂_map_left_iff] at hwords
    exact hwords.imp fun w n hvalue => wordOfText_eq_ok_iff.2 ⟨w, rfl, hvalue⟩

/-- A pattern has as many words as its text has pieces, and the same ones. -/
theorem ofText_eq_ok_iff {text : String} {m : Magic} :
    ofText text = .ok m ↔ (Text.pieces ',' text.toList).mapM wordOfText = .ok m.words := by
  rw [ofText, bind_eq_ok]
  constructor
  · rintro ⟨ns, hns, h⟩
    split at h
    · cases h
      exact hns
    · cases h
  · intro h
    exact ⟨m.words, h, rfl⟩

/-- **A pattern is read from written words** with commas between them, and from nothing
    else. -/
theorem ofText_eq_ok_iff_exists {text : String} {m : Magic} :
    ofText text = .ok m ↔ ∃ words, WrittenAs text m words := by
  rw [ofText_eq_ok_iff, mapM_eq_ok_iff, forall₂_wordOfText_iff, Text.pieces_eq_splitOn]
  refine exists_congr fun words => and_congr_left fun hvalues => ?_
  constructor
  · intro htexts
    rw [htexts, List.intercalate_splitOn]
  · intro htext
    have hne : words.map WrittenWord.text ≠ [] := by
      intro hnil
      rw [List.map_eq_nil_iff.1 hnil] at hvalues
      cases hvalues
    have hcomma : ∀ piece ∈ words.map WrittenWord.text, ',' ∉ piece := by
      intro piece hpiece
      obtain ⟨w, -, rfl⟩ := List.mem_map.1 hpiece
      exact w.comma_not_mem_text
    rw [htext, List.splitOn_intercalate ',' hcomma hne]

/-- What is no pattern is an error of the pattern. -/
theorem ofText_fails (text : String) : FailsWith
    (fun e => ∃ cause, e = .configuration cause ∧ cause.key = "magic-value") (ofText text) := by
  refine FailsWith.bind (FailsWith.mapM (fun piece => ?_) _) fun words => ?_
  · rw [wordOfText]
    split
    · exact .ok _
    · exact ⟨_, rfl, rfl⟩
  · split
    · exact .pure _
    · exact ⟨_, rfl, rfl⟩

/-- The words have no signs exactly if the text has no plus sign. -/
theorem WrittenAs.forall_sign_iff {text : String} {m : Magic} {words : List WrittenWord}
    (h : WrittenAs text m words) : (∀ w ∈ words, w.sign = []) ↔ '+' ∉ text.toList := by
  have hmem : '+' ∈ text.toList ↔ ∃ w ∈ words, '+' ∈ w.text := by
    rw [h.1, Text.mem_intercalate_iff (by decide)]
    simp only [List.mem_map, exists_exists_and_eq_and]
  simp only [hmem, not_exists, not_and, WrittenWord.sign_eq_nil_iff]

/-- **Without signs** a text is written words if it is a pattern and has no plus sign. -/
theorem exists_unsigned_iff {text : String} {m : Magic} :
    (∃ words, WrittenAs text m words ∧ ∀ w ∈ words, w.sign = []) ↔
      ofText text = .ok m ∧ '+' ∉ text.toList := by
  rw [ofText_eq_ok_iff_exists]
  constructor
  · rintro ⟨words, hwords, hsign⟩
    exact ⟨⟨words, hwords⟩, hwords.forall_sign_iff.1 hsign⟩
  · rintro ⟨⟨words, hwords⟩, hplus⟩
    exact ⟨words, hwords, hwords.forall_sign_iff.2 hplus⟩

/-- **A pattern is read exactly from three written words** with commas between them, in
    this order, and every other text is an error of the pattern. So decimal digits and
    hexadecimal ones after a mark, with blanks around them, are read as the numbers that they
    denote; and a text that is read although it is not made of three such words has a plus
    sign before some of its digits. -/
theorem ofText_exact (text : String) :
    (∀ m, ofText text = .ok m ↔ ∃ words, WrittenAs text m words) ∧
    (∀ e, ofText text = .error e →
      ∃ cause, e = .configuration cause ∧ cause.key = "magic-value") ∧
    ∀ m, (∃ words, WrittenAs text m words ∧ ∀ w ∈ words, w.sign = []) ↔
      ofText text = .ok m ∧ '+' ∉ text.toList :=
  ⟨fun _ => ofText_eq_ok_iff_exists, fun _ => (ofText_fails text).of_eq,
    fun _ => exists_unsigned_iff⟩

/-- Both marks, blanks of several kinds and leading zeros, and a word that needs 33 bits. -/
theorem ofText_exact_both_marks :
    (∃ words, WrittenAs " 0x281ee6DE,\t0X0086518483\n,00079362" ⟨0x281ee6de, 0x86518483, 79362⟩ words ∧
      ∀ w ∈ words, w.sign = []) ∧
    ∃ e cause, ofText "0x100000000,1,2" = .error e ∧ e = .configuration cause ∧
      cause.key = "magic-value" := by
  have hok : ofText " 0x281ee6DE,\t0X0086518483\n,00079362" =
      .ok ⟨0x281ee6de, 0x86518483, 79362⟩ := rfl
  obtain ⟨e, he⟩ := exists_eq_error_of_toBool (x := ofText "0x100000000,1,2") rfl
  obtain ⟨cause, hcause⟩ := (ofText_exact "0x100000000,1,2").2.1 e he
  exact ⟨((ofText_exact _).2.2 _).2 ⟨hok, by decide⟩, e, cause, he, hcause⟩

/-- **Digits with a sign pass**, though no number is documented to have one. -/
theorem signed_words_pass :
    (ofText "+1,2,3" = .ok ⟨1, 2, 3⟩ ∧ ofText "1,0x+2,3" = .ok ⟨1, 2, 3⟩) ∧
    (¬ ∃ m words, WrittenAs "+1,2,3" m words ∧ ∀ w ∈ words, w.sign = []) ∧
    ¬ ∃ m words, WrittenAs "1,0x+2,3" m words ∧ ∀ w ∈ words, w.sign = [] := by
  refine ⟨⟨rfl, rfl⟩, ?_, ?_⟩
  · rintro ⟨m, hwords⟩
    exact absurd (exists_unsigned_iff.1 hwords).2 (by decide)
  · rintro ⟨m, hwords⟩
    exact absurd (exists_unsigned_iff.1 hwords).2 (by decide)

end Magic

end BootSeal
