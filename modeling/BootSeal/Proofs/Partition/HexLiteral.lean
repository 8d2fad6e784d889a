/-
  BootSeal — the texts that a build configuration has its numbers in.

  * `HexLiteral`: digits with all that may stand around them, and the number that they denote;
  * `HexLiteral.hexDigits_text` and `exists_hexLiteral`: the digits that are looked for in a
    text are those of a literal that it is, and every text with digits there is a literal;
  * `parseHex_exact`: hence the texts that are read as numbers are the literals of numbers
    below the limit; and `parseHex_marked`: digits after a mark are one of them.
-/
import BootSeal.Partition.Config
import BootSeal.Proofs.Text.Blank
import BootSeal.Proofs.Text.Number

namespace BootSeal

/-! ## Literals -/

/-- A hexadecimal number as builds write it: in quotes, with a mark before its digits and with
    suffix letters after them, or without any of them. Quotes need not match. -/
structure HexLiteral where
  before : List Char
  opening : List Char
  mark : String
  digits : List Char
  suffix : List Char
  closing : List Char
  after : List Char
  value : Nat
  isBlank_before : ∀ c ∈ before, Text.isBlank c = true
  isQuote_opening : ∀ c ∈ opening, c = '"'
  mark_mem : mark ∈ ["", "0x", "0X"]
  digits_ne_nil : digits ≠ []
  denotes : Text.Denotes 16 digits value
  isSuffix : ∀ c ∈ suffix, isSuffixLetter c = true
  isQuote_closing : ∀ c ∈ closing, c = '"'
  isBlank_after : ∀ c ∈ after, Text.isBlank c = true

/-- What a hexadecimal digit is not. -/
theorem Text.isHexDigit_ne {c : Char} (h : isHexDigit c = true) :
    isBlank c = false ∧ isSuffixLetter c = false ∧ c ≠ '"' ∧ c ≠ '+' := by
  have hn := toNat_of_isHexDigit h
  have hne {d : Char} (hd : c.toNat ≠ d.toNat) : c ≠ d := fun h => hd (congrArg Char.toNat h)
  refine ⟨?_, ?_, hne ?_, hne ?_⟩
  · simp only [isBlank, Bool.or_eq_false_iff, Bool.and_eq_false_iff, decide_eq_false_iff_not,
      beq_eq_false_iff_ne]
    omega
  · simp only [isSuffixLetter, Bool.or_eq_false_iff, beq_eq_false_iff_ne]
    refine ⟨⟨⟨hne ?_, hne ?_⟩, hne ?_⟩, hne ?_⟩ <;> simp <;> omega
  · simp; omega
  · simp; omega

theorem Text.isSuffixLetter_ne {c : Char} (h : isSuffixLetter c = true) :
    isBlank c = false ∧ c ≠ '"' := by
  simp only [isSuffixLetter, Bool.or_eq_true, beq_iff_eq] at h
  obtain ((rfl | rfl) | rfl) | rfl := h <;> exact ⟨by decide, by decide⟩

namespace HexLiteral

/-- The number with its mark and its suffix. -/
def core (l : HexLiteral) : List Char := l.mark.toList ++ l.digits ++ l.suffix

def text (l : HexLiteral) : List Char :=
  l.before ++ (l.opening ++ l.core ++ l.closing) ++ l.after

variable (l : HexLiteral)

theorem core_ne_nil : l.core ≠ [] :=
  List.append_ne_nil_of_left_ne_nil (List.append_ne_nil_of_right_ne_nil _ l.digits_ne_nil) _

/-- Blanks and quotes only stand around the number. -/
theorem core_ne : ∀ c ∈ l.core, Text.isBlank c = false ∧ c ≠ '"' := by
  have hmark : ∀ c ∈ l.mark.toList, Text.isBlank c = false ∧ c ≠ '"' := by
    have h := l.mark_mem
    simp only [List.mem_cons, List.not_mem_nil, or_false] at h
    intro c hc
    obtain h | h | h := h <;> rw [h] at hc
    · cases hc
    all_goals
      obtain rfl | rfl : c = '0' ∨ _ := by simpa using hc
      all_goals exact ⟨by decide, by decide⟩
  rw [core, List.forall_mem_append, List.forall_mem_append]
  refine ⟨⟨hmark, fun c hc => ?_⟩, fun c hc => Text.isSuffixLetter_ne (l.isSuffix c hc)⟩
  obtain ⟨hblank, -, hquote, -⟩ := Text.isHexDigit_ne (l.denotes.isHexDigit c hc)
  exact ⟨hblank, hquote⟩

/-- The blanks are gone from both ends. -/
theorem trim_text : Text.trim l.text = l.opening ++ l.core ++ l.closing := by
  have hquote {c : Char} (h : c = '"') : Text.isBlank c = false := by
    subst h
    decide
  have hword : Text.IsWord (l.opening ++ l.core ++ l.closing) := by
    refine ⟨List.append_ne_nil_of_left_ne_nil
      (List.append_ne_nil_of_right_ne_nil _ l.core_ne_nil) _, ?_⟩
    rw [List.forall_mem_append, List.forall_mem_append]
    exact ⟨⟨fun c hc => hquote (l.isQuote_opening c hc), fun c hc => (l.core_ne c hc).1⟩,
      fun c hc => hquote (l.isQuote_closing c hc)⟩
  rw [text, Text.trim, Text.stripWhile_append l.isBlank_before l.isBlank_after]
  exact hword.trim

/-- The quotes are gone from both ends. -/
theorem stripWhile_text :
    Text.stripWhile (· == '"') (l.opening ++ l.core ++ l.closing) = l.core := by
  rw [Text.stripWhile_append (fun c hc => beq_iff_eq.2 (l.isQuote_opening c hc))
    (fun c hc => beq_iff_eq.2 (l.isQuote_closing c hc))]
  have hquote {c : Char} (hc : c ∈ l.core) : (c == '"') = false :=
    beq_eq_false_iff_ne.2 (l.core_ne c hc).2
  exact Text.stripWhile_eq_self (fun c hc => hquote (List.mem_of_head? hc))
    fun c hc => hquote (List.mem_of_getLast? hc)

/-- The suffix is gone up to the last digit. -/
theorem dropRightWhile_core :
    Text.dropRightWhile isSuffixLetter l.core = l.mark.toList ++ l.digits := by
  rw [core, Text.dropRightWhile_append l.isSuffix]
  refine Text.dropRightWhile_eq_self fun c hc => ?_
  rw [List.getLast?_append, List.getLast?_eq_some_getLast l.digits_ne_nil, Option.some_or] at hc
  have hdigit := l.denotes.isHexDigit _ (List.getLast_mem l.digits_ne_nil)
  exact Option.some.inj hc ▸ (Text.isHexDigit_ne hdigit).2.1

/-- Digits do not begin with a mark of their own. -/
theorem afterHexMark?_digits : Text.afterHexMark? l.digits = none := by
  have hdigits := l.denotes.isHexDigit
  rw [Text.afterHexMark?.eq_def]
  split
  · next heq => exact absurd (hdigits 'x' (by rw [heq]; simp)) (by decide)
  · next heq => exact absurd (hdigits 'X' (by rw [heq]; simp)) (by decide)
  · rfl

/-- **The digits of a literal are found in its text.** -/
theorem hexDigits_text : hexDigits l.text = l.digits := by
  rw [hexDigits, l.trim_text, l.stripWhile_text, l.dropRightWhile_core]
  have h := l.mark_mem
  simp only [List.mem_cons, List.not_mem_nil, or_false] at h
  obtain h | h | h := h <;> rw [h]
  · show (Text.afterHexMark? l.digits).getD l.digits = l.digits
    rw [l.afterHexMark?_digits]
    rfl
  all_goals rfl

end HexLiteral

/-! ## Texts of numbers -/

/-- A mark is taken off or there is none. -/
theorem exists_hexMark (number : List Char) : ∃ mark ∈ ["", "0x", "0X"],
    number = mark.toList ++ (Text.afterHexMark? number).getD number := by
  rw [Text.afterHexMark?.eq_def]
  split
  · exact ⟨"0x", by simp, rfl⟩
  · exact ⟨"0X", by simp, rfl⟩
  · exact ⟨"", by simp, rfl⟩

/-- **A text with digits where they are looked for is a literal** of these digits. -/
theorem exists_hexLiteral {text : List Char} {n : Nat} (hne : hexDigits text ≠ [])
    (h : Text.Denotes 16 (hexDigits text) n) : ∃ l : HexLiteral, l.text = text ∧ l.value = n := by
  obtain ⟨before, after, htext, hbefore, hafter⟩ := Text.exists_stripWhile Text.isBlank text
  obtain ⟨opening, closing, hinner, hopening, hclosing⟩ :=
    Text.exists_stripWhile (· == '"') (Text.trim text)
  obtain ⟨suffix, hcore, hsuffix⟩ := Text.exists_dropRightWhile isSuffixLetter
    (Text.stripWhile (· == '"') (Text.trim text))
  obtain ⟨mark, hmark, hnumber⟩ := exists_hexMark (Text.dropRightWhile isSuffixLetter
    (Text.stripWhile (· == '"') (Text.trim text)))
  refine ⟨⟨before, opening, mark, hexDigits text, suffix, closing, after, n, hbefore,
    fun c hc => eq_of_beq (hopening c hc), hmark, hne, h, hsuffix,
    fun c hc => eq_of_beq (hclosing c hc), hafter⟩, ?_, rfl⟩
  have hdigits : mark.toList ++ hexDigits text = Text.dropRightWhile isSuffixLetter
    (Text.stripWhile (· == '"') (Text.trim text)) := hnumber.symm
  show before ++ (opening ++ (mark.toList ++ hexDigits text ++ suffix) ++ closing) ++ after = text
  rw [hdigits, ← hcore, ← hinner]
  exact htext.symm

/-- A text is read as a number if its digits denote it. -/
theorem parseHex_eq_ok_iff {key value : String} {n : UInt32} :
    parseHex key value = .ok n ↔ Text.ofDigits? 16 (hexDigits value.toList) = some n.toNat := by
  rw [parseHex]
  cases hexDigits value.toList with
  | nil => exact iff_of_false nofun nofun
  | cons d rest =>
    have hfirst : (((d :: rest).head?.map Text.isHexDigit).getD false) = Text.isHexDigit d := rfl
    rw [hfirst]
    by_cases hd : Text.isHexDigit d = true
    · have hsign : (d :: rest).head? ≠ some '+' := fun h =>
        (Text.isHexDigit_ne hd).2.2.2 (Option.some.inj h)
      rw [← Text.word?_eq_some_iff hsign, if_pos hd]
      cases Text.word? 16 (d :: rest) <;> simp
    · rw [if_neg hd]
      exact iff_of_false nofun fun h => hd ((Text.isHexDigit_of_ofDigits? h).2 d List.mem_cons_self)

theorem parseHex_eq_error_iff {key value : String} {e : ConfigError} :
    parseHex key value = .error e ↔
      e = .invalidHex key value ∧ ∀ n, parseHex key value ≠ .ok n := by
  rw [parseHex]
  split
  · simp
  · simp [eq_comm]

/-- **A text is read as a number exactly if it is a literal of that number**, and as an error
    with key and text if it is no literal or its number needs more than 32 bits. -/
theorem parseHex_exact (key value : String) :
    (∀ n, parseHex key value = .ok n ↔
      ∃ l : HexLiteral, l.text = value.toList ∧ l.value = n.toNat) ∧
    ∀ e, parseHex key value = .error e ↔ e = .invalidHex key value ∧
      ∀ l : HexLiteral, l.text = value.toList → UInt32.size ≤ l.value := by
  have hok (n : UInt32) : parseHex key value = .ok n ↔
      ∃ l : HexLiteral, l.text = value.toList ∧ l.value = n.toNat := by
    rw [parseHex_eq_ok_iff, Text.ofDigits?_eq_some_iff]
    constructor
    · rintro ⟨hne, hdenotes⟩
      exact exists_hexLiteral hne hdenotes
    · rintro ⟨l, htext, hvalue⟩
      rw [← htext, l.hexDigits_text, ← hvalue]
      exact ⟨l.digits_ne_nil, l.denotes⟩
  refine ⟨hok, fun e => ?_⟩
  rw [parseHex_eq_error_iff]
  refine and_congr_right fun _ => ⟨fun hnone l htext => ?_, fun hall n h => ?_⟩
  · by_contra hlt
    have hlt : l.value < UInt32.size := Nat.lt_of_not_le hlt
    exact hnone (UInt32.ofNat l.value) ((hok _).2
      ⟨l, htext, (UInt32.toNat_ofNat_of_lt' hlt).symm⟩)
  · obtain ⟨l, htext, hvalue⟩ := (hok n).1 h
    exact Nat.not_lt.2 (hall l htext) (hvalue ▸ n.toNat_lt)

/-- Quotes without a partner, leading zeros, a suffix, and the largest number. -/
example : parseHex "K" "\t\"\"0X00ffffFFFFuL\"\r" = .ok 0xffffffff := by decide

/-! ## Digits after a mark -/

theorem isWord_marked {digits : List Char} (h : ∀ c ∈ digits, Text.isHexDigit c = true) :
    Text.IsWord ('0' :: 'x' :: digits) := by
  refine ⟨List.cons_ne_nil _ _, ?_⟩
  simp only [List.forall_mem_cons]
  exact ⟨by decide, by decide, fun c hc => (Text.isHexDigit_ne (h c hc)).1⟩

/-- The literal of digits that only a mark stands before. -/
def HexLiteral.marked {digits : List Char} {n : Nat} (hne : digits ≠ [])
    (h : Text.Denotes 16 digits n) : HexLiteral where
  before := []
  opening := []
  mark := "0x"
  digits := digits
  suffix := []
  closing := []
  after := []
  value := n
  isBlank_before := List.forall_mem_nil _
  isQuote_opening := List.forall_mem_nil _
  mark_mem := by simp
  digits_ne_nil := hne
  denotes := h
  isSuffix := List.forall_mem_nil _
  isQuote_closing := List.forall_mem_nil _
  isBlank_after := List.forall_mem_nil _

theorem HexLiteral.text_marked {digits : List Char} {n : Nat} (hne : digits ≠ [])
    (h : Text.Denotes 16 digits n) : (marked hne h).text = '0' :: 'x' :: digits := by
  simp [marked, text, core]

/-- **Digits after a mark are the number that they denote.** -/
theorem parseHex_marked {digits : List Char} {n : UInt32}
    (h : Text.ofDigits? 16 digits = some n.toNat) (key : String) :
    parseHex key (String.ofList ('0' :: 'x' :: digits)) = .ok n := by
  obtain ⟨hne, hdenotes⟩ := Text.ofDigits?_eq_some_iff.1 h
  rw [parseHex_eq_ok_iff, String.toList_ofList, ← HexLiteral.text_marked hne hdenotes,
    HexLiteral.hexDigits_text]
  exact h

end BootSeal
