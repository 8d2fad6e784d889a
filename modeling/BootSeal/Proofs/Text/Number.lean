/-
  BootSeal — which digits a number may be written with, and what number that is.

  * `Text.IsDigit`: a digit of a radix and its value, by its place in `Text.alphabet`;
  * `Text.Denotes`: the number that digits denote, each with its weight;
  * `Text.ofDigits?_eq_some_iff`: a run of digits is read as the number that it denotes, by
    induction on the digits, the first of which has the largest weight.
-/
import BootSeal.Text.Number
import Mathlib.Data.Nat.Digits.Lemmas
import Mathlib.Tactic.SplitIfs

namespace BootSeal.Text

/-! ## Digits -/

/-- The digits in the order of their values. -/
def alphabet : List Char :=
  ['0', '1', '2', '3', '4', '5', '6', '7', '8', '9', 'a', 'b', 'c', 'd', 'e', 'f', 'g', 'h', 'i',
    'j', 'k', 'l', 'm', 'n', 'o', 'p', 'q', 'r', 's', 't', 'u', 'v', 'w', 'x', 'y', 'z']

/-- A digit of a radix, which may be a letter of either case, and its value. -/
def IsDigit (radix : Nat) (c : Char) (value : Nat) : Prop :=
  value < radix ∧ alphabet.idxOf? c.toLower = some value

section
variable {radix value : Nat} {c : Char}

theorem digit?_ofNat : ∀ n < 128,
    digit? 36 (Char.ofNat n) = alphabet.idxOf? (Char.ofNat n).toLower := by decide +kernel

/-- A radix has the digits that are below it. -/
theorem digit?_eq_filter (radix : Nat) (c : Char) :
    digit? radix c = (digit? 36 c).filter (· < radix) := by
  have hle (a b : Char) : a ≤ b ↔ a.toNat ≤ b.toNat := UInt32.le_iff_toNat_le
  have hfilter {n : Nat} (hn : n < 36) :
      (some n).filter (· < radix) = ((some n).filter (· < 36)).filter (· < radix) := by
    have hall : (some n).filter (· < 36) = some n := by
      rw [Option.filter_some, if_pos (decide_eq_true hn)]
    rw [hall]
  have hsub {n first last : Nat} (h : n ≤ last) (add : Nat) (hlast : last - first + add < 36) :
      n - first + add < 36 := by omega
  simp only [digit?, hle]
  split_ifs with hdigit hlower hupper
  · exact hfilter (hsub hdigit.2 0 (by decide))
  · exact hfilter (hsub hlower.2 10 (by decide))
  · exact hfilter (hsub hupper.2 10 (by decide))
  · rfl

/-- What is not in ASCII is no digit. -/
theorem digit?_of_le (h : 128 ≤ c.toNat) :
    digit? radix c = none ∧ alphabet.idxOf? c.toLower = none := by
  have hle (a b : Char) : a ≤ b ↔ a.toNat ≤ b.toNat := UInt32.le_iff_toNat_le
  have hupto {d : Char} (hd : d.toNat < 128) (first : Char) : ¬ (first ≤ c ∧ c ≤ d) := by
    rw [hle c d]
    omega
  have hlower : c.toLower = c := dif_neg (hupto (d := 'Z') (by decide) 'A')
  have hascii : alphabet.all (·.toNat < 128) = true := by decide
  refine ⟨?_, ?_⟩
  · rw [digit?, if_neg (hupto (by decide) _), if_neg (hupto (by decide) _),
      if_neg (hupto (by decide) _)]
    rfl
  · rw [hlower, List.idxOf?_eq_none_iff]
    exact fun hmem => Nat.not_lt.2 h (of_decide_eq_true (List.all_eq_true.1 hascii c hmem))

/-- **A character is read as a digit by its place in the alphabet**, if that is below the
    radix. -/
theorem digit?_eq_some_iff : digit? radix c = some value ↔ IsDigit radix c value := by
  by_cases h : c.toNat < 128
  · have hascii := digit?_ofNat c.toNat h
    rw [Char.ofNat_toNat] at hascii
    rw [digit?_eq_filter, hascii, Option.filter_eq_some_iff, decide_eq_true_eq, IsDigit, and_comm]
  · obtain ⟨hdigit, hidx⟩ : digit? radix c = none ∧ _ := digit?_of_le (Nat.le_of_not_lt h)
    rw [hdigit, IsDigit, hidx]
    simp

end

/-- The code of a hexadecimal digit. -/
theorem toNat_of_isHexDigit {c : Char} (h : isHexDigit c = true) :
    48 ≤ c.toNat ∧ c.toNat ≤ 57 ∨ 65 ≤ c.toNat ∧ c.toNat ≤ 70 ∨ 97 ≤ c.toNat ∧ c.toNat ≤ 102 := by
  have hle (a b : Char) : a ≤ b ↔ a.toNat ≤ b.toNat := UInt32.le_iff_toNat_le
  have h0 : '0'.toNat = 48 := rfl
  have h9 : '9'.toNat = 57 := rfl
  have ha : 'a'.toNat = 97 := rfl
  have hA : 'A'.toNat = 65 := rfl
  obtain ⟨n, hn⟩ := Option.isSome_iff_exists.1 h
  simp only [digit?, hle] at hn
  split_ifs at hn with hdigit hlower hupper <;>
    simp only [Option.filter_some, Option.filter_none, Option.ite_none_right_eq_some,
      decide_eq_true_eq, reduceCtorEq] at hn <;>
    omega

/-! ## Numbers -/

/-- The number that a run of digits denotes: each counts as often as its place says, the last
    one once and every other the radix times as often as the one after it. -/
def Denotes (radix : Nat) (digits : List Char) (n : Nat) : Prop :=
  ∃ values, List.Forall₂ (IsDigit radix) digits values ∧ Nat.ofDigits radix values.reverse = n

section
variable {radix n : Nat} {digits : List Char}

/-- What is read so far counts like one more digit in front. -/
theorem foldlM_digit?_eq_some_iff {a : Nat} :
    digits.foldlM (fun n c => (digit? radix c).map (radix * n + ·)) a = some n ↔
      ∃ values, List.Forall₂ (IsDigit radix) digits values ∧
        Nat.ofDigits radix (values.reverse ++ [a]) = n := by
  induction digits generalizing a with
  | nil => simp [Nat.ofDigits_singleton]
  | cons c digits ih =>
    have hstep (values : List Nat) (d : Nat) :
        Nat.ofDigits radix ((d :: values).reverse ++ [a]) =
          Nat.ofDigits radix (values.reverse ++ [radix * a + d]) := by
      rw [List.reverse_cons, List.append_assoc, List.singleton_append, Nat.ofDigits_append,
        Nat.ofDigits_append, Nat.ofDigits_cons, Nat.ofDigits_singleton, Nat.ofDigits_singleton,
        Nat.add_comm d]
    simp only [List.foldlM_cons, Option.bind_eq_bind, Option.bind_eq_some_iff,
      Option.map_eq_some_iff, digit?_eq_some_iff, ih, List.forall₂_cons_left_iff]
    constructor
    · rintro ⟨m, ⟨d, hd, rfl⟩, values, hvalues, hn⟩
      exact ⟨d :: values, ⟨d, values, hd, hvalues, rfl⟩, (hstep values d).trans hn⟩
    · rintro ⟨_, ⟨d, values, hd, hvalues, rfl⟩, hn⟩
      exact ⟨_, ⟨d, hd, rfl⟩, values, hvalues, (hstep values d).symm.trans hn⟩

/-- **A run of digits is read as the number that it denotes**, if it is not empty. -/
theorem ofDigits?_eq_some_iff :
    ofDigits? radix digits = some n ↔ digits ≠ [] ∧ Denotes radix digits n := by
  rw [ofDigits?]
  split_ifs with hempty
  · rw [List.isEmpty_iff.1 hempty]
    simp
  · rw [foldlM_digit?_eq_some_iff, Denotes]
    have hzero (values : List Nat) :
        Nat.ofDigits radix (values.reverse ++ [0]) = Nat.ofDigits radix values.reverse := by
      rw [Nat.ofDigits_append, Nat.ofDigits_singleton, Nat.mul_zero, Nat.add_zero]
    simp only [hzero, ne_eq, mt List.isEmpty_iff.2 hempty, not_false_eq_true, true_and]

/-- A number is kept as a word if it has one. -/
theorem map_ofNat_filter_eq_some_iff {o : Option Nat} {w : UInt32} :
    (o.filter (· < 0x100000000)).map UInt32.ofNat = some w ↔ o = some w.toNat := by
  rw [Option.map_eq_some_iff]
  simp only [Option.filter_eq_some_iff, decide_eq_true_eq]
  constructor
  · rintro ⟨n, ⟨hn, hlt⟩, rfl⟩
    rwa [UInt32.toNat_ofNat_of_lt' hlt]
  · intro hw
    exact ⟨w.toNat, ⟨hw, w.toNat_lt⟩, UInt32.ofNat_toNat⟩

/-- A run of digits without a sign is read as a word if its number is one. -/
theorem word?_eq_some_iff {w : UInt32} (h : digits.head? ≠ some '+') :
    word? radix digits = some w ↔ ofDigits? radix digits = some w.toNat := by
  rw [word?, if_neg h]
  exact map_ofNat_filter_eq_some_iff

theorem word?_cons_plus {w : UInt32} :
    word? radix ('+' :: digits) = some w ↔ ofDigits? radix digits = some w.toNat := by
  rw [word?, if_pos List.head?_cons, List.tail_cons]
  exact map_ofNat_filter_eq_some_iff

theorem Denotes.isDigit (h : Denotes radix digits n) :
    ∀ c ∈ digits, ∃ value, IsDigit radix c value := by
  obtain ⟨values, hvalues, -⟩ := h
  induction hvalues with
  | nil => exact List.forall_mem_nil _
  | cons hd _ ih => exact List.forall_mem_cons.2 ⟨⟨_, hd⟩, ih⟩

/-- The digits of a smaller radix are hexadecimal ones too. -/
theorem Denotes.isHexDigit_of_le (h : Denotes radix digits n) (hle : radix ≤ 16) :
    ∀ c ∈ digits, isHexDigit c = true := by
  intro c hc
  obtain ⟨value, hlt, hidx⟩ := h.isDigit c hc
  exact Option.isSome_iff_exists.2 ⟨value, digit?_eq_some_iff.2 ⟨Nat.lt_of_lt_of_le hlt hle, hidx⟩⟩

theorem Denotes.isHexDigit (h : Denotes 16 digits n) : ∀ c ∈ digits, isHexDigit c = true :=
  h.isHexDigit_of_le (Nat.le_refl 16)

theorem isHexDigit_of_ofDigits? (h : ofDigits? 16 digits = some n) :
    digits ≠ [] ∧ ∀ c ∈ digits, isHexDigit c = true := by
  obtain ⟨hne, hdenotes⟩ := ofDigits?_eq_some_iff.1 h
  exact ⟨hne, hdenotes.isHexDigit⟩

end

end BootSeal.Text
