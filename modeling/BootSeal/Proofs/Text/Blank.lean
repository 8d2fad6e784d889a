/-
  BootSeal — what removing characters from the ends of a text leaves.

  * `Text.dropRightWhile_append`, `Text.stripWhile_append`: characters of the class at the
    ends are gone;
  * `Text.exists_dropRightWhile`, `Text.exists_stripWhile`: and nothing else is;
  * `Text.dropRightWhile_concat`, `Text.stripWhile_eq_self`: nothing is gone before one
    that is not in the class;
  * `Text.IsWord`: a text without any blanks.
-/
import BootSeal.Text.Lines
import Mathlib.Data.List.TakeWhile

namespace BootSeal.Text

variable {p : Char → Bool} {s : List Char} {c : Char}

theorem dropRightWhile_concat (h : p c = false) : dropRightWhile p (s ++ [c]) = s ++ [c] := by
  rw [dropRightWhile, List.reverse_concat, List.dropWhile_cons, h, if_neg Bool.false_ne_true,
    List.reverse_cons, List.reverse_reverse]

theorem dropRightWhile_append {tail : List Char} (h : ∀ c ∈ tail, p c = true) :
    dropRightWhile p (s ++ tail) = dropRightWhile p s := by
  rw [dropRightWhile, List.reverse_append, List.dropWhile_append_of_pos (by simpa using h),
    dropRightWhile]

theorem dropRightWhile_eq_self (h : ∀ c, s.getLast? = some c → p c = false) :
    dropRightWhile p s = s := by
  cases hs : s.getLast? with
  | none => rw [List.getLast?_eq_none_iff.1 hs]; rfl
  | some c =>
    obtain ⟨init, rfl⟩ := List.getLast?_eq_some_iff.1 hs
    exact dropRightWhile_concat (h c hs)

theorem dropWhile_eq_self (h : ∀ c, s.head? = some c → p c = false) : s.dropWhile p = s := by
  cases s with
  | nil => rfl
  | cons c s => rw [List.dropWhile_cons, h c rfl, if_neg Bool.false_ne_true]

/-- Nothing is removed from a text that neither begins nor ends with the class. -/
theorem stripWhile_eq_self (hhead : ∀ c, s.head? = some c → p c = false)
    (hlast : ∀ c, s.getLast? = some c → p c = false) : stripWhile p s = s := by
  rw [stripWhile, dropWhile_eq_self hhead, dropRightWhile_eq_self hlast]

/-- Only characters of the class are gone from the end. -/
theorem exists_dropRightWhile (p : Char → Bool) (s : List Char) :
    ∃ tail, s = dropRightWhile p s ++ tail ∧ ∀ c ∈ tail, p c = true := by
  refine ⟨(s.reverse.takeWhile p).reverse, ?_, fun c hc => ?_⟩
  · rw [dropRightWhile, ← List.reverse_append, List.takeWhile_append_dropWhile,
      List.reverse_reverse]
  · exact List.all_eq_true.1 List.all_takeWhile c (List.mem_reverse.1 hc)

theorem getLast?_dropRightWhile (h : (dropRightWhile p s).getLast? = some c) : p c = false := by
  rw [dropRightWhile, List.getLast?_reverse] at h
  have hnot := List.head?_dropWhile_not p s.reverse
  rwa [h] at hnot

/-- Nothing is gone up to a part that does not end with the class. -/
theorem dropRightWhile_append_left {w : List Char} (h : ∀ c, w.getLast? = some c → p c = false)
    (s : List Char) : dropRightWhile p (w ++ s) = w ++ dropRightWhile p s := by
  obtain ⟨tail, hs, htail⟩ := exists_dropRightWhile p s
  have hlast : ∀ c, (w ++ dropRightWhile p s).getLast? = some c → p c = false := by
    intro c hc
    rw [List.getLast?_append, Option.or_eq_some_iff] at hc
    obtain hc | ⟨-, hc⟩ := hc
    · exact getLast?_dropRightWhile hc
    · exact h c hc
  calc dropRightWhile p (w ++ s)
      = dropRightWhile p (w ++ dropRightWhile p s ++ tail) := by rw [List.append_assoc, ← hs]
    _ = dropRightWhile p (w ++ dropRightWhile p s) := dropRightWhile_append htail
    _ = w ++ dropRightWhile p s := dropRightWhile_eq_self hlast

/-- Only characters of the class are gone from both ends. -/
theorem exists_stripWhile (p : Char → Bool) (s : List Char) : ∃ before after,
    s = before ++ stripWhile p s ++ after ∧ (∀ c ∈ before, p c = true) ∧
      ∀ c ∈ after, p c = true := by
  obtain ⟨after, hs, hafter⟩ := exists_dropRightWhile p (s.dropWhile p)
  refine ⟨s.takeWhile p, after, ?_, List.all_eq_true.1 List.all_takeWhile, hafter⟩
  rw [stripWhile, List.append_assoc, ← hs, List.takeWhile_append_dropWhile]

/-- Characters of the class at both ends are gone. -/
theorem stripWhile_append {before after : List Char} (hb : ∀ c ∈ before, p c = true)
    (ha : ∀ c ∈ after, p c = true) (s : List Char) :
    stripWhile p (before ++ s ++ after) = stripWhile p s := by
  rw [stripWhile, List.append_assoc, List.dropWhile_append_of_pos hb, List.dropWhile_append]
  split
  · next h => rw [List.dropWhile_eq_nil_iff.2 ha, stripWhile, List.isEmpty_iff.1 h]
  · rw [dropRightWhile_append ha, stripWhile]

theorem trimRight_prefix (s : List Char) : trimRight s <+: s := by
  rw [← List.reverse_suffix, trimRight, dropRightWhile, List.reverse_reverse]
  exact List.dropWhile_suffix _

theorem length_trim_le (s : List Char) : (trim s).length ≤ s.length := by
  have hright := (List.dropWhile_suffix isBlank (l := (s.dropWhile isBlank).reverse)).length_le
  rw [List.length_reverse] at hright
  rw [trim, stripWhile, dropRightWhile, List.length_reverse]
  exact Nat.le_trans hright (List.dropWhile_suffix _).length_le

/-- What is no blank is still there. -/
theorem mem_trimRight_iff (h : isBlank c = false) : c ∈ trimRight s ↔ c ∈ s := by
  obtain ⟨tail, hs, htail⟩ := exists_dropRightWhile isBlank s
  refine ⟨fun hc => hs ▸ List.mem_append_left tail hc, fun hc => ?_⟩
  rw [hs, List.mem_append] at hc
  refine hc.resolve_right fun hc => ?_
  rw [htail c hc] at h
  cases h

theorem prefix_trimRight_iff {w : List Char} (h : ∀ c, w.getLast? = some c → isBlank c = false) :
    w <+: trimRight s ↔ w <+: s := by
  have hstart := trimRight_prefix s
  refine ⟨fun hw => hw.trans hstart, ?_⟩
  rintro ⟨rest, rfl⟩
  rw [trimRight, dropRightWhile_append_left h]
  exact List.prefix_append ..

/-- A text with any other character than blanks is not empty without them. -/
theorem trim_ne_nil {s : List Char} {c : Char} (hc : c ∈ s) (h : isBlank c = false) :
    trim s ≠ [] := by
  obtain ⟨before, after, hs, hbefore, hafter⟩ := exists_stripWhile isBlank s
  intro hnil
  rw [trim] at hnil
  rw [hs, hnil, List.append_nil, List.mem_append] at hc
  rw [hc.elim (hbefore c) (hafter c)] at h
  cases h

/-! ## Words -/

/-- A text of at least one character and without blanks. -/
def IsWord (s : List Char) : Prop := s ≠ [] ∧ ∀ c ∈ s, isBlank c = false

namespace IsWord

variable {w w' : List Char}

theorem feed_not_mem (h : IsWord w) : '\n' ∉ w := fun hmem => nomatch h.2 _ hmem

theorem head? (h : IsWord w) (rest : List Char) :
    ∀ c, (w ++ rest).head? = some c → isBlank c = false := by
  obtain ⟨c, tail, rfl⟩ := List.exists_cons_of_ne_nil h.1
  rintro c' ⟨⟩
  exact h.2 _ List.mem_cons_self

theorem getLast? (h : IsWord w) (s : List Char) :
    ∀ c, (s ++ w).getLast? = some c → isBlank c = false := by
  have hlast := List.getLast?_eq_some_getLast h.1
  rw [List.getLast?_append, hlast, Option.some_or, ← hlast]
  exact fun c hc => h.2 c (List.mem_of_getLast? hc)

theorem trim (h : IsWord w) : Text.trim w = w :=
  stripWhile_eq_self (by simpa using h.head? []) (by simpa using h.getLast? [])

theorem trimRight_append (h : IsWord w) (s : List Char) : trimRight (s ++ w) = s ++ w :=
  dropRightWhile_eq_self (h.getLast? s)

/-- Two words, with blanks before and between them. -/
theorem trim_cons_append (h : IsWord w) (h' : IsWord w') (between : List Char) :
    Text.trim (' ' :: (w ++ between ++ w')) = w ++ between ++ w' := by
  rw [Text.trim, stripWhile, List.dropWhile_cons, if_pos (by decide), List.append_assoc,
    dropWhile_eq_self (h.head? _), ← List.append_assoc, dropRightWhile_eq_self (h'.getLast? _)]

end IsWord

end BootSeal.Text
