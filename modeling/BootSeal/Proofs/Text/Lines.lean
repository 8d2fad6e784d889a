/-
  BootSeal — lines that were joined are cut apart again.

  * `Text.pieces_append_cons`: the pieces of two texts with a separator between them;
  * `Text.pieces_flatMap_append`: the pieces of a text of pieces;
  * `Text.pieces_eq_splitOn`: pieces are those of the library's cut, so that they make up
    the text with the separator between them;
  * `Text.lines_flatMap`: the lines of a text of ended lines;
  * `Text.filterMap_lines`: what is read from lines can be read from the pieces;
  * `Text.cutFirst?_append`: the parts of a text around a separator.
-/
import BootSeal.Proofs.Text.Blank
import BootSeal.Text.Lines
import Mathlib.Data.List.Basic

namespace BootSeal.Text

/-! ## Pieces -/

theorem pieces_cons {sep c : Char} (h : c ≠ sep) (s : List Char) :
    pieces sep (c :: s) = (pieces sep s).modifyHead (c :: ·) := by
  simp only [pieces, List.foldr_cons, if_neg h]

theorem pieces_cons_sep (sep : Char) (s : List Char) :
    pieces sep (sep :: s) = [] :: pieces sep s := by
  simp [pieces]

theorem pieces_eq_singleton {sep : Char} {l : List Char} (h : sep ∉ l) : pieces sep l = [l] := by
  induction l with
  | nil => rfl
  | cons c l ih =>
    rw [List.mem_cons, not_or] at h
    rw [pieces_cons (Ne.symm h.1), ih h.2, List.modifyHead_cons]

/-- **The pieces of two texts**, with a separator between them. -/
theorem pieces_append_cons (sep : Char) (s t : List Char) :
    pieces sep (s ++ sep :: t) = pieces sep s ++ pieces sep t := by
  induction s with
  | nil => exact pieces_cons_sep sep t
  | cons c s ih =>
    rw [List.cons_append]
    by_cases hc : c = sep
    · rw [hc, pieces_cons_sep, pieces_cons_sep, ih, List.cons_append]
    · obtain ⟨first, rest, hpieces⟩ := List.exists_cons_of_ne_nil (pieces_ne_nil sep s)
      rw [pieces_cons hc, pieces_cons hc, ih, hpieces]
      rfl

theorem pieces_append_sep {sep : Char} {l : List Char} (h : sep ∉ l) (s : List Char) :
    pieces sep (l ++ sep :: s) = l :: pieces sep s := by
  rw [pieces_append_cons, pieces_eq_singleton h, List.singleton_append]

theorem pieces_eq_splitOn (sep : Char) (s : List Char) : pieces sep s = s.splitOn sep := by
  induction s with
  | nil => rfl
  | cons c s ih =>
    rw [List.splitOn_cons_eq_if_modifyHead, ← ih]
    by_cases hc : c = sep
    · rw [hc, pieces_cons_sep, if_pos (beq_self_eq_true sep)]
    · rw [pieces_cons hc, if_neg (mt eq_of_beq hc)]

/-- What stands in a text of pieces stands in one of them, the separator apart. -/
theorem mem_intercalate_iff {sep c : Char} (hc : c ≠ sep) {ls : List (List Char)} :
    c ∈ [sep].intercalate ls ↔ ∃ l ∈ ls, c ∈ l := by
  induction ls with
  | nil => simp
  | cons first rest ih =>
    cases rest with
    | nil => simp
    | cons second rest =>
      rw [List.intercalate_cons_cons, List.mem_append, List.mem_append, List.mem_singleton,
        or_iff_left hc, ih]
      exact (List.exists_mem_cons_iff (c ∈ ·) first (second :: rest)).symm

theorem length_pieces (sep : Char) (s : List Char) :
    (pieces sep s).length = s.count sep + 1 := by
  induction s with
  | nil => rfl
  | cons c s ih =>
    by_cases hc : c = sep
    · rw [hc, pieces_cons_sep, List.length_cons, ih, List.count_cons_self]
    · rw [pieces_cons hc, List.length_modifyHead, ih, List.count_cons_of_ne hc]

/-- Pieces that each end with the separator, and one more. -/
theorem pieces_flatMap_append {sep : Char} {ls : List (List Char)} (h : ∀ l ∈ ls, sep ∉ l)
    {last : List Char} (hlast : sep ∉ last) :
    pieces sep ((ls.flatMap fun l => l ++ [sep]) ++ last) = ls ++ [last] := by
  induction ls with
  | nil => exact pieces_eq_singleton hlast
  | cons l ls ih =>
    obtain ⟨hl, hls⟩ := List.forall_mem_cons.1 h
    rw [List.flatMap_cons, List.append_assoc, List.append_assoc, List.singleton_append,
      pieces_append_sep hl, ih hls, List.cons_append]

/-! ## Lines -/

theorem dropReturn_eq_self {l : List Char} (h : '\r' ∉ l) : dropReturn l = l :=
  if_neg fun hl => h (List.mem_of_getLast? hl)

/-- Lines without line ends of their own, each ended by a line feed, are the lines
    of the text that they make. -/
theorem lines_flatMap {ls : List (List Char)} (hn : ∀ l ∈ ls, '\n' ∉ l) (hr : ∀ l ∈ ls, '\r' ∉ l) :
    lines (ls.flatMap fun l => l ++ ['\n']) = ls := by
  have hpieces := pieces_flatMap_append hn List.not_mem_nil
  rw [List.append_nil] at hpieces
  have hd : ls.map dropReturn = ls := by
    rw [List.map_congr_left fun l hl => dropReturn_eq_self (hr l hl), List.map_id']
  rw [lines, hpieces]
  simp only [List.dropLast_concat, List.getLastD_concat, List.isEmpty_nil, if_true,
    List.append_nil, hd]

/-- A carriage return at the end is a blank. -/
theorem trimRight_dropReturn (l : List Char) : trimRight (dropReturn l) = trimRight l := by
  rw [dropReturn]
  split
  · next h =>
    obtain ⟨init, rfl⟩ := List.getLast?_eq_some_iff.1 h
    rw [List.dropLast_concat]
    exact (dropRightWhile_append (List.forall_mem_singleton.2 rfl)).symm
  · rfl

/-- The pieces of a text are its lines with the carriage returns, and perhaps an empty one. -/
theorem exists_pieces_eq (s : List Char) : ∃ init last, pieces '\n' s = init ++ [last] ∧
    lines s = init.map dropReturn ++ if last.isEmpty then [] else [last] := by
  have h := List.dropLast_concat_getLast (pieces_ne_nil '\n' s)
  refine ⟨(pieces '\n' s).dropLast, (pieces '\n' s).getLast (pieces_ne_nil '\n' s), h.symm, ?_⟩
  rw [lines, List.getLastD_eq_getLast?, List.getLast?_eq_some_getLast (pieces_ne_nil '\n' s),
    Option.getD_some]

/-- **What is read from lines is read from pieces**, if it does not depend on the blanks at
    their ends and an empty one does not count. -/
theorem filterMap_lines {α : Type} {f : List Char → Option α} (h : f [] = none) (s : List Char) :
    (lines s).filterMap (fun l => f (trimRight l)) =
      (pieces '\n' s).filterMap fun l => f (trimRight l) := by
  obtain ⟨init, last, hpieces, hlines⟩ := exists_pieces_eq s
  have hinit : (init.map dropReturn).filterMap (fun l => f (trimRight l)) =
      init.filterMap fun l => f (trimRight l) := by
    rw [List.filterMap_map]
    exact List.filterMap_congr fun l _ => congrArg f (trimRight_dropReturn l)
  rw [hpieces, hlines, List.filterMap_append, List.filterMap_append, hinit]
  cases last with
  | nil =>
    have hempty : [[]].filterMap (fun l => f (trimRight l)) = [] := List.filterMap_cons_none h
    rw [hempty]
    rfl
  | cons => rfl

theorem exists_mem_pieces {s l : List Char} (h : l ∈ lines s) :
    ∃ p ∈ pieces '\n' s, trimRight l = trimRight p := by
  obtain ⟨init, last, hpieces, hlines⟩ := exists_pieces_eq s
  rw [hlines, List.mem_append] at h
  obtain h | h := h
  · obtain ⟨p, hp, rfl⟩ := List.mem_map.1 h
    exact ⟨p, hpieces ▸ List.mem_append_left _ hp, trimRight_dropReturn p⟩
  · split at h
    · cases h
    · cases List.mem_singleton.1 h
      exact ⟨l, hpieces ▸ List.mem_concat_self, rfl⟩

/-! ## Parts -/

/-- The text is cut at the character after a part without such characters. -/
theorem cutFirst?_append {p : Char → Bool} {s rest : List Char} {c : Char}
    (hs : ∀ c ∈ s, p c = false) (hc : p c = true) :
    cutFirst? p (s ++ c :: rest) = some (s, rest) := by
  have hnot : ∀ c ∈ s, (!p c) = true := fun c hm => by rw [hs c hm]; rfl
  have hdrop : (s ++ c :: rest).dropWhile (fun c => !p c) = c :: rest := by
    rw [List.dropWhile_append_of_pos hnot, List.dropWhile_cons, hc]
    rfl
  have htake : (s ++ c :: rest).takeWhile (fun c => !p c) = s := by
    rw [List.takeWhile_append_of_pos hnot, List.takeWhile_cons, hc]
    exact List.append_nil s
  rw [cutFirst?, hdrop, htake]

theorem cutFirst?_eq_none_iff {p : Char → Bool} {s : List Char} :
    cutFirst? p s = none ↔ ∀ c ∈ s, p c = false := by
  rw [cutFirst?]
  cases h : s.dropWhile (fun c => !p c) with
  | nil => simpa using List.dropWhile_eq_nil_iff.1 h
  | cons c rest =>
    have hc : p c = true := by
      have hnot := List.head?_dropWhile_not (fun c => !p c) s
      rw [h] at hnot
      simpa using hnot
    have hmem : c ∈ s := (List.dropWhile_suffix _).mem (h ▸ List.mem_cons_self)
    refine iff_of_false (by simp) fun hall => ?_
    rw [hall c hmem] at hc
    cases hc

end BootSeal.Text
