/-
  BootSeal — cutting text apart.

  * `isBlank`: one of the 25 characters with the Unicode property White_Space, and
    `trim`: a text without blanks at its ends;
  * `pieces`, `cutFirst?`: a text cut at every occurrence of a separator, or at the
    first one of a class of characters;
  * `dropWord?`, `dropEndWord?`: what stands after a word at the start of a text, or
    before one at its end;
  * `lines`: the lines of a text.
-/

namespace BootSeal.Text

/-! ## Blanks -/

/-- A character with the Unicode property White_Space. -/
def isBlank (c : Char) : Bool :=
  let n := c.toNat
  (0x9 ≤ n && n ≤ 0xd) || n == 0x20 || n == 0x85 || n == 0xa0 || n == 0x1680 ||
    (0x2000 ≤ n && n ≤ 0x200a) || n == 0x2028 || n == 0x2029 || n == 0x202f || n == 0x205f ||
    n == 0x3000

/-- The text without the characters at its end that satisfy `p`. -/
def dropRightWhile (p : Char → Bool) (s : List Char) : List Char :=
  (s.reverse.dropWhile p).reverse

/-- The text without the characters at either end that satisfy `p`. -/
def stripWhile (p : Char → Bool) (s : List Char) : List Char :=
  dropRightWhile p (s.dropWhile p)

/-- The text without blanks at its end. -/
def trimRight (s : List Char) : List Char := dropRightWhile isBlank s

/-- The text without blanks at either end. -/
def trim (s : List Char) : List Char := stripWhile isBlank s

/-! ## Pieces and lines -/

/-- The pieces between the occurrences of `sep`; there is always one more piece
    than there are separators. -/
def pieces (sep : Char) (s : List Char) : List (List Char) :=
  s.foldr (fun c acc => if c = sep then [] :: acc else acc.modifyHead (c :: ·)) [[]]

/-- The text before and after the first character that satisfies `p`. -/
def cutFirst? (p : Char → Bool) (s : List Char) : Option (List Char × List Char) :=
  match s.dropWhile (fun c => !p c) with
  | [] => none
  | _ :: rest => some (s.takeWhile (fun c => !p c), rest)

/-- The text after a word that it starts with. -/
def dropWord? (word s : List Char) : Option (List Char) :=
  if word.isPrefixOf s then some (s.drop word.length) else none

/-- The text before a word that it ends with. -/
def dropEndWord? (word s : List Char) : Option (List Char) :=
  (dropWord? word.reverse s.reverse).map List.reverse

/-- A line without the carriage return that belongs to its line end. -/
def dropReturn (line : List Char) : List Char :=
  if line.getLast? = some '\r' then line.dropLast else line

/-- The lines of a text. A line ends with a line feed, or with a carriage return
    and a line feed; a text that ends with a line end has no line after it. -/
def lines (s : List Char) : List (List Char) :=
  let parts := pieces '\n' s
  let last := parts.getLastD []
  parts.dropLast.map dropReturn ++ if last.isEmpty then [] else [last]

theorem pieces_ne_nil (sep : Char) (s : List Char) : pieces sep s ≠ [] := by
  cases s with
  | nil => simp [pieces]
  | cons c s =>
    simp only [pieces, List.foldr_cons]
    split
    · simp
    · have h := pieces_ne_nil sep s
      simp only [pieces] at h
      intro he
      have := congrArg List.length he
      simp [List.length_modifyHead] at this
      exact h this

end BootSeal.Text
