/-
  BootSeal — readers of the front of a text: each gives a value and the text
  after it, or fails.

  Alternatives are tried in order from the same place (`<|>`), so a reader that
  fails has consumed nothing.
-/

namespace BootSeal.Text

/-- A reader of the front of a text. -/
abbrev Reader (α : Type) := StateT (List Char) Option α

namespace Reader

variable {α : Type}

/-- The value of a whole text. -/
def all? (r : Reader α) (text : List Char) : Option α :=
  match r.run text with
  | some (a, []) => some a
  | _ => none

/-- The next character, which stays in place; none at the end of the text. -/
def next? : Reader (Option Char) := fun s => some (s.head?, s)

/-- A character of a class. -/
def charWhere (p : Char → Bool) : Reader Char
  | [] => none
  | c :: rest => if p c then some (c, rest) else none

/-- A fixed character. -/
def char (c : Char) : Reader Unit := do let _ ← charWhere (· == c)

/-- A fixed text. -/
def word (w : String) : Reader Unit := fun s =>
  if w.toList.isPrefixOf s then some ((), s.drop w.length) else none

/-- The longest run of characters of a class, which may be empty. -/
def run (p : Char → Bool) : Reader (List Char) := fun s => some (s.takeWhile p, s.dropWhile p)

/-- The longest run of characters of a class, which is not empty. -/
def run1 (p : Char → Bool) : Reader (List Char) := do
  let cs ← run p
  if cs.isEmpty then failure else return cs

/-- Exactly `n` characters of a class. -/
def exactly (p : Char → Bool) (n : Nat) : Reader (List Char) := fun s =>
  let cs := s.take n
  if cs.length = n ∧ cs.all p then some (cs, s.drop n) else none

/-- What `r` reads, if it reads anything. -/
def maybe (r : Reader α) : Reader (Option α) := some <$> r <|> pure none

/-- At most `limit` values of `r`, as long as it reads one. -/
def upTo (r : Reader α) : (limit : Nat) → Reader (List α)
  | 0 => pure []
  | limit + 1 => (do return (← r) :: (← upTo r limit)) <|> pure []

/-- Values of `r` as long as it reads one. A value takes at least one character,
    so the length of the text bounds their number. -/
def many (r : Reader α) : Reader (List α) := fun s => upTo r s.length s

/-- At least one value of `r`, with separators between them. -/
def separated (r : Reader α) (sep : Reader Unit) : Reader (List α) := do
  let first ← r
  return first :: (← many (do sep; r))

/-- The end of the text. -/
def atEnd : Reader Unit := fun s => if s.isEmpty then some ((), s) else none

end Reader

end BootSeal.Text
