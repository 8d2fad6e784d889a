/-
  BootSeal — the pattern that a validation block begins with: three words by
  which a boot loader finds the block.

  * `Magic.ofText` reads the three words as they are written;
  * `Magic.toBytes`, `Magic.ofBytes`: the pattern on flash;
  * `Magic.find?`: the first place of the pattern in a byte string.
-/
import BootSeal.Error
import BootSeal.Text.Lines

namespace BootSeal

/-- Three words. -/
structure Magic where
  first : UInt32
  second : UInt32
  third : UInt32
  deriving DecidableEq, Repr

namespace Magic

/-- Bytes of the pattern. -/
def size : Nat := 12

def words (m : Magic) : List UInt32 := [m.first, m.second, m.third]

/-- The pattern on flash. -/
def toBytes (m : Magic) : Bytes := m.words.flatMap Bytes.ofWord

/-- The pattern at the start of a byte string that is long enough. -/
def ofBytes (b : Bytes) : Magic :=
  ⟨Bytes.toWord b, Bytes.toWord (b.drop 4), Bytes.toWord (b.drop 8)⟩

/-- A word as it is written, with blanks around it. -/
def wordOfText (text : List Char) : Except Error UInt32 :=
  let text := Text.trim text
  match Text.markedWord? text with
  | some w => .ok w
  | none => .error (.configuration (.magicWord (String.ofList text)))

/-- Three words with commas between them. -/
def ofText (text : String) : Except Error Magic := do
  match ← (Text.pieces ',' text.toList).mapM wordOfText with
  | [a, b, c] => return ⟨a, b, c⟩
  | words => throw (.configuration (.magicCount words.length))

/-- The first place of the pattern, counted from `offset`. -/
def findFrom? (pattern : Bytes) (offset : Nat) : Bytes → Option Nat
  | [] => none
  | x :: rest =>
    if pattern.isPrefixOf (x :: rest) then some offset else findFrom? pattern (offset + 1) rest

/-- The first place of the pattern in a byte string. -/
def find? (m : Magic) (b : Bytes) : Option Nat := findFrom? m.toBytes 0 b

end Magic

end BootSeal
