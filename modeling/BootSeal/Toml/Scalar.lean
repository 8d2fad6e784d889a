/-
  BootSeal — the scalars of TOML: strings, numbers, booleans, dates and times.

  * `basicString`, `literalString` and their multi-line forms;
  * `integer`: decimal with a sign, or hexadecimal, octal and binary without one,
    underscores between digits, within 64 bits;
  * `float`: refused if it is too large for a finite double;
  * `moment`: a date, a time, or both with an optional offset.
-/
import BootSeal.Text.Number
import BootSeal.Text.Reader
import BootSeal.Toml.Value

namespace BootSeal.Toml

open Text (Reader)
open Text.Reader

/-! ## Characters -/

/-- A blank within a line. -/
def isSpace (c : Char) : Bool := c == ' ' || c == '\t'

/-- A character that stands for itself in comments and quotes: a tab, or one that
    is no control character. -/
def isShown (c : Char) : Bool := c == '\t' || (0x20 ≤ c.toNat && c.toNat != 0x7f)

def isDigit (c : Char) : Bool := (Text.digit? 10 c).isSome

/-- Blanks within a line. -/
def spaces : Reader Unit := do let _ ← run isSpace

/-- A line end: a line feed, or a carriage return and a line feed. -/
def newline : Reader Unit := char '\n' <|> word "\r\n"

/-! ## Strings -/

/-- The character of `n` hexadecimal digits. -/
def codePoint (n : Nat) : Reader Char := do
  let digits ← exactly Text.isHexDigit n
  let some value := Text.ofDigits? 16 digits | failure
  if value.isValidChar then return Char.ofNat value else failure

/-- The character of an escape sequence. -/
def escaped : Reader Char := do
  char '\\'
  match ← charWhere fun _ => true with
  | 'b' => return '\x08'
  | 't' => return '\t'
  | 'n' => return '\n'
  | 'f' => return '\x0c'
  | 'r' => return '\r'
  | '"' => return '"'
  | '\\' => return '\\'
  | 'u' => codePoint 4
  | 'U' => codePoint 8
  | _ => failure

/-- A character that stands for itself between double quotes. -/
def basicChar : Reader Char := charWhere fun c => isShown c && c != '"' && c != '\\'

/-- A character that stands for itself between single quotes. -/
def literalChar : Reader Char := charWhere fun c => isShown c && c != '\''

/-- A string between double quotes, with escapes. -/
def basicString : Reader (List Char) := do
  char '"'
  let cs ← many (basicChar <|> escaped)
  char '"'
  return cs

/-- A string between single quotes, as it stands. -/
def literalString : Reader (List Char) := do
  char '\''
  let cs ← many literalChar
  char '\''
  return cs

/-- A backslash at the end of a line, which takes the blanks and line ends after
    it along. -/
def lineContinuation : Reader Unit := do
  char '\\'
  spaces
  newline
  let _ ← many (newline <|> do let _ ← charWhere isSpace)

/-- One or two quotes that do not end a multi-line string, because no third one
    follows them. -/
def innerQuotes (q : Char) : Reader (List Char) := do
  let quotes ← run (· == q)
  if quotes.isEmpty || 2 < quotes.length then failure else return quotes

/-- The closing quotes of a multi-line string, which up to two quotes of its
    content may precede. -/
def closingQuotes (q : Char) : Reader (List Char) := do
  let quotes ← run (· == q)
  if 3 ≤ quotes.length && quotes.length ≤ 5 then return quotes.drop 3 else failure

/-- A string of several lines between triple quotes. A line end right after the
    opening quotes is no content, and every other one is a line feed. -/
def multiLine (q : Char) (content : Reader (List Char)) : Reader (List Char) := do
  word (String.ofList [q, q, q])
  let _ ← maybe newline
  let parts ← many (content <|> (do newline; return ['\n']) <|> innerQuotes q)
  let last ← closingQuotes q
  return parts.flatten ++ last

/-- A string of several lines with escapes. -/
def multiLineBasicString : Reader (List Char) :=
  multiLine '"' ((fun c => [c]) <$> basicChar <|> (do lineContinuation; return []) <|>
    (fun c => [c]) <$> escaped)

/-- A string of several lines as it stands. -/
def multiLineLiteralString : Reader (List Char) :=
  multiLine '\'' ((fun c => [c]) <$> literalChar)

/-- A string in any of its forms. -/
def string : Reader String :=
  String.ofList <$>
    (multiLineBasicString <|> basicString <|> multiLineLiteralString <|> literalString)

/-! ## Numbers -/

/-- Digits with single underscores between them; the value is without them. -/
def digitRun (isDigit : Char → Bool) : Reader (List Char) := do
  let first ← charWhere isDigit
  let rest ← many (do let _ ← maybe (char '_'); charWhere isDigit)
  return first :: rest

/-- The sign before a number: true for a minus. -/
def sign : Reader Bool := (do char '-'; return true) <|> (do char '+'; return false) <|> pure false

/-- The digits of a decimal number, which has no leading zero. -/
def decimalDigits : Reader (List Char) := fun s =>
  if s.head? = some '0' then some (['0'], s.drop 1) else digitRun isDigit s

/-- Integers have 64 bits: they reach from the negative of this up to, but not
    including, this. -/
def integerLimit : Int := 0x8000000000000000

/-- The integer of digits in a radix. -/
def integerOf (radix : Nat) (isNegative : Bool) (digits : List Char) : Reader Int := do
  let some n := Text.ofDigits? radix digits | failure
  let n : Int := if isNegative then -n else n
  if -integerLimit ≤ n ∧ n < integerLimit then return n else failure

/-- An integer after the mark of its radix. -/
def markedInteger (mark : String) (radix : Nat) : Reader Int := do
  word mark
  integerOf radix false (← digitRun fun c => (Text.digit? radix c).isSome)

def integer : Reader Int :=
  markedInteger "0x" 16 <|> markedInteger "0o" 8 <|> markedInteger "0b" 2 <|> do
    let isNegative ← sign
    integerOf 10 isNegative (← decimalDigits)

/-- A number of `digits`, scaled by a power of ten, rounds to no finite double:
    half a unit past the largest one and beyond. -/
def isTooLarge (digits : List Char) (exponent : Int) : Bool :=
  let digits := digits.dropWhile (· == '0')
  let threshold := 1 <<< 1024 - 1 <<< 970
  let magnitude := digits.length + exponent
  if digits.isEmpty || magnitude < 309 then false
  else if 309 < magnitude then true
  else
    let n := (Text.ofDigits? 10 digits).getD 0
    threshold * Nat.pow 10 (-exponent).toNat ≤ n * Nat.pow 10 exponent.toNat

/-- The exponent of a float. -/
def floatExponent : Reader Int := do
  let _ ← charWhere fun c => c == 'e' || c == 'E'
  let isNegative ← sign
  let some n := Text.ofDigits? 10 (← digitRun isDigit) | failure
  return if isNegative then -n else n

/-- The fraction digits of a float. -/
def floatFraction : Reader (List Char) := do char '.'; digitRun isDigit

/-- A float in digits: with a fraction, an exponent, or both. -/
def decimalFloat : Reader Unit := do
  let isNegative ← sign
  let whole ← decimalDigits
  let fraction ← maybe floatFraction
  let exponent ← maybe floatExponent
  if fraction.isNone && exponent.isNone then failure
  let fraction := fraction.getD []
  if !isNegative && isTooLarge (whole ++ fraction) (exponent.getD 0 - fraction.length) then failure

/-- Infinity or no number, by name. -/
def namedFloat : Reader Unit := do
  let _ ← sign
  word "inf" <|> word "nan"

/-! ## Dates and times -/

/-- A number of `width` digits in a range. -/
def field (width lo hi : Nat) : Reader Nat := do
  let some n := Text.ofDigits? 10 (← exactly isDigit width) | failure
  if lo ≤ n ∧ n ≤ hi then return n else failure

/-- Days in a month of the calendar. -/
def daysIn (year month : Nat) : Nat :=
  if month = 2 then
    if year % 4 = 0 ∧ (year % 100 ≠ 0 ∨ year % 400 = 0) then 29 else 28
  else if month = 4 ∨ month = 6 ∨ month = 9 ∨ month = 11 then 30 else 31

def date : Reader Unit := do
  let year ← field 4 0 9999
  char '-'
  let month ← field 2 1 12
  char '-'
  let _ ← field 2 1 (daysIn year month)

def time : Reader Unit := do
  let _ ← field 2 0 23
  char ':'
  let _ ← field 2 0 59
  char ':'
  let _ ← field 2 0 60
  let _ ← maybe (do char '.'; let _ ← run1 isDigit)

/-- The distance of a local time from the universal one. -/
def timeOffset : Reader Unit :=
  (do let _ ← charWhere fun c => c == 'Z' || c == 'z') <|> do
    let _ ← charWhere fun c => c == '+' || c == '-'
    let _ ← field 2 0 23
    char ':'
    let _ ← field 2 0 59

def moment : Reader Unit :=
  (do
    date
    let _ ← maybe (do
      let _ ← charWhere fun c => c == 'T' || c == 't' || c == ' '
      time
      let _ ← maybe timeOffset)) <|> time

/-! ## Scalars -/

/-- The text that a reader takes. -/
def spelling (r : Reader Unit) : Reader String := fun s => do
  let ((), rest) ← r s
  return (String.ofList (s.take (s.length - rest.length)), rest)

/-- A scalar. Of the readings of digits the longest stands first. -/
def scalar : Reader Value :=
  .string <$> string <|>
  .moment <$> spelling moment <|>
  .float <$> spelling (decimalFloat <|> namedFloat) <|>
  .integer <$> integer <|>
  (do word "true"; return .boolean true) <|>
  (do word "false"; return .boolean false)

end BootSeal.Toml
