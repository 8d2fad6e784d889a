/-
  BootSeal — TOML documents: lines of keys with values, and headers that say
  which table the keys after them belong to.

  * `value`: scalars, arrays over several lines, and tables between braces;
  * `parse?`: the table of a whole text.
-/
import BootSeal.Toml.Scalar

namespace BootSeal.Toml

open Text (Reader)
open Text.Reader

/-- Values nest, and keys have parts, less than this deep. -/
def depthLimit : Nat := 80

/-! ## Lines -/

/-- A comment, up to the end of its line. -/
def comment : Reader Unit := do
  char '#'
  let _ ← run isShown

/-- What ends a line: a line end, or the end of the text. -/
def lineEnd : Reader Unit := newline <|> atEnd

/-- What may follow a value or a header on its line. -/
def lineTail : Reader Unit := do
  spaces
  let _ ← maybe comment
  lineEnd

/-- Blanks, comments and line ends. -/
def gap : Reader Unit := do
  let _ ← many ((do let _ ← charWhere isSpace) <|> newline <|> do comment; newline)

/-! ## Keys -/

/-- A character of a key without quotes. -/
def isKeyChar (c : Char) : Bool := c.isAlphanum || c == '-' || c == '_'

/-- One part of a key. -/
def keyPart : Reader String := String.ofList <$> (basicString <|> literalString <|> run1 isKeyChar)

/-- A key: the parts before the last one, and the last one. -/
def key : Reader (List String × String) := do
  let parts ← separated (do spaces; let part ← keyPart; spaces; return part) (char '.')
  match parts.getLast? with
  | some last => if parts.length < depthLimit then return (parts.dropLast, last) else failure
  | none => failure

/-! ## Values -/

/-- The values of an array up to its closing bracket; a comma may follow the last
    one. -/
def arrayItems (value : Reader Value) : Reader (List Value) := do
  let items ← maybe (separated (do gap; let v ← value; gap; return v) (char ','))
  if items.isSome then let _ ← maybe (char ',')
  gap
  return items.getD []

/-- A key with its value. -/
def entry (value : Reader Value) : Reader ((List String × String) × Value) := do
  let k ← key
  char '='
  spaces
  return (k, ← value)

/-- The table of keys with values, none of which is given twice. -/
def inlineTable? (entries : List ((List String × String) × Value)) : Option Table :=
  entries.foldlM (fun t e => t.put? e.1.1 e.1.2 e.2 .inline) []

/-- The keys of a table between braces, on one line. -/
def inlineEntries (value : Reader Value) : Reader Table := do
  let entries ← maybe (separated (do let e ← entry value; spaces; return e) (char ','))
  spaces
  let some t := inlineTable? (entries.getD []) | failure
  return t

/-- A value in which arrays and tables nest less than `depth` deep. -/
def valueWithin : (depth : Nat) → Reader Value
  | 0 => failure
  | depth + 1 => do
    match ← next? with
    | some '[' =>
      if depth = 0 then failure
      char '['
      let items ← arrayItems (valueWithin depth)
      char ']'
      return .array items
    | some '{' =>
      if depth = 0 then failure
      char '{'
      let t ← inlineEntries (valueWithin depth)
      char '}'
      return .table .inline t
    | _ => scalar

def value : Reader Value := valueWithin depthLimit

/-! ## Documents -/

/-- The document so far, and the header that the next keys stand under. -/
structure Draft where
  root : Table
  header : List String
  deriving Repr

/-- A header that opens a table, and its line. -/
def tableHeader (d : Draft) : Reader Draft := do
  char '['
  let (path, last) ← key
  char ']'
  lineTail
  let some root := d.root.open? path last | failure
  return ⟨root, path ++ [last]⟩

/-- A header that opens an element of an array of tables, and its line. -/
def elementHeader (d : Draft) : Reader Draft := do
  word "[["
  let (path, last) ← key
  word "]]"
  lineTail
  let some root := d.root.openElement? path last | failure
  return ⟨root, path ++ [last]⟩

/-- A key with its value, and its line. The value goes into the table that the
    latest header opened. -/
def keyLine (d : Draft) : Reader Draft := do
  let ((path, last), v) ← entry value
  lineTail
  let some root := d.root.modify? .implied (Table.put? path last v) d.header .header | failure
  return { d with root }

/-- One line that is not the end of the text. -/
def line (d : Draft) : Reader Draft := do
  match ← next? with
  | some '#' => comment; lineEnd; return d
  | some '[' => elementHeader d <|> tableHeader d
  | some '\n' | some '\r' => newline; return d
  | some _ => keyLine d
  | none => failure

/-- At most `limit` lines up to the end of the text. -/
def linesUpTo : (limit : Nat) → Draft → Reader Draft
  | 0, d => return d
  | limit + 1, d => do
    spaces
    match ← next? with
    | none => return d
    | some _ => linesUpTo limit (← line d)

/-- The table of a text, which a byte order mark may precede. A line takes at
    least one character, so the length of the text bounds their number. -/
def parse? (text : List Char) : Option Table :=
  let text := if text.head? = some '\ufeff' then text.tail else text
  ((linesUpTo (text.length + 1) ⟨[], []⟩).all? text).map (·.root)

end BootSeal.Toml
