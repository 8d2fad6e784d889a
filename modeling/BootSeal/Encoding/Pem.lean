/-
  BootSeal — PEM texts: bytes in base64 between two boundary lines with a label.

  * `Pem.encode`: lines of 64 characters that end with line feeds;
  * `Pem.decode?`: the bytes under an expected label. Lines end with a line feed,
    a carriage return, or both; all but the last have 64 characters; text may
    stand before the first boundary, if that starts a line.
-/
import BootSeal.Encoding.Base64
import BootSeal.Text.Lines

namespace BootSeal.Pem

/-- Characters in a full line. -/
def lineWidth : Nat := 64

/-- What every first boundary starts with. -/
def opening : List Char := "-----BEGIN ".toList

/-- The boundary before the content. -/
def beginLine (label : String) : List Char := opening ++ label.toList ++ "-----".toList

/-- The boundary after the content. -/
def endLine (label : String) : List Char := "-----END ".toList ++ label.toList ++ "-----".toList

/-! ## Writing -/

/-- The characters in lines of 64, each with a line feed. -/
def wrap (cs : List Char) : List Char :=
  go cs.length cs
where
  /-- At most `limit` lines; a line has at least one character. -/
  go : (limit : Nat) → List Char → List Char
    | 0, _ => []
    | limit + 1, cs =>
      if cs.isEmpty then []
      else cs.take lineWidth ++ '\n' :: go limit (cs.drop lineWidth)

/-- The text of bytes under a label. -/
def encode (label : String) (bytes : Bytes) : List Char :=
  beginLine label ++ '\n' :: wrap (Base64.encode bytes) ++ endLine label ++ ['\n']

/-! ## Reading -/

/-- The text from the first boundary on. It stands at the start of the text or
    after a line feed, and no null character comes before it. -/
def skipPreamble? (text : List Char) : Option (List Char) :=
  if opening.isPrefixOf text then some text else go text
where
  /-- The text after the first line feed that a boundary follows. -/
  go : List Char → Option (List Char)
    | [] => none
    | c :: rest =>
      if c = '\n' ∧ opening.isPrefixOf rest then some rest
      else if c = '\x00' then none
      else go rest

/-- The text after the line end at its start. -/
def dropLineEnd? : List Char → Option (List Char)
  | '\n' :: rest => some rest
  | '\r' :: '\n' :: rest => some rest
  | '\r' :: rest => some rest
  | _ => none

/-- The text before the line end at its end. -/
def dropFinalLineEnd? (text : List Char) : Option (List Char) :=
  match text.reverse with
  | '\n' :: '\r' :: rest => some rest.reverse
  | '\n' :: rest => some rest.reverse
  | '\r' :: rest => some rest.reverse
  | _ => none

/-- The characters of lines, of which only the last may be shorter than 64. -/
def unwrap? (text : List Char) : Option (List Char) :=
  go (text.length + 1) text
where
  /-- At most `limit` lines; a full line has at least one character. -/
  go : (limit : Nat) → List Char → Option (List Char)
    | 0, _ => none
    | limit + 1, text =>
      if text.length ≤ lineWidth then some ((dropFinalLineEnd? text).getD text)
      else do
        let rest ← dropLineEnd? (text.drop lineWidth)
        return text.take lineWidth ++ (← go limit rest)

/-- The bytes of a text under a label. -/
def decode? (label : String) (text : List Char) : Option Bytes := do
  let text ← skipPreamble? text
  let text ← Text.dropWord? (beginLine label) text
  let text ← dropLineEnd? text
  let text ← Text.dropEndWord? (endLine label) text
  let text ← dropFinalLineEnd? text
  Base64.decode? (← unwrap? text)

end BootSeal.Pem
