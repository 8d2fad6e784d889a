/-
  BootSeal — DER: elements of a tag, a length and a content, each in its shortest
  form.

  * `Der.Reader`: readers of the front of a byte string;
  * `Der.element`, `Der.tagged`, `Der.sequence`: an element of any tag, of a given
    tag, and a sequence whose content a reader takes to the end;
  * `Der.natural`: an unsigned integer in its shortest form;
  * `Der.objectIdentifier`, `Der.bitString`: identifiers and whole bytes;
  * `Der.contextField`: an optional numbered field;
  * `Der.encode`: an element as bytes.
-/
import BootSeal.Bytes

namespace BootSeal.Der

/-! ## Tags -/

def integerTag : UInt8 := 0x02
def bitStringTag : UInt8 := 0x03
def octetStringTag : UInt8 := 0x04
def identifierTag : UInt8 := 0x06
def sequenceTag : UInt8 := 0x30

/-- Tag of a numbered field, whose content is an element or the bare content of
    one. -/
def contextTag (isConstructed : Bool) (number : UInt8) : UInt8 :=
  (if isConstructed then 0xa0 else 0x80) ||| number

/-- The number of a tag within its class. -/
def tagNumber (tag : UInt8) : UInt8 := tag &&& 0x1f

/-- The tag of a numbered field. -/
def isContextTag (tag : UInt8) : Bool := tag &&& 0xc0 == 0x80

/-- The universal tags in use. -/
def universalTags : List UInt8 :=
  [0x01, 0x02, 0x03, 0x04, 0x05, 0x06, 0x09, 0x0a, 0x0c, 0x12, 0x13, 0x14, 0x15, 0x16, 0x17, 0x18,
    0x1a, 0x1e, 0x30, 0x31]

/-- A tag of one byte. -/
def isTag (tag : UInt8) : Bool :=
  if tag < 0x40 then universalTags.contains tag else tagNumber tag != 0x1f

/-! ## Readers -/

/-- A reader of the front of a byte string. -/
abbrev Reader (α : Type) := StateT Bytes Option α

variable {α : Type}

/-- The value of a whole byte string. -/
def whole? (r : Reader α) (bytes : Bytes) : Option α :=
  match r.run bytes with
  | some (a, []) => some a
  | _ => none

/-- The next byte, which stays in place; none at the end. -/
def next? : Reader (Option UInt8) := fun b => some (b.head?, b)

/-- One byte. -/
def byte : Reader UInt8
  | [] => none
  | x :: rest => some (x, rest)

/-- A number of bytes. -/
def bytes (n : Nat) : Reader Bytes := fun b =>
  if n ≤ b.length then some (b.take n, b.drop n) else none

/-- Lengths are below this. -/
def lengthLimit : Nat := 0x10000000

/-- The length of a content: in one byte below 128, else in as few bytes as it
    takes, at most four, after a byte that counts them. -/
def contentLength : Reader Nat := do
  let first ← byte
  if first < 0x80 then return first.toNat
  let width := (first - 0x80).toNat
  if width = 0 ∨ 4 < width then failure
  let digits ← bytes width
  let n := digits.toNatBE
  if digits.head? ≠ some 0 ∧ 0x80 ≤ n ∧ n < lengthLimit then return n else failure

/-- Tag and content of an element. -/
def element : Reader (UInt8 × Bytes) := do
  let tag ← byte
  if !isTag tag then failure
  return (tag, ← bytes (← contentLength))

/-- The content of an element with a given tag. -/
def tagged (tag : UInt8) : Reader Bytes := do
  let (found, content) ← element
  if found = tag then return content else failure

/-- An element whose content a reader takes to the end. -/
def within (tag : UInt8) (r : Reader α) : Reader α := do
  let some a := whole? r (← tagged tag) | failure
  return a

/-- A sequence of which a reader takes all the elements. -/
def sequence (r : Reader α) : Reader α := within sequenceTag r

/-- The content of an octet string. -/
def octetString : Reader Bytes := tagged octetStringTag

/-- The value of the content of an integer that is not negative, in its shortest
    form: a leading zero byte only before a byte with the highest bit. -/
def naturalOf? : Bytes → Option Nat
  | [] => none
  | [x] => if x < 0x80 then some x.toNat else none
  | x :: y :: rest =>
    if x < 0x80 ∧ (x = 0 → 0x80 ≤ y) then some (Bytes.toNatBE (x :: y :: rest)) else none

/-- An integer that is not negative. -/
def natural : Reader Nat := do
  let some n := naturalOf? (← tagged integerTag) | failure
  return n

/-- The content of a bit string of whole bytes. -/
def bitStringOf? : Bytes → Option Bytes
  | 0 :: content => some content
  | _ => none

/-- A bit string of whole bytes. -/
def bitString : Reader Bytes := do
  let some content := bitStringOf? (← tagged bitStringTag) | failure
  return content

/-- The rest of an object identifier after its first byte: numbers of 7 bits a
    byte, each of at most 32 bits; all bytes but the last of a number have the
    highest bit. `used` counts the bytes of the number so far. -/
def areArcs (used : Nat) : Bytes → Bool
  | [] => used == 0
  | x :: rest =>
    if 4 ≤ used && x &&& 0xf0 != 0 then false
    else areArcs (if x &&& 0x80 = 0 then 0 else used + 1) rest

/-- The content of an object identifier. The first byte holds two numbers, of
    which the first is at most 2. -/
def isIdentifier (content : Bytes) : Bool :=
  3 ≤ content.length && content.length ≤ 39 && content.headD 0 < 120 && areArcs 0 content.tail

/-- An object identifier, as its content. -/
def objectIdentifier : Reader Bytes := do
  let content ← tagged identifierTag
  if isIdentifier content then return content else failure

/-- An element, if there is one. -/
def optionalElement : Reader (Option (UInt8 × Bytes)) := do
  match ← next? with
  | none => return none
  | some _ => some <$> element

/-- At most `limit` elements as long as their tag is of a class. -/
def skipUpTo (p : UInt8 → Bool) : (limit : Nat) → Reader Unit
  | 0 => pure ()
  | limit + 1 => do
    match ← next? with
    | some tag => if p tag then do let _ ← element; skipUpTo p limit
    | none => pure ()

/-- The field of a number, read by `r`, if there is one. Fields of lower numbers
    before it are passed over. An element takes at least one byte, so the length
    of the byte string bounds their number. -/
def contextField (number : UInt8) (r : Reader α) : Reader (Option α) := do
  skipUpTo (fun tag => isContextTag tag && tagNumber tag < number) (← get).length
  match ← next? with
  | some tag => if isContextTag tag && tagNumber tag = number then some <$> r else return none
  | none => return none

/-- A numbered field that holds one element. -/
def explicitField (number : UInt8) (r : Reader α) : Reader (Option α) :=
  contextField number (within (contextTag true number) r)

/-- A numbered field that holds the content of a bit string of whole bytes. -/
def bitStringField (number : UInt8) : Reader (Option Bytes) :=
  contextField number do
    let some content := bitStringOf? (← tagged (contextTag false number)) | failure
    return content

/-- A numbered field of any number that holds one element of any kind. -/
def anyField : Reader Unit := do
  let (tag, content) ← element
  if !(isContextTag tag && tag &&& 0x20 != 0) then failure
  let some _ := whole? element content | failure

/-- Numbered fields up to the end; at most `limit` of them are read. -/
def fieldsToEnd : (limit : Nat) → Reader Unit
  | 0 => pure ()
  | limit + 1 => do
    match ← next? with
    | some _ => anyField; fieldsToEnd limit
    | none => pure ()

/-! ## Writing -/

/-- The bytes of a length. -/
def encodeLength (n : Nat) : Bytes :=
  if n < 0x80 then [UInt8.ofNat n]
  else
    let width := if n < 0x100 then 1 else if n < 0x10000 then 2 else if n < 0x1000000 then 3 else 4
    UInt8.ofNat (0x80 + width) :: Bytes.ofNatBE width n

/-- An element. -/
def encode (tag : UInt8) (content : Bytes) : Bytes := tag :: encodeLength content.length ++ content

/-- A sequence of elements. -/
def encodeSequence (elements : List Bytes) : Bytes := encode sequenceTag elements.flatten

/-- The content of an integer in its shortest form. -/
def naturalContent (n : Nat) : Bytes :=
  Bytes.ofNatBE (n.log2 / 8 + 1 + if n.log2 % 8 = 7 then 1 else 0) n

/-- An integer. -/
def encodeNatural (n : Nat) : Bytes := encode integerTag (naturalContent n)

/-- A bit string of whole bytes. -/
def encodeBitString (content : Bytes) : Bytes := encode bitStringTag (0 :: content)

end BootSeal.Der
