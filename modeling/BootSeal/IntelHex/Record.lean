/-
  BootSeal — Intel Hex records: one line of text each, made of a colon and the
  hexadecimal digits of a length, an offset, a type, a payload and a checksum
  that brings the sum of all bytes to zero.

  * `IntelHex.Record.parse` reads a line and says what is wrong with a bad one,
    in a fixed order of checks;
  * `IntelHex.Record.render` writes one in upper case.
-/
import BootSeal.Bytes
import BootSeal.Text.Number

namespace BootSeal.IntelHex

/-- A record of an Intel Hex file. -/
inductive Record where
  /-- Content at an offset from the current base. -/
  | data (offset : UInt16) (payload : Bytes)
  | endOfFile
  /-- Bits 4 to 19 of the base of the records that follow. -/
  | extendedSegment (segment : UInt16)
  /-- An entry point as segment and offset. -/
  | startSegment (payload : Bytes)
  /-- Bits 16 to 31 of the base of the records that follow. -/
  | extendedLinear (upper : UInt16)
  /-- An entry point as an address. -/
  | startLinear (payload : Bytes)
  deriving DecidableEq, Repr

/-- What is wrong with a line. -/
inductive RecordFault where
  | missingStartCode
  | invalidCharacters
  | tooShort
  | tooLong
  | oddLength
  | checksum (computed stored : UInt8)
  | lengthMismatch
  | lengthForType
  | unsupportedType (code : UInt8)
  deriving DecidableEq, Repr

/-- A byte as messages show it: two upper-case digits. -/
def byteText (x : UInt8) : String := String.ofList (Bytes.hexPair Text.upperDigit x)

/-- The wording of a fault. -/
def RecordFault.message : RecordFault → String
  | missingStartCode => "missing start code ':'"
  | invalidCharacters => "invalid characters encountered in record"
  | tooShort => "too short"
  | tooLong => "too long"
  | oddLength => "record does not contain a whole number of bytes"
  | checksum computed stored =>
    "invalid checksum '" ++ byteText computed ++ "', expecting '" ++ byteText stored ++ "'"
  | lengthMismatch => "payload length does not match record header"
  | lengthForType => "payload length invalid for record type"
  | unsupportedType code => "unsupported IHEX record type '" ++ byteText code ++ "'"

/-- The byte that brings the sum of all bytes to zero. -/
def checksum (b : Bytes) : UInt8 := 0 - b.foldr (· + ·) 0

/-- The bytes that pairs of hexadecimal digits denote. -/
def ofDigitPairs : List Char → Bytes
  | high :: low :: rest =>
    UInt8.ofNat (16 * (Text.digit? 16 high).getD 0 + (Text.digit? 16 low).getD 0) ::
      ofDigitPairs rest
  | _ => []

namespace Record

/-- Digits of the shortest record: length, offset, type and checksum. -/
def minDigits : Nat := 10

/-- Digits of the longest record, with a payload of 255 bytes. -/
def maxDigits : Nat := 520

/-- The two-byte payload of an address record. -/
def half (payload : Bytes) : UInt16 := UInt16.ofNat payload.toNatBE

/-- A record of a known type, whose payload has the length the type asks for. -/
def ofFields (code : UInt8) (offset : UInt16) (payload : Bytes) : Except RecordFault Record :=
  let exact (n : Nat) (r : Record) : Except RecordFault Record :=
    if payload.length = n then .ok r else .error .lengthForType
  match code with
  | 0 => .ok (.data offset payload)
  | 1 => exact 0 .endOfFile
  | 2 => exact 2 (.extendedSegment (half payload))
  | 3 => exact 4 (.startSegment payload)
  | 4 => exact 2 (.extendedLinear (half payload))
  | 5 => exact 4 (.startLinear payload)
  | code => .error (.unsupportedType code)

/-- The record of the bytes before the checksum. -/
def ofBody : Bytes → Except RecordFault Record
  | length :: high :: low :: code :: payload =>
    if payload.length = length.toNat then ofFields code (half [high, low]) payload
    else .error .lengthMismatch
  | _ => .error .tooShort

/-- The record on a line. -/
def parse : List Char → Except RecordFault Record
  | ':' :: digits =>
    let count := digits.length
    if !digits.all Text.isHexDigit then .error .invalidCharacters
    else if count < minDigits then .error .tooShort
    else if maxDigits < count then .error .tooLong
    else if count % 2 = 1 then .error .oddLength
    else
      let bytes := ofDigitPairs digits
      let body := bytes.dropLast
      let stored := bytes.getLastD 0
      if checksum body = stored then ofBody body else .error (.checksum (checksum body) stored)
  | _ => .error .missingStartCode

/-- The type code, the offset and the payload of a record. -/
def fields : Record → UInt8 × UInt16 × Bytes
  | .data offset payload => (0, offset, payload)
  | .endOfFile => (1, 0, [])
  | .extendedSegment segment => (2, 0, Bytes.ofNatBE 2 segment.toNat)
  | .startSegment payload => (3, 0, payload)
  | .extendedLinear upper => (4, 0, Bytes.ofNatBE 2 upper.toNat)
  | .startLinear payload => (5, 0, payload)

/-- The bytes before the checksum. -/
def body (r : Record) : Bytes :=
  let (code, offset, payload) := r.fields
  UInt8.ofNat payload.length :: Bytes.ofNatBE 2 offset.toNat ++ code :: payload

/-- The line of a record, without a line end. -/
def render (r : Record) : List Char :=
  ':' :: (r.body ++ [checksum r.body]).flatMap (Bytes.hexPair Text.upperDigit)

end Record

end BootSeal.IntelHex
