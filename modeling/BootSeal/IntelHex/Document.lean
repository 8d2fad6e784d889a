/-
  BootSeal — Intel Hex documents: the text form of an image.

  * `IntelHex.read` places the data records of a text, each at its offset from
    the base that the latest address record set, up to the end-of-file record;
  * `IntelHex.chunks` cuts an image into the runs that data records carry: at
    most 16 bytes, none across a multiple of 64 KiB;
  * `IntelHex.records` puts an address record before the first run of each
    64 KiB page, and an end-of-file record last;
  * `IntelHex.write` is the text of those records.
-/
import BootSeal.Image.Basic
import BootSeal.IntelHex.Record
import BootSeal.Text.Lines

namespace BootSeal.IntelHex

/-! ## Reading -/

/-- Why a text is no image. -/
inductive Fault where
  | record (fault : RecordFault)
  | placement (fault : PlacementFault)
  deriving DecidableEq, Repr

/-- The image of a run of lines, read onto `img` from the base `base`. Lines
    without characters are passed over, and entry points are no content. -/
def readLines (base : UInt32) (img : Image) : List (List Char) → Except Fault Image
  | [] => .ok img
  | line :: rest =>
    if line.isEmpty then readLines base img rest
    else match Record.parse line with
      | .error fault => .error (.record fault)
      | .ok .endOfFile => .ok img
      | .ok (.data offset payload) =>
        match img.insert (base + offset.toUInt32) payload with
        | .ok img => readLines base img rest
        | .error fault => .error (.placement fault)
      | .ok (.extendedLinear upper) => readLines (upper.toUInt32 <<< 16) img rest
      | .ok (.extendedSegment segment) => readLines (segment.toUInt32 <<< 4) img rest
      | .ok (.startSegment _) => readLines base img rest
      | .ok (.startLinear _) => readLines base img rest

/-- The image that a text describes. -/
def read (text : String) : Except Fault Image :=
  readLines 0 Image.empty (Text.lines text.toList)

/-! ## Writing -/

/-- Bytes in a full data record. -/
def recordBytes : Nat := 16

/-- Bytes in a page, within which offsets lie. -/
def pageBytes : Nat := 0x10000

/-- Bytes in the first run of `length` bytes at `address`. -/
def runLength (address length : Nat) : Nat :=
  min (min length recordBytes) (pageBytes - address % pageBytes)

/-- The runs of a segment, each with its address. -/
def segmentChunks (address : Nat) (data : Bytes) : List (Nat × Bytes) :=
  go data.length address data
where
  /-- At most `fuel` runs; a run is never empty, so the number of bytes is
      enough. -/
  go : (fuel : Nat) → Nat → Bytes → List (Nat × Bytes)
    | 0, _, _ => []
    | fuel + 1, address, data =>
      if data.isEmpty then []
      else
        let n := runLength address (data.take recordBytes).length
        (address, data.take n) :: go fuel (address + n) (data.drop n)

/-- The runs of an image, each with its address, lowest first. -/
def chunks (img : Image) : List (Nat × Bytes) :=
  img.segments.flatMap fun s => segmentChunks s.start.toNat s.data

/-- The records of runs, when `page` is the page of the latest address record. -/
def recordsFrom (page : Option UInt16) : List (Nat × Bytes) → List Record
  | [] => [.endOfFile]
  | (address, payload) :: rest =>
    let upper := UInt16.ofNat (address / pageBytes)
    let data := Record.data (UInt16.ofNat (address % pageBytes)) payload
    if page = some upper then data :: recordsFrom page rest
    else .extendedLinear upper :: data :: recordsFrom (some upper) rest

/-- The records of an image. -/
def records (img : Image) : List Record := recordsFrom none (chunks img)

/-- Why records have no text. -/
inductive DocumentFault where
  /-- A payload whose length has no byte. -/
  | payloadTooLong (length : Nat)
  /-- The last record is not the end-of-file record. -/
  | missingEnd
  /-- An end-of-file record stands before the last record. -/
  | repeatedEnd
  deriving DecidableEq, Repr

/-- The text of records, which end with the only end-of-file record. -/
def render (rs : List Record) : Except DocumentFault String :=
  match rs.find? (fun r => 255 < r.fields.2.2.length) with
  | some r => .error (.payloadTooLong r.fields.2.2.length)
  | none =>
    if rs.getLast? ≠ some .endOfFile then .error .missingEnd
    else if 1 < rs.countP (· == .endOfFile) then .error .repeatedEnd
    else .ok (String.ofList (rs.flatMap fun r => r.render ++ ['\n']))

/-- The text of an image. -/
def write (img : Image) : Except DocumentFault String := render (records img)

end BootSeal.IntelHex
