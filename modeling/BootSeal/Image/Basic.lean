/-
  BootSeal — sparse flash images: runs of bytes at absolute 32-bit addresses.

  * `Image.insertSegment` adds a segment, joins it with those it touches, and refuses
    one that leaves the address space or meets an occupied address; `Image.insert`
    does so with a run of bytes;
  * `Image.merge` inserts the segments of another image, one after the other;
  * `Image.read?` gives the bytes of a range that one segment holds;
  * `Image.flatten` gives the bytes from the lowest occupied address on, with
    erased flash in the gaps;
  * `Image.minAddress?` and `Image.maxAddress` are the ends of the occupied part;
  * `Image.byteAt?` is what an image means, a partial map from addresses to bytes,
    and `Image.Occupied` the domain of this map.

  Segments stand in ascending order, are never empty, and never touch each
  other, so that each map is written in one way (`Image.Canonical`). Every
  operation that changes an image keeps that.
-/
import BootSeal.Address
import BootSeal.Bytes

namespace BootSeal

/-! ## Segments -/

/-- A run of bytes at an absolute address. They stand in a byte array, so that a
    segment that is continued record by record is not copied each time. -/
structure Segment where
  start : UInt32
  content : ByteArray

namespace Segment

/-- The segment of a byte string. -/
def ofBytes (start : UInt32) (data : Bytes) : Segment := ⟨start, ⟨data.toArray⟩⟩

/-- The bytes of the segment. -/
def data (s : Segment) : Bytes := s.content.data.toList

instance : Repr Segment := ⟨fun s => reprPrec (s.start, s.data)⟩

/-- The first address past the segment. -/
def stop (s : Segment) : Nat := s.start.toNat + s.content.size

/-- The byte of a segment at an absolute address. -/
def byteAt? (s : Segment) (a : Nat) : Option UInt8 :=
  if s.start.toNat ≤ a then s.data[a - s.start.toNat]? else none

/-- Some address from `lo` up to, but not including, `hi` lies in the segment. -/
def meets (s : Segment) (lo hi : Nat) : Bool := s.start.toNat < hi && lo < s.stop

/-- A segment continued by the bytes of another. -/
def append (s t : Segment) : Segment := ⟨s.start, s.content ++ t.content⟩

@[ext] theorem ext {s t : Segment} (start : s.start = t.start) (data : s.data = t.data) : s = t := by
  cases s; cases t
  simp_all [Segment.data, Array.toList_inj, ByteArray.ext_iff]

instance : DecidableEq Segment := fun s t =>
  decidable_of_iff (s.start = t.start ∧ s.data = t.data)
    ⟨fun h => ext h.1 h.2, fun h => h ▸ ⟨rfl, rfl⟩⟩

@[simp] theorem start_ofBytes (start : UInt32) (data : Bytes) : (ofBytes start data).start = start :=
  rfl

@[simp] theorem data_ofBytes (start : UInt32) (data : Bytes) : (ofBytes start data).data = data :=
  rfl

@[simp] theorem start_append (s t : Segment) : (s.append t).start = s.start := rfl

@[simp] theorem data_append (s t : Segment) : (s.append t).data = s.data ++ t.data := by
  simp [data, append]

theorem size_content (s : Segment) : s.content.size = s.data.length := rfl

theorem isEmpty_content (s : Segment) : s.content.isEmpty = s.data.isEmpty := by
  rw [ByteArray.isEmpty, size_content, Bool.eq_iff_iff, beq_iff_eq, List.length_eq_zero_iff,
    List.isEmpty_iff]

theorem stop_eq (s : Segment) : s.stop = s.start.toNat + s.data.length := by
  rw [stop, size_content]

end Segment

/-- A sparse flash image. -/
structure Image where
  segments : List Segment
  deriving DecidableEq, Repr

/-- Why a run of bytes has no place in an image. -/
inductive PlacementFault where
  /-- The run ends past the last address. -/
  | pastAddressSpace (address : UInt32) (length : Nat)
  /-- The run meets the segment from `start` to `stop`. -/
  | overlap (address : UInt32) (length start stop : Nat)
  deriving DecidableEq, Repr

namespace Image

/-- The image without content. -/
def empty : Image := ⟨[]⟩

/-- The content of erased flash, which fills gaps. -/
def erased : UInt8 := 0xff

/-! ## Insertion -/

/-- A segment before others that lie above it, joined with the first of them if
    they touch. -/
def joinRight (s : Segment) : List Segment → List Segment
  | [] => [s]
  | t :: rest => if s.stop = t.start.toNat then s.append t :: rest else s :: t :: rest

/-- A segment among others in ascending order, none of which it meets, joined
    with those it touches. -/
def place (s : Segment) : List Segment → List Segment
  | [] => [s]
  | t :: rest =>
    if t.stop < s.start.toNat then t :: place s rest
    else if t.stop = s.start.toNat then joinRight (t.append s) rest
    else joinRight s (t :: rest)

/-- The image with one segment more. A segment without content has a place anywhere. -/
def insertSegment (img : Image) (s : Segment) : Except PlacementFault Image :=
  if s.content.isEmpty then .ok img
  else if addressSpace < s.stop then .error (.pastAddressSpace s.start s.content.size)
  else match img.segments.find? (·.meets s.start.toNat s.stop) with
    | some t => .error (.overlap s.start s.content.size t.start.toNat t.stop)
    | none => .ok ⟨place s img.segments⟩

/-- The image with `data` at `address`. -/
def insert (img : Image) (address : UInt32) (data : Bytes) : Except PlacementFault Image :=
  img.insertSegment (.ofBytes address data)

theorem insert_eq (img : Image) (address : UInt32) (data : Bytes) :
    img.insert address data =
      if data.isEmpty then .ok img
      else if addressSpace < address.toNat + data.length then
        .error (.pastAddressSpace address data.length)
      else match img.segments.find? (·.meets address.toNat (address.toNat + data.length)) with
        | some t => .error (.overlap address data.length t.start.toNat t.stop)
        | none => .ok ⟨place (.ofBytes address data) img.segments⟩ := by
  rw [insert, insertSegment, Segment.isEmpty_content, Segment.size_content, Segment.stop_eq,
    Segment.data_ofBytes, Segment.start_ofBytes]

/-- The image that holds only `data` at `address`. -/
def ofBytes (data : Bytes) (address : UInt32) : Except PlacementFault Image :=
  empty.insert address data

/-- Insertion of segments one after the other. The first that has no place ends
    it, and what was inserted before stays. -/
def insertAll (img : Image) : List Segment → Image × Except PlacementFault Unit
  | [] => (img, .ok ())
  | s :: rest =>
    match img.insert s.start s.data with
    | .ok img => insertAll img rest
    | .error fault => (img, .error fault)

/-- Insertion of every segment of another image, lowest first. -/
def merge (img other : Image) : Image × Except PlacementFault Unit :=
  img.insertAll other.segments

/-! ## Reading -/

/-- First addresses and ends of the segments. -/
def ranges (img : Image) : List (Nat × Nat) := img.segments.map fun s => (s.start.toNat, s.stop)

def isEmpty (img : Image) : Bool := img.segments.isEmpty

/-- The lowest occupied address. -/
def minAddress? (img : Image) : Option UInt32 := img.segments.head?.map (·.start)

/-- The highest occupied address, in 32-bit arithmetic: a length of `2 ^ 32` has
    no word, so an image that occupies every address has no answer. -/
def maxAddress (img : Image) : Except ArithmeticOverflow (Option UInt32) :=
  match img.segments.getLast? with
  | none => .ok none
  | some s =>
    match (Address.sub? (UInt32.ofNat s.content.size) 1).bind (Address.add? s.start) with
    | some a => .ok (some a)
    | none => .error .overflow

/-- The `length` bytes from `address` on, if a single segment holds them all. -/
def read? (img : Image) (address : UInt32) (length : Nat) : Option Bytes := do
  let s ← (img.segments.filter (·.start ≤ address)).getLast?
  s.data.slice? (address - s.start).toNat length

/-- The content of segments relative to `base`, of which `filled` bytes are
    already there, with erased flash in the gaps. -/
def flattenFrom (base : UInt32) : (filled : Nat) → List Segment → Bytes
  | _, [] => []
  | filled, s :: rest =>
    let offset := (s.start - base).toNat
    List.replicate (offset - filled) erased ++ s.data ++
      flattenFrom base (offset + s.data.length) rest

/-- The bytes from the lowest to the highest occupied address. -/
def flatten (img : Image) : Bytes :=
  match img.minAddress? with
  | none => []
  | some base => flattenFrom base 0 img.segments

/-! ## Meaning -/

/-- The byte of an image at an absolute address. -/
def byteAt? (img : Image) (a : Nat) : Option UInt8 := img.segments.findSome? (·.byteAt? a)

/-- The image holds a byte at `a`. -/
def Occupied (img : Image) (a : Nat) : Prop := (img.byteAt? a).isSome

/-- Nonempty segments within the address space, in ascending order, with a gap
    between any two. -/
structure Canonical (img : Image) : Prop where
  nonempty : ∀ s ∈ img.segments, s.data ≠ []
  inSpace : ∀ s ∈ img.segments, s.stop ≤ addressSpace
  separated : img.segments.Pairwise fun s t => s.stop < t.start.toNat

theorem canonical_empty : Canonical empty :=
  ⟨by simp [empty], by simp [empty], by simp [empty]⟩

end Image

end BootSeal
