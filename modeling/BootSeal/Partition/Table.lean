/-
  BootSeal — the layout of a partition table on flash: a header with the number
  of entries, one entry of 64 bytes for each partition, and a CRC-32 of all that
  stands before it. Words have their least significant byte first.

  * `PartitionTable.header`, `PartitionTable.entryBytes`: the parts as bytes;
  * `TableView.parse?`: the parts of a byte string long enough for the number of
    entries that its header tells, whatever its checksum;
  * `PartitionTable.contentOf`: the bytes that a checksum is taken of.
-/
import BootSeal.Hash.Crc32
import BootSeal.Partition.Layout

namespace BootSeal

namespace PartitionTable

def headerSize : Nat := 32

def entrySize : Nat := 64

def trailerSize : Nat := 4

/-- The number of entries stands in one byte. -/
def maxEntries : Nat := 255

/-- Bytes in a table. -/
def encodedSize (entries : Nat) : Nat := headerSize + entrySize * entries + trailerSize

/-- The header: the number of entries and 31 reserved bytes. -/
def header (count : UInt8) : Bytes := count :: List.replicate 31 0

/-- An entry: address, size and 56 reserved bytes. -/
def entryBytes (address size : UInt32) : Bytes :=
  Bytes.ofWord address ++ Bytes.ofWord size ++ List.replicate 56 0

/-- Header and entries of a table. -/
def contentOf (entries : List PartitionEntry) : Bytes :=
  header (UInt8.ofNat entries.length) ++ entries.flatMap fun e => entryBytes e.address e.size

end PartitionTable

/-- An entry as it stands on flash. -/
structure TableEntry where
  address : UInt32
  size : UInt32
  reserved : Bytes
  deriving DecidableEq, Repr

/-- The entry in 64 bytes. -/
def TableEntry.ofBytes (b : Bytes) : TableEntry :=
  ⟨Bytes.toWord b, Bytes.toWord (b.drop 4), b.drop 8⟩

/-- The parts of a table at the start of a byte string. -/
structure TableView where
  /-- The bytes of the table, without any that follow it. -/
  bytes : Bytes
  deriving DecidableEq, Repr

namespace TableView

/-- The table at the start of a byte string that is long enough for the number of
    entries its first byte tells. -/
def parse? (b : Bytes) : Option TableView := do
  let header ← b.slice? 0 PartitionTable.headerSize
  let bytes ← b.slice? 0 (PartitionTable.encodedSize (header.headD 0).toNat)
  return ⟨bytes⟩

/-- The number of entries that the header tells. -/
def entryCount (v : TableView) : UInt8 := v.bytes.headD 0

/-- The bytes of the header after the number of entries. -/
def reserved (v : TableView) : Bytes := (v.bytes.take PartitionTable.headerSize).drop 1

/-- The bytes that the checksum is taken of. -/
def content (v : TableView) : Bytes :=
  v.bytes.take (v.bytes.length - PartitionTable.trailerSize)

/-- The entries in order. -/
def entries (v : TableView) : List TableEntry :=
  let body := v.bytes.drop PartitionTable.headerSize
  (Bytes.chunks PartitionTable.entrySize v.entryCount.toNat body).map TableEntry.ofBytes

/-- The checksum that the table carries. -/
def checksum (v : TableView) : UInt32 :=
  Bytes.toWord (v.bytes.drop (v.bytes.length - PartitionTable.trailerSize))

end TableView

end BootSeal
