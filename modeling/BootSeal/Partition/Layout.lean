/-
  BootSeal — partition layouts: which partitions a build has and where they lie.
-/
import BootSeal.Address

namespace BootSeal

/-- A contiguous region of flash. -/
structure Region where
  start : UInt32
  size : UInt32
  deriving DecidableEq, Repr

/-- The first address past the region, if there is one. -/
def Region.stop? (r : Region) : Option UInt32 := Address.add? r.start r.size

/-- One partition. Address and size mean something only when it is present. -/
structure PartitionEntry where
  name : String
  address : UInt32
  size : UInt32
  isPresent : Bool
  deriving DecidableEq, Repr

namespace PartitionEntry

/-- A partition that the build has. -/
def present (name : String) (address size : UInt32) : PartitionEntry := ⟨name, address, size, true⟩

/-- A partition that the build does without. -/
def absent (name : String) : PartitionEntry := ⟨name, 0, 0, false⟩

/-- The region of the partition. -/
def region (e : PartitionEntry) : Region := ⟨e.address, e.size⟩

end PartitionEntry

/-- The partitions of a build in the order of its table, and the installer's
    region if it is known. -/
structure PartitionLayout where
  entries : List PartitionEntry
  installer : Option Region
  deriving DecidableEq, Repr

/-- The partitions that are there. -/
def PartitionLayout.presentEntries (l : PartitionLayout) : List PartitionEntry :=
  l.entries.filter (·.isPresent)

end BootSeal
