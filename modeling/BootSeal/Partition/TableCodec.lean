/-
  BootSeal — partition tables with their checksum, and where they go.

  * `PartitionTable.build` writes the present entries of a layout;
  * `PartitionTable.parse` reads a table back and checks its checksum; names are
    not stored on flash, so the entries it gives have none;
  * `Image.partitionTable` reads the table at an address of an image;
  * `TablePlacement.resolve`: the address of a table in a layout, a fixed one or
    the one right after the installer partition;
  * `PlacedTable.ofLayout`: the table of a layout in an image that holds nothing
    else.
-/
import BootSeal.Error
import BootSeal.Image.Basic

namespace BootSeal

/-- A partition table: its entries, its checksum, and all of its bytes. -/
structure PartitionTable where
  entries : List PartitionEntry
  checksum : UInt32
  bytes : Bytes
  deriving DecidableEq, Repr

namespace PartitionTable

/-- Stands for the place of a table in messages. -/
def source : String := "<metadata>"

/-- The number of entries that the table tells. -/
def entryCount (t : PartitionTable) : UInt8 := t.bytes.headD 0

/-- The table of the present entries, in order. -/
def build (entries : List PartitionEntry) : Except Error PartitionTable :=
  let present := entries.filter (·.isPresent)
  if maxEntries < present.length then
    .error (.configuration (.tooManyPartitions present.length))
  else
    let content := contentOf present
    let checksum := crc32 content
    .ok ⟨present, checksum, content ++ Bytes.ofWord checksum⟩

/-- The table at the start of a byte string. -/
def parse (b : Bytes) : Except Error PartitionTable :=
  match TableView.parse? b with
  | none => .error (.parse source (.shortTable b.length))
  | some view =>
    let computed := crc32 view.content
    if view.checksum ≠ computed then .error (.checksumMismatch view.checksum computed)
    else .ok ⟨view.entries.map fun e => .present "" e.address e.size, computed, view.bytes⟩

end PartitionTable

/-- The table at an address of an image. One segment must hold all of it. -/
def Image.partitionTable (img : Image) (address : UInt32) : Except Error PartitionTable := do
  let some header := img.read? address PartitionTable.headerSize
    | .error (.parse PartitionTable.source (.noTableHeader address))
  let size := PartitionTable.encodedSize (header.headD 0).toNat
  let some bytes := img.read? address size
    | .error (.parse PartitionTable.source (.truncatedTable address size))
  PartitionTable.parse bytes

/-! ## Places -/

/-- The place of a table. -/
inductive TablePlacement where
  | fixed (address : UInt32)
  | afterInstaller
  deriving DecidableEq, Repr

/-- The address of a place in a layout. -/
def TablePlacement.resolve (p : TablePlacement) (layout : PartitionLayout) :
    Except Error UInt32 :=
  match p with
  | fixed address => .ok address
  | afterInstaller =>
    match layout.installer with
    | none => .error (.configuration .installerMissing)
    | some installer =>
      match installer.stop? with
      | none => .error (.configuration .installerPastAddressSpace)
      | some address => .ok address

/-- A table, its address, and the image that holds it there. -/
structure PlacedTable where
  table : PartitionTable
  address : UInt32
  image : Image
  deriving DecidableEq, Repr

/-- The table of a layout at a place. -/
def PlacedTable.ofLayout (layout : PartitionLayout) (placement : TablePlacement) :
    Except Error PlacedTable := do
  let address ← placement.resolve layout
  let table ← PartitionTable.build layout.entries
  let image ← (Image.ofBytes table.bytes address).mapError (·.toError)
  return ⟨table, address, image⟩

end BootSeal
