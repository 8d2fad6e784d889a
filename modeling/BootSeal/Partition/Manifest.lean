/-
  BootSeal — partition manifests: an explicit list of partitions in TOML, for
  builds without a generated configuration.

  * `PartitionManifest.ofTable?` takes the parts of a document; unknown keys are
    refused at the top, and passed over inside a partition;
  * `PartitionManifest.parse` also refuses present partitions that leave the
    address space;
  * `PartitionManifest.layout` is the layout of the partitions, without an
    installer.
-/
import BootSeal.Partition.Config
import BootSeal.Toml.Document

namespace BootSeal

/-! ## Values -/

/-- A value as a 32-bit word. -/
def Toml.Value.word? : Toml.Value → Option UInt32
  | .integer n => if 0 ≤ n then Address.ofNat? n.toNat else none
  | _ => none

/-- A value as a text. -/
def Toml.Value.text? : Toml.Value → Option String
  | .string s => some s
  | _ => none

/-- A value as a truth value. -/
def Toml.Value.bool? : Toml.Value → Option Bool
  | .boolean b => some b
  | _ => none

/-- A field of a partition: its default if it is not there, and nothing if it is
    there and of the wrong kind. -/
def fieldOr {α : Type} (read? : Toml.Value → Option α) (default : α) : Option Toml.Value → Option α
  | none => some default
  | some v => read? v

/-- A partition of its fields; the name is required. -/
def PartitionEntry.ofFields? (name address size present : Option Toml.Value) :
    Option PartitionEntry := do
  let name ← name >>= Toml.Value.text?
  let address ← fieldOr Toml.Value.word? 0 address
  let size ← fieldOr Toml.Value.word? 0 size
  let isPresent ← fieldOr Toml.Value.bool? true present
  return ⟨name, address, size, isPresent⟩

/-- A partition written as a table, or as an array of its fields in order. -/
def PartitionEntry.ofValue? : Toml.Value → Option PartitionEntry
  | .table _ t =>
    ofFields? (t.lookup "name") (t.lookup "address") (t.lookup "size") (t.lookup "present")
  | .array items => ofFields? items[0]? items[1]? items[2]? items[3]?
  | _ => none

/-- The partitions of an array, or of an array of tables. -/
def PartitionEntry.listOfValue? : Toml.Value → Option (List PartitionEntry)
  | .array items => items.mapM ofValue?
  | .tables items => items.mapM fun t => ofValue? (.table .header t)
  | _ => none

/-! ## Manifests -/

/-- A list of partitions, and the address of their table if it is fixed. -/
structure PartitionManifest where
  tableAddress : Option UInt32
  entries : List PartitionEntry
  deriving DecidableEq, Repr

namespace PartitionManifest

def addressKey : String := "metadata_address"

def partitionKey : String := "partition"

/-- The manifest of a document. -/
def ofTable? (t : Toml.Table) : Option PartitionManifest := do
  guard (t.all fun e => e.1 == addressKey || e.1 == partitionKey)
  let tableAddress ← fieldOr (some <$> Toml.Value.word? ·) none (t.lookup addressKey)
  let entries ← fieldOr PartitionEntry.listOfValue? [] (t.lookup partitionKey)
  return ⟨tableAddress, entries⟩

/-- The manifest, if every present partition lies in the address space. -/
def check (m : PartitionManifest) : Except ConfigError PartitionManifest :=
  match m.entries.find? fun e => e.isPresent && e.region.stop?.isNone with
  | some e => .error (.regionOverflow e.name e.address e.size)
  | none => .ok m

/-- The manifest in a text that stands at `path`. -/
def parse (path text : String) : Except ConfigError PartitionManifest :=
  match Toml.parse? text.toList >>= ofTable? with
  | some m => m.check
  | none => .error (.manifest path)

/-- The manifest in a text. -/
def ofText (text : String) : Except ConfigError PartitionManifest :=
  parse BuildConfig.memoryPath text

/-- The layout of the partitions. -/
def layout (m : PartitionManifest) : PartitionLayout := ⟨m.entries, none⟩

end PartitionManifest

end BootSeal
