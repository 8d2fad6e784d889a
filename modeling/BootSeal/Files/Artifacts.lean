/-
  BootSeal — images, keys and descriptions of partitions in files.

  * `Image.load`: an image, as Intel Hex or raw bytes by its extension;
  * `PrivateKey.load`, `PublicKey.load`, `BuildConfig.load`,
    `PartitionManifest.load`: what its file holds;
  * `FileTree.writeHex`, `FileTree.writeFlat`, `FileTree.writeKeys`: the other
    way round, all files of a call or none;
  * `FileTree.writeTable`: the partition table of a layout at its place, as Intel
    Hex.
-/
import BootSeal.Files.Persist
import BootSeal.IntelHex.Document
import BootSeal.Key.Pem
import BootSeal.Partition.Manifest
import BootSeal.Partition.TableCodec

namespace BootSeal

/-! ## Reading -/

/-- A fault of reading a file as an error. -/
def orIoError {α : Type} (path : String) : Except IoFault α → Except Error α
  | .ok a => .ok a
  | .error fault => .error (.io path fault)

/-- The image in a file: Intel Hex if the extension says so, else bytes from
    address zero on. -/
def Image.load (t : FileTree) (path : String) : Except Error Image :=
  if Path.isHex path then do
    let text ← orIoError path (t.readText path)
    (IntelHex.read text).mapError (·.toError path)
  else do
    let content ← orIoError path (t.readBytes path)
    (Image.ofBytes content 0).mapError (·.toError)

/-- The private key in a file, which must be of the algorithm asked for. -/
def PrivateKey.load (t : FileTree) (path : String) (algorithm : SignatureAlgorithm) :
    Except Error PrivateKey := do
  PrivateKey.ofPemFor algorithm (← orIoError path (t.readText path))

/-- The public key in a file, which must be of the algorithm asked for. -/
def PublicKey.load (t : FileTree) (path : String) (algorithm : SignatureAlgorithm) :
    Except Error PublicKey := do
  PublicKey.ofFile algorithm (← orIoError path (t.readBytes path))

/-- The text of a description of partitions. -/
def readDescription (t : FileTree) (path : String) : Except ConfigError String :=
  (t.readText path).mapError (.unreadable path ·)

/-- The build configuration in a file. -/
def BuildConfig.load (t : FileTree) (path : String) : Except ConfigError BuildConfig := do
  BuildConfig.parse path (← readDescription t path)

/-- The partition manifest in a file. -/
def PartitionManifest.load (t : FileTree) (path : String) :
    Except ConfigError PartitionManifest := do
  PartitionManifest.parse path (← readDescription t path)

/-! ## Writing -/

/-- The Intel Hex text of an image. -/
def Image.toHex (img : Image) : Except Error String :=
  (IntelHex.write img).mapError fun fault => .parse hexSource (.hexDocument fault)

/-- A text as the content of a file. -/
def textContent (text : String) : Bytes := text.toUTF8.toList

namespace FileTree

/-- Write an image as Intel Hex. -/
def writeHex (t : FileTree) (path : String) (img : Image) : FileTree × Except Error Unit :=
  match img.toHex with
  | .ok text => t.persist [⟨path, textContent text⟩]
  | .error e => (t, .error e)

/-- Write the flat bytes of an image. -/
def writeFlat (t : FileTree) (path : String) (img : Image) : FileTree × Except Error Unit :=
  t.persist [⟨path, img.flatten⟩]

/-- Write a private key, and its public half if a path is given for it. -/
def writeKeys (t : FileTree) (key : PrivateKey) (path : String) (publicPath : Option String)
    (format : PublicKeyFormat) : FileTree × Except Error Unit :=
  t.persist (⟨path, textContent key.toPem⟩ ::
    (publicPath.map fun path => ⟨path, key.publicKey.toFile format⟩).toList)

/-- Write the table of a layout at a place. -/
def writeTable (t : FileTree) (layout : PartitionLayout) (placement : TablePlacement)
    (path : String) : FileTree × Except Error PlacedTable :=
  match PlacedTable.ofLayout layout placement with
  | .error e => (t, .error e)
  | .ok placed =>
    match t.writeHex path placed.image with
    | (t, .ok ()) => (t, .ok placed)
    | (t, .error e) => (t, .error e)

end FileTree

end BootSeal
