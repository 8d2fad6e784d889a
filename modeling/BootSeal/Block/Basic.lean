/-
  BootSeal — validation blocks: a magic pattern, a public key and a signature,
  one after the other, for a boot loader to find and check.

  * `ValidationBlock.ofSignature` puts the parts together, in their fixed-width
    forms;
  * `ValidationBlock.toBytes`, `ValidationBlock.parse`: the block on flash. The
    algorithm is not part of it;
  * `ValidationBlock.find` looks for the block in a flat image;
  * `Image.embed` adds bytes at an address, by default the first aligned one after
    the content of the image (`Image.nextAligned`).
-/
import BootSeal.Block.Magic
import BootSeal.Image.Basic
import BootSeal.Signature.Scheme

namespace BootSeal

/-- A validation block. -/
structure ValidationBlock where
  magic : Magic
  publicKey : Bytes
  signature : Bytes
  deriving DecidableEq, Repr

namespace ValidationBlock

/-- Stands for the place of a block in messages. -/
def source : String := "<image>"

/-- The block of a key and a signature in any form its algorithm takes. -/
def ofSignature (magic : Magic) (key : PublicKey) (signature : Bytes) :
    Except Error ValidationBlock := do
  let signature ← key.algorithm.normalize signature
  return ⟨magic, key.toRaw, signature⟩

/-- Bytes in the block. -/
def encodedSize (b : ValidationBlock) : Nat :=
  Magic.size + b.publicKey.length + b.signature.length

/-- The block on flash. -/
def toBytes (b : ValidationBlock) : Bytes := b.magic.toBytes ++ b.publicKey ++ b.signature

/-- The block at the start of a byte string. -/
def parse (b : Bytes) (algorithm : SignatureAlgorithm) : Except Error ValidationBlock :=
  let rest := b.drop Magic.size
  let keySize := algorithm.publicKeySize
  let needed := keySize + algorithm.signatureSize
  if b.length < Magic.size then .error (.parse source .truncatedMagic)
  else if rest.length < needed then
    .error (.parse source (.truncatedBlock algorithm needed rest.length))
  else
    .ok ⟨Magic.ofBytes b, rest.take keySize, (rest.drop keySize).take algorithm.signatureSize⟩

/-- The key inside the block. -/
def key (b : ValidationBlock) (algorithm : SignatureAlgorithm) : Except Error PublicKey :=
  PublicKey.ofRaw algorithm b.publicKey

/-- The block after the first place of a magic pattern in a flat image, and that
    place. -/
def find (image : Bytes) (magic : Magic) (algorithm : SignatureAlgorithm) :
    Except Error (Option (Nat × ValidationBlock)) :=
  match magic.find? image with
  | none => .ok none
  | some position => do return some (position, ← parse (image.drop position) algorithm)

end ValidationBlock

/-! ## Inside images -/

/-- Blocks are aligned to words of this many bytes. -/
def wordSize : UInt32 := 4

namespace Image

/-- The first aligned address after the content, or zero if there is none. -/
def nextAligned (img : Image) : Except Error UInt32 :=
  match img.maxAddress with
  | .error .overflow => .error .arithmetic
  | .ok none => .ok 0
  | .ok (some last) =>
    match (Address.add? (last / wordSize) 1).bind (Address.mul? wordSize) with
    | some address => .ok address
    | none => .error (.configuration .noOffset)

/-- The image with bytes at an address, and that address; if none is given, it is
    the first aligned one after the content. -/
def embed (img : Image) (offset : Option UInt32) (bytes : Bytes) :
    Except Error (Image × UInt32) := do
  let offset ←
    match offset with
    | some offset => .ok offset
    | none => img.nextAligned
  match img.insert offset bytes with
  | .ok img => return (img, offset)
  | .error fault => throw fault.toError

end Image

end BootSeal
