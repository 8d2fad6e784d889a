/-
  BootSeal — sealed images in files: `FileTree.writeSealed` puts a validation
  block into an image and writes the result as Intel Hex, as flat bytes, or both.
-/
import BootSeal.Block.Basic
import BootSeal.Files.Artifacts

namespace BootSeal

/-- An image that is to get a block, and the files that are to hold the result. -/
structure SealRequest where
  image : Image
  publicKey : PublicKey
  signature : Bytes
  magic : Magic
  offset : Option UInt32
  hexPath : Option String
  flatPath : Option String
  /-- Check the signature before anything is written. -/
  verify : Bool
  deriving DecidableEq

/-- An image with a block in it. -/
structure SealedImage where
  image : Image
  offset : UInt32
  block : ValidationBlock
  deriving DecidableEq, Repr

namespace SealRequest

/-- Stands for the path of an output that was not asked for. -/
def outputPath : String := "<output>"

/-- The image with its block. -/
def run (r : SealRequest) : Except Error SealedImage := do
  if r.hexPath.isNone && r.flatPath.isNone then throw (.io outputPath .noOutput)
  if r.verify then
    if !(← r.publicKey.verify r.image.flatten r.signature) then throw .verificationFailure
  let block ← ValidationBlock.ofSignature r.magic r.publicKey r.signature
  let (image, offset) ← r.image.embed r.offset block.toBytes
  return ⟨image, offset, block⟩

/-- The files of an image with its block. -/
def outputs (r : SealRequest) (image : Image) : Except Error (List Output) := do
  let hex ← r.hexPath.mapM fun path => return (⟨path, textContent (← image.toHex)⟩ : Output)
  let flat := r.flatPath.map fun path => (⟨path, image.flatten⟩ : Output)
  return hex.toList ++ flat.toList

end SealRequest

/-- Write the image of a request with its block. -/
def FileTree.writeSealed (t : FileTree) (r : SealRequest) : FileTree × Except Error SealedImage :=
  match (do let s ← r.run; return (s, ← r.outputs s.image) : Except Error _) with
  | .error e => (t, .error e)
  | .ok (s, outputs) =>
    match t.persist outputs with
    | (t, .ok ()) => (t, .ok s)
    | (t, .error e) => (t, .error e)

end BootSeal
