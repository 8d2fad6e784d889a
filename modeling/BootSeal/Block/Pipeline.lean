/-
  BootSeal — the signing of an image as a chain of states, so that a block cannot
  be embedded before there is a signature.

  `Unsigned` → `Digested` → `Signed` → (`Verified`) → `Embedded`

  Each step takes the state before it and gives the next one or an error.
-/
import BootSeal.Block.Basic
import BootSeal.Signature.Scheme

namespace BootSeal

/-! ## States -/

/-- An image, and the algorithm it is to be signed with. -/
structure Unsigned where
  image : Image
  algorithm : SignatureAlgorithm
  deriving DecidableEq, Repr

/-- The image is flat, and hashed if the algorithm takes a digest. -/
structure Digested where
  image : Image
  algorithm : SignatureAlgorithm
  message : Bytes
  digest : Option Bytes
  deriving DecidableEq, Repr

/-- There is a signature. -/
structure Signed where
  image : Image
  message : Bytes
  record : SignatureRecord
  deriving DecidableEq, Repr

/-- The signature matches under a key. -/
structure Verified where
  signed : Signed
  publicKey : PublicKey
  deriving DecidableEq

/-- A block with the signature is in the image. -/
structure Embedded where
  image : Image
  offset : UInt32
  block : ValidationBlock
  record : SignatureRecord
  deriving DecidableEq, Repr

/-! ## Steps -/

/-- Flatten the image and hash it. -/
def Unsigned.digest (u : Unsigned) : Digested :=
  let message := u.image.flatten
  ⟨u.image, u.algorithm, message, u.algorithm.prehash?.map (·.digest message)⟩

/-- Sign the digest, or the message if there is none. -/
def Digested.sign (d : Digested) (key : PrivateKey) (entropy : Bytes) : Except Error Signed := do
  let record ← SignatureRecord.ofInput key d.algorithm entropy (d.digest.getD d.message)
  return ⟨d.image, d.message, record⟩

/-- Check the signature under a key. -/
def Signed.verify (s : Signed) (key : PublicKey) : Except Error Verified := do
  if ← key.verify s.message s.record.signature then return ⟨s, key⟩
  else throw .verificationFailure

/-- Embed a block without a check of the signature under its key. -/
def Signed.embed (s : Signed) (key : PublicKey) (magic : Magic) (offset : Option UInt32) :
    Except Error Embedded := do
  let block ← ValidationBlock.ofSignature magic key s.record.signature
  let (image, offset) ← s.image.embed offset block.toBytes
  return ⟨image, offset, block, s.record⟩

/-- Embed a block for the key that the signature was checked under. -/
def Verified.embed (v : Verified) (magic : Magic) (offset : Option UInt32) :
    Except Error Embedded :=
  v.signed.embed v.publicKey magic offset

end BootSeal
