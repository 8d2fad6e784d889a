/-
  BootSeal — Ed25519: signatures of whole messages over edwards25519.

  * `Ed25519.Seed`, `Ed25519.PublicKey`: the two halves of a key;
  * `Ed25519.sign`, `Ed25519.verify`: signatures of 64 bytes. Verification does
    not clear the cofactor: it recomputes the commitment and compares bytes.
-/
import BootSeal.Curve.Edwards25519
import BootSeal.Hash.Sha2

namespace BootSeal.Ed25519

open Edwards25519

/-! ## Keys -/

/-- Bytes in a seed, and in a public key. -/
def keySize : Nat := 32

/-- A private key. -/
structure Seed where
  bytes : Bytes
  length_eq : bytes.length = keySize
  deriving DecidableEq

/-- A public key: a compressed point, as it was given. -/
structure PublicKey where
  bytes : Bytes
  isPoint : (Point.decompress? bytes).isSome
  deriving DecidableEq

namespace Seed

def ofBytes? (bytes : Bytes) : Option Seed :=
  if h : bytes.length = keySize then some ⟨bytes, h⟩ else none

/-- The hash of a seed, in two halves: the scalar, and what nonces come from. -/
def expand (s : Seed) : Bytes × Bytes :=
  let hash := sha512 s.bytes
  (hash.take keySize, hash.drop keySize)

/-- The secret scalar: a multiple of 8 between `2 ^ 254` and `2 ^ 255`. -/
def scalar (s : Seed) : Nat :=
  let n := s.expand.1.toNatLE
  let least := 1 <<< 254
  n % least - n % 8 + least

end Seed

namespace PublicKey

def ofBytes? (bytes : Bytes) : Option PublicKey :=
  if h : (Point.decompress? bytes).isSome then some ⟨bytes, h⟩ else none

/-- The point of the key. -/
def point (k : PublicKey) : Point := (Point.decompress? k.bytes).get k.isPoint

/-- The key of the base point. -/
def base : PublicKey := ⟨0x58 :: List.replicate 31 0x66, by decide +kernel⟩

end PublicKey

/-- The public half of a key. What compression gives decompresses, so that the
    base point never stands in. -/
def Seed.publicKey (s : Seed) : PublicKey :=
  (PublicKey.ofBytes? (Point.base.scale s.scalar).compress).getD PublicKey.base

/-! ## Signatures -/

/-- The scalar of a hash. -/
def scalarOf (parts : List Bytes) : Fin order := Fin.ofNat _ (sha512 parts.flatten).toNatLE

/-- The signature of a message: a commitment, and the response to the challenge
    that commitment, key and message make. -/
def sign (seed : Seed) (message : Bytes) : Bytes :=
  let nonce := scalarOf [seed.expand.2, message]
  let commitment := (Point.base.scale nonce.val).compress
  let challenge := scalarOf [commitment, seed.publicKey.bytes, message]
  let response := nonce + challenge * Fin.ofNat _ seed.scalar
  commitment ++ Bytes.ofNatLE keySize response.val

/-- The response is below the order, and it answers the challenge. -/
def verify (key : PublicKey) (message signature : Bytes) : Bool :=
  let commitment := signature.take keySize
  let response := Bytes.toNatLE (signature.drop keySize)
  let challenge := scalarOf [commitment, key.bytes, message]
  response < order &&
    ((Point.base.scale response).add (key.point.neg.scale challenge.val)).compress == commitment

end BootSeal.Ed25519
