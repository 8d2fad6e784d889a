/-
  BootSeal — signature algorithms: their names, the sizes of their keys and
  signatures, and what they sign.
-/
import BootSeal.Hash.Sha2

namespace BootSeal

/-- The algorithms that images are signed with. -/
inductive SignatureAlgorithm where
  /-- ECDSA over P-256, of a SHA-256 digest. -/
  | ecdsaP256
  /-- Ed25519, of the message itself. -/
  | ed25519
  deriving DecidableEq, Repr

namespace SignatureAlgorithm

/-- The name that messages and reports use. -/
def name : SignatureAlgorithm → String
  | ecdsaP256 => "ecdsa-p256-sha256"
  | ed25519 => "ed25519"

/-- The algorithm of a name in lower case with hyphens. -/
def ofName? : String → Option SignatureAlgorithm
  | "ecdsa" | "ecdsa-p256" | "ecdsa-p256-sha256" | "p256" => some ecdsaP256
  | "ed25519" | "ed25519-sha512" => some ed25519
  | _ => none

/-- Bytes in the public key of a validation block. -/
def publicKeySize : SignatureAlgorithm → Nat
  | ecdsaP256 => 64
  | ed25519 => 32

/-- Bytes in the signature of a validation block. -/
def signatureSize : SignatureAlgorithm → Nat
  | ecdsaP256 => 64
  | ed25519 => 64

/-- The hash algorithm whose digest is signed, if it is not the message itself. -/
def prehash? : SignatureAlgorithm → Option HashAlgorithm
  | ecdsaP256 => some .sha256
  | ed25519 => none

end SignatureAlgorithm

end BootSeal
