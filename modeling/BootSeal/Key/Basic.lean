/-
  BootSeal — private and public keys of either algorithm.

  * `PrivateKey.publicKey`: the public half;
  * `PublicKey.toRaw`, `PublicKey.ofRaw`: the encoding inside a validation block,
    both coordinates for P-256 and the compressed point for Ed25519;
  * `PublicKeyFormat`: the two forms that public keys are written in.
-/
import BootSeal.Error
import BootSeal.Signature.Ecdsa
import BootSeal.Signature.Ed25519

namespace BootSeal

/-! ## Keys -/

inductive PrivateKey where
  | ecdsaP256 (scalar : P256.NonzeroScalar)
  | ed25519 (seed : Ed25519.Seed)
  deriving DecidableEq

inductive PublicKey where
  | ecdsaP256 (point : P256.Point)
  | ed25519 (key : Ed25519.PublicKey)
  deriving DecidableEq

/-- The point of a scalar. No scalar below the order gives the neutral element,
    so that the generator never stands in. -/
def P256.NonzeroScalar.point (s : P256.NonzeroScalar) : P256.Point :=
  (P256.Projective.scale s.val (.ofPoint P256.generator)).toPoint?.getD P256.generator

namespace PrivateKey

def algorithm : PrivateKey → SignatureAlgorithm
  | ecdsaP256 _ => .ecdsaP256
  | ed25519 _ => .ed25519

/-- The public half. -/
def publicKey : PrivateKey → PublicKey
  | ecdsaP256 scalar => .ecdsaP256 scalar.point
  | ed25519 seed => .ed25519 seed.publicKey

/-- What a report may show of a private key. -/
def redacted (k : PrivateKey) : String := "PrivateKey(" ++ k.algorithm.name ++ ", [REDACTED])"

end PrivateKey

namespace PublicKey

def algorithm : PublicKey → SignatureAlgorithm
  | ecdsaP256 _ => .ecdsaP256
  | ed25519 _ => .ed25519

/-- The encoding inside a validation block. -/
def toRaw : PublicKey → Bytes
  | ecdsaP256 point => point.coordinates
  | ed25519 key => key.bytes

/-- The key of an encoding inside a validation block. -/
def ofRaw (algorithm : SignatureAlgorithm) (bytes : Bytes) : Except Error PublicKey :=
  if bytes.length ≠ algorithm.publicKeySize then
    .error (.invalidKey (.publicSize algorithm bytes.length))
  else match algorithm with
    | .ecdsaP256 =>
      match P256.Point.ofCoordinateBytes? bytes with
      | some point => .ok (.ecdsaP256 point)
      | none => .error (.invalidKey .notOnCurve)
    | .ed25519 =>
      match Ed25519.PublicKey.ofBytes? bytes with
      | some key => .ok (.ed25519 key)
      | none => .error (.invalidKey .noEdwardsPoint)

end PublicKey

/-- A key that is there must be of the algorithm that is asked for. -/
def requireAlgorithm (expected found : SignatureAlgorithm) : Except Error Unit :=
  if found = expected then .ok () else .error (.invalidKey (.wrongAlgorithm expected found))

/-! ## Formats -/

/-- The forms that public keys are written in. -/
inductive PublicKeyFormat where
  | pem
  | raw
  deriving DecidableEq, Repr

/-- The format of a name, in any case of its letters. -/
def PublicKeyFormat.ofText (text : String) : Except Error PublicKeyFormat :=
  match text.map Char.toLower with
  | "pem" => .ok .pem
  | "raw" | "bin" => .ok .raw
  | other => .error (.configuration (.unknownPublicFormat other))

end BootSeal
