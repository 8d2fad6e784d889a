/-
  BootSeal — keys in DER.

  * SEC1 holds a P-256 scalar, and the point beside it if it is known;
  * PKCS#8 holds a private key of either algorithm under the identifier of that
    algorithm;
  * SPKI holds a public key of either algorithm in the same way.

  A public key that stands beside a private one must be its public half, except
  beside a whole P-256 key in PKCS#8, where it is not looked at.
-/
import BootSeal.Key.Basic

namespace BootSeal.KeyEncoding

open Der

/-! ## Identifiers -/

/-- Content of the identifier of keys on elliptic curves. -/
def ellipticIdentifier : Bytes := [0x2a, 0x86, 0x48, 0xce, 0x3d, 0x02, 0x01]

/-- Content of the identifier of P-256. -/
def p256Identifier : Bytes := [0x2a, 0x86, 0x48, 0xce, 0x3d, 0x03, 0x01, 0x07]

/-- Content of the identifier of Ed25519. -/
def ed25519Identifier : Bytes := [0x2b, 0x65, 0x70]

/-- An algorithm and its parameters, if it has any. -/
abbrev AlgorithmIdentifier := Bytes × Option (UInt8 × Bytes)

def p256Algorithm : AlgorithmIdentifier := (ellipticIdentifier, some (identifierTag, p256Identifier))

def ed25519Algorithm : AlgorithmIdentifier := (ed25519Identifier, none)

/-- An identifier, and any element as parameters. -/
def algorithmIdentifier : Reader AlgorithmIdentifier :=
  sequence do return (← objectIdentifier, ← optionalElement)

def encodeAlgorithm (a : AlgorithmIdentifier) : Bytes :=
  encodeSequence [encode identifierTag a.1, (a.2.map fun p => encode p.1 p.2).getD []]

/-! ## SEC1 -/

/-- A scalar of 24 to 32 bytes. -/
def scalarOf? (bytes : Bytes) : Option P256.NonzeroScalar :=
  if 24 ≤ bytes.length ∧ bytes.length ≤ P256.width then P256.NonzeroScalar.ofNat? bytes.toNatBE
  else none

/-- A point as it stands beside its scalar: not compressed, or compressed with
    the parity in its tag. -/
def isPointOf (scalar : P256.NonzeroScalar) (bytes : Bytes) : Bool :=
  bytes == scalar.point.encode || bytes == scalar.point.encodeCompressed

/-- A scalar with its version, any identifier of a curve, and its point. -/
def sec1Key : Reader P256.NonzeroScalar := sequence do
  if (← natural) ≠ 1 then failure
  let some scalar := scalarOf? (← octetString) | failure
  let _ ← explicitField 0 objectIdentifier
  match ← explicitField 1 bitString with
  | some point => if isPointOf scalar point then return scalar else failure
  | none => return scalar

/-- The scalar of a document. -/
def ofSec1? (bytes : Bytes) : Option P256.NonzeroScalar := whole? sec1Key bytes

/-- The scalar and its point. -/
def toSec1 (scalar : P256.NonzeroScalar) : Bytes :=
  encodeSequence [
    encodeNatural 1,
    encode octetStringTag scalar.toBytes,
    encode (contextTag true 1) (encodeBitString scalar.point.encode)]

/-! ## PKCS#8 -/

/-- A private key of any algorithm. -/
structure Pkcs8 where
  algorithm : AlgorithmIdentifier
  privateKey : Bytes
  publicKey : Option Bytes

/-- A version that is 1 if there is a public key and 0 if not, the algorithm, the
    key, and numbered fields. -/
def pkcs8 : Reader Pkcs8 := sequence do
  let version ← natural
  let algorithm ← algorithmIdentifier
  let privateKey ← octetString
  let publicKey ← bitStringField 1
  if version ≠ (if publicKey.isSome then 1 else 0) then failure
  fieldsToEnd (← get).length
  return ⟨algorithm, privateKey, publicKey⟩

/-- The scalar in a document. -/
def p256OfPkcs8? (bytes : Bytes) : Option P256.NonzeroScalar := do
  let d ← whole? pkcs8 bytes
  if d.algorithm = p256Algorithm then ofSec1? d.privateKey else none

/-- The seed in a document. -/
def ed25519OfPkcs8? (bytes : Bytes) : Option Ed25519.Seed := do
  let d ← whole? pkcs8 bytes
  if d.algorithm ≠ ed25519Algorithm then none
  let seed ← whole? octetString d.privateKey >>= Ed25519.Seed.ofBytes?
  match d.publicKey with
  | some key => if key = seed.publicKey.bytes then return seed else none
  | none => return seed

/-- The seed and the public key. -/
def ed25519ToPkcs8 (seed : Ed25519.Seed) : Bytes :=
  encodeSequence [
    encodeNatural 1,
    encodeAlgorithm ed25519Algorithm,
    encode octetStringTag (encode octetStringTag seed.bytes),
    encode (contextTag false 1) (0 :: seed.publicKey.bytes)]

/-! ## SPKI -/

/-- An algorithm and the bytes of a public key. -/
def spki : Reader (AlgorithmIdentifier × Bytes) :=
  sequence do return (← algorithmIdentifier, ← bitString)

/-- The point in a document. -/
def p256OfSpki? (bytes : Bytes) : Option P256.Point := do
  let (algorithm, key) ← whole? spki bytes
  if algorithm = p256Algorithm then P256.Point.decode? key else none

/-- The Ed25519 key in a document. -/
def ed25519OfSpki? (bytes : Bytes) : Option Ed25519.PublicKey := do
  let (algorithm, key) ← whole? spki bytes
  if algorithm = ed25519Algorithm then Ed25519.PublicKey.ofBytes? key else none

/-- A public key in a document. -/
def toSpki : PublicKey → Bytes
  | .ecdsaP256 point =>
    encodeSequence [encodeAlgorithm p256Algorithm, encodeBitString point.encode]
  | .ed25519 key => encodeSequence [encodeAlgorithm ed25519Algorithm, encodeBitString key.bytes]

end BootSeal.KeyEncoding
