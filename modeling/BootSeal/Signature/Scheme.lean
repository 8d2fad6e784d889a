/-
  BootSeal — what each signature algorithm does with keys, messages and
  signatures.

  * `SignatureAlgorithm.sign`: the fixed-width signature of a digest or a message,
    whichever the algorithm takes;
  * `SignatureAlgorithm.verify`, `PublicKey.verify`: whether a signature matches a
    message; an error if it is no signature at all;
  * `SignatureAlgorithm.normalize`: the fixed-width form of a signature;
  * `SignatureRecord`: a signature together with what was signed, some content that
    is hashed first if the algorithm takes a digest (`SignatureRecord.ofContent`), or
    what the algorithm takes as it is (`SignatureRecord.ofInput`).
-/
import BootSeal.Key.Basic

namespace BootSeal

namespace SignatureAlgorithm

/-- The signature of a digest for ECDSA, and of a message for Ed25519. Entropy
    only matters for ECDSA. -/
def sign (algorithm : SignatureAlgorithm) (key : PrivateKey) (entropy input : Bytes) :
    Except Error Bytes :=
  match algorithm, key with
  | .ecdsaP256, .ecdsaP256 scalar =>
    if input.length ≠ HashAlgorithm.sha256.digestLength then
      .error (.invalidKey (.digestSize input.length))
    else match Ecdsa.sign? scalar input entropy with
      | some signature => .ok signature.toRaw
      | none => .error (.invalidKey .noSignature)
  | .ed25519, .ed25519 seed => .ok (Ed25519.sign seed input)
  | _, _ => .error (.invalidKey (.unusable key.algorithm algorithm))

/-- A signature decodes and matches the message. One of fixed width with parts
    out of range decodes and does not match; ECDSA also takes DER. -/
def verify (algorithm : SignatureAlgorithm) (key : PublicKey) (message signature : Bytes) :
    Except Error Bool :=
  match algorithm, key with
  | .ecdsaP256, .ecdsaP256 point =>
    let check (s : EcdsaSignature) := Ecdsa.verify point (sha256 message) s
    if signature.length = SignatureAlgorithm.ecdsaP256.signatureSize then
      .ok (((EcdsaSignature.ofRaw? signature).map check).getD false)
    else match EcdsaSignature.ofDer? signature with
      | some s => .ok (check s)
      | none => .error (.malformedSignature .notDer)
  | .ed25519, .ed25519 key =>
    if signature.length = SignatureAlgorithm.ed25519.signatureSize then
      .ok (Ed25519.verify key message signature)
    else .error (.malformedSignature (.checkedSize signature.length))
  | _, _ => .error (.invalidKey (.unusable key.algorithm algorithm))

/-- The fixed-width form of a signature. What has that width already is taken as
    it is; ECDSA also takes DER. -/
def normalize (algorithm : SignatureAlgorithm) (signature : Bytes) : Except Error Bytes :=
  if signature.length = algorithm.signatureSize then .ok signature
  else match algorithm with
    | .ecdsaP256 =>
      match EcdsaSignature.ofDer? signature with
      | some s => .ok s.toRaw
      | none => .error (.malformedSignature .notDer)
    | .ed25519 => .error (.malformedSignature (.fixedSize algorithm signature.length))

end SignatureAlgorithm

/-- A signature matches a message under a key, by the algorithm of the key. -/
def PublicKey.verify (k : PublicKey) (message signature : Bytes) : Except Error Bool :=
  k.algorithm.verify k message signature

/-! ## Records -/

/-- A signature, and the digest that was signed if the algorithm takes one. -/
structure SignatureRecord where
  algorithm : SignatureAlgorithm
  digest : Option Bytes
  signature : Bytes
  deriving DecidableEq, Repr

namespace SignatureRecord

/-- What the algorithm signs of some content: its digest or the content itself. -/
def inputOf (algorithm : SignatureAlgorithm) (content : Bytes) : Bytes :=
  match algorithm.prehash? with
  | some hash => hash.digest content
  | none => content

/-- The record of a digest or a message, whichever the algorithm takes. -/
def ofInput (key : PrivateKey) (algorithm : SignatureAlgorithm) (entropy input : Bytes) :
    Except Error SignatureRecord := do
  if key.algorithm ≠ algorithm then
    throw (.invalidKey (.cannotProduce key.algorithm algorithm))
  let signature ← algorithm.sign key entropy input
  return ⟨algorithm, algorithm.prehash?.map fun _ => input, signature⟩

/-- The record of some content. -/
def ofContent (key : PrivateKey) (algorithm : SignatureAlgorithm) (entropy content : Bytes) :
    Except Error SignatureRecord :=
  ofInput key algorithm entropy (inputOf algorithm content)

end SignatureRecord

end BootSeal
