/-
  BootSeal — ECDSA over P-256.

  * `P256.NonzeroScalar`: the scalars that keys, nonces and the two parts of a
    signature range over;
  * `EcdsaSignature.toRaw`, `EcdsaSignature.ofRaw?`: both parts in 32 bytes each;
  * `EcdsaSignature.toDer`, `EcdsaSignature.ofDer?`: both parts as a DER sequence;
  * `Ecdsa.sign`, `Ecdsa.verify`: signatures of a digest.
-/
import BootSeal.Curve.P256
import BootSeal.Encoding.Der
import BootSeal.Hash.HmacDrbg

namespace BootSeal

/-! ## Scalars -/

/-- A scalar other than zero. -/
structure P256.NonzeroScalar where
  val : Nat
  pos : 0 < val
  lt : val < P256.order
  deriving DecidableEq

namespace P256.NonzeroScalar

def ofNat? (n : Nat) : Option NonzeroScalar :=
  if h : 0 < n ∧ n < order then some ⟨n, h.1, h.2⟩ else none

/-- The scalar as a residue. -/
def residue (s : NonzeroScalar) : Scalar := ⟨s.val, s.lt⟩

/-- The scalar in 32 bytes, most significant first. -/
def toBytes (s : NonzeroScalar) : Bytes := Bytes.ofNatBE width s.val

theorem ofNat?_val (s : NonzeroScalar) : ofNat? s.val = some s := by
  simp [ofNat?, s.pos, s.lt]

end P256.NonzeroScalar

/-! ## Signatures -/

/-- A pair of nonzero scalars. -/
structure EcdsaSignature where
  r : P256.NonzeroScalar
  s : P256.NonzeroScalar
  deriving DecidableEq

namespace EcdsaSignature

def ofNats? (r s : Nat) : Option EcdsaSignature := do
  return ⟨← P256.NonzeroScalar.ofNat? r, ← P256.NonzeroScalar.ofNat? s⟩

/-- Both parts in 32 bytes each. -/
def toRaw (sig : EcdsaSignature) : Bytes := sig.r.toBytes ++ sig.s.toBytes

/-- The signature of 64 bytes, if both parts are in range. -/
def ofRaw? (bytes : Bytes) : Option EcdsaSignature :=
  if bytes.length = 2 * P256.width then
    ofNats? (Bytes.toNatBE (bytes.take P256.width)) (Bytes.toNatBE (bytes.drop P256.width))
  else none

/-- A sequence of both parts. -/
def toDer (sig : EcdsaSignature) : Bytes :=
  Der.encodeSequence [Der.encodeNatural sig.r.val, Der.encodeNatural sig.s.val]

/-- The signature of a sequence of two integers in range, with nothing after it. -/
def ofDer? (bytes : Bytes) : Option EcdsaSignature := do
  let (r, s) ← Der.whole? (Der.sequence do return (← Der.natural, ← Der.natural)) bytes
  ofNats? r s

end EcdsaSignature

/-! ## Algorithm -/

namespace Ecdsa

open P256

/-- The scalar of a digest. -/
def ofDigest (digest : Bytes) : Scalar := Fin.ofNat _ digest.toNatBE

/-- The first coordinate of a point, counted modulo the order. -/
def coordinateOf (p : Point) : Scalar := Fin.ofNat _ p.x.val

/-- The point that a signature stands for has the first coordinate that the
    signature tells. -/
def verify (key : Point) (digest : Bytes) (sig : EcdsaSignature) : Bool :=
  let w := Residue.inverse sig.s.residue
  let u := ofDigest digest * w
  let v := sig.r.residue * w
  let sum := Projective.add
    (Projective.scale u.val (.ofPoint generator)) (Projective.scale v.val (.ofPoint key))
  match sum.toPoint? with
  | some p => coordinateOf p == sig.r.residue
  | none => false

/-- Blocks that are tried for a nonce; one in `2 ^ 32` is out of range. -/
def nonceLimit : Nat := 64

/-- The nonce of a key, a digest and entropy. -/
def nonce? (key : NonzeroScalar) (digest entropy : Bytes) : Option NonzeroScalar :=
  let seed := key.toBytes ++ Bytes.ofNatBE width (ofDigest digest).val ++ entropy
  ((HmacDrbg.ofSeed seed).blocks nonceLimit).findSome? fun b => NonzeroScalar.ofNat? b.toNatBE

/-- The signature of a digest with a nonce. -/
def signWith? (key nonce : NonzeroScalar) (digest : Bytes) : Option EcdsaSignature := do
  let p ← (Projective.scale nonce.val (.ofPoint generator)).toPoint?
  let r := coordinateOf p
  let s := Residue.inverse nonce.residue * (ofDigest digest + r * key.residue)
  EcdsaSignature.ofNats? r.val s.val

/-- The signature of a digest. Entropy only varies the nonce. -/
def sign? (key : NonzeroScalar) (digest entropy : Bytes) : Option EcdsaSignature := do
  signWith? key (← nonce? key digest entropy) digest

end Ecdsa

end BootSeal
