/-
  BootSeal — all ways of signing an image agree, and what they sign verifies.

  * `SigningRoute`: the chain of states, the flat bytes as content, and the input that
    the algorithm takes, which the caller hashes;
  * `Carrier`: an image is written as a text or as flat bytes and loaded again;
    `Image.carriedAll` is a run of such steps, which keeps the flat bytes
    (`Image.Reachable.exists_carriedAll`);
  * `SigningRoute.record_eq`: every route gives the primitive's signature of the one
    input (`PrivateKey.record`), whatever else the image is;
  * `signing_routes_agree`: so do they after any run of carriers, and the signature
    matches the image under the public half, as far as the primitives match.
-/
import BootSeal.Block.Pipeline
import BootSeal.Proofs.Image.Flat
import BootSeal.Proofs.IntelHex.RoundTrip
import BootSeal.Proofs.Signature.Der

namespace BootSeal

/-! ## Sizes -/

theorem Sha2.length_digest {W : Type} [Inhabited W] [Add W] [XorOp W] [AndOp W] [Complement W]
    (s : Sha2 W) (message : Bytes) : (s.digest message).length = s.wordBytes * 8 := by
  rw [digest, Bytes.length_flatMap fun w => Bytes.length_ofNatBE .., Vector.length_toList]

theorem HashAlgorithm.length_digest (algorithm : HashAlgorithm) (message : Bytes) :
    (algorithm.digest message).length = algorithm.digestLength := by
  cases algorithm <;> exact Sha2.length_digest _ message

theorem Ed25519.length_sign (seed : Seed) (message : Bytes) :
    (sign seed message).length = SignatureAlgorithm.signatureSize .ed25519 := by
  rw [sign, List.length_append, Edwards25519.Point.compress, Bytes.length_ofNatLE,
    Bytes.length_ofNatLE]
  rfl

/-! ## What a key makes of content -/

namespace PrivateKey

/-- What a key signs of content: a digest, or the content itself. -/
def inputOf (key : PrivateKey) (content : Bytes) : Bytes :=
  match key with
  | ecdsaP256 _ => HashAlgorithm.sha256.digest content
  | ed25519 _ => content

/-- The signature that the primitive makes of an input, in fixed width. -/
def signature? (key : PrivateKey) (entropy input : Bytes) : Option Bytes :=
  match key with
  | ecdsaP256 scalar => (Ecdsa.sign? scalar input entropy).map (·.toRaw)
  | ed25519 seed => some (Ed25519.sign seed input)

/-- The signature of an input is one that the verifying primitive accepts for that input,
    under the public half of the key. -/
def Matches (key : PrivateKey) (entropy input : Bytes) : Prop :=
  match key with
  | ecdsaP256 scalar => ∀ s, Ecdsa.sign? scalar input entropy = some s →
      Ecdsa.verify scalar.point input s = true
  | ed25519 seed => Ed25519.verify seed.publicKey input (Ed25519.sign seed input) = true

/-- The record of content: the primitive's signature of the one input, with the digest if
    that is the input. -/
def record (key : PrivateKey) (entropy content : Bytes) : Except Error SignatureRecord :=
  match key.signature? entropy (key.inputOf content) with
  | some signature =>
    .ok ⟨key.algorithm, key.algorithm.prehash?.map (·.digest content), signature⟩
  | none => .error (.invalidKey .noSignature)

theorem signature?_ecdsaP256 {scalar : P256.NonzeroScalar} {entropy input : Bytes}
    {s : EcdsaSignature} (h : Ecdsa.sign? scalar input entropy = some s) :
    (ecdsaP256 scalar).signature? entropy input = some s.toRaw := by
  rw [signature?, h, Option.map_some]

variable (key : PrivateKey) (entropy : Bytes)

/-- Entropy only matters for ECDSA. -/
theorem record_congr {e : Bytes} (h : key.algorithm = .ecdsaP256 → e = entropy) (content : Bytes) :
    key.record e content = key.record entropy content := by
  cases key with
  | ecdsaP256 => rw [h rfl]
  | ed25519 => rfl

/-- No input of content is refused for its size. -/
theorem sign_inputOf (content : Bytes) :
    key.algorithm.sign key entropy (key.inputOf content) =
      (key.signature? entropy (key.inputOf content)).elim (.error (.invalidKey .noSignature))
        .ok := by
  cases key with
  | ed25519 => rfl
  | ecdsaP256 scalar =>
    have hlen : (inputOf (.ecdsaP256 scalar) content).length = HashAlgorithm.sha256.digestLength :=
      HashAlgorithm.sha256.length_digest content
    rw [algorithm, SignatureAlgorithm.sign, if_neg (not_not_intro hlen), signature?]
    cases Ecdsa.sign? scalar (inputOf (.ecdsaP256 scalar) content) entropy <;> rfl

/-- Signing the input of content gives the record of the content. -/
theorem ofInput_inputOf (content : Bytes) :
    SignatureRecord.ofInput key key.algorithm entropy (key.inputOf content) =
      key.record entropy content := by
  have hdigest : (key.algorithm.prehash?.map fun _ => key.inputOf content) =
      key.algorithm.prehash?.map (·.digest content) := by
    cases key <;> rfl
  rw [SignatureRecord.ofInput, if_neg (not_not_intro rfl), sign_inputOf, hdigest, record]
  cases key.signature? entropy (key.inputOf content) <;> rfl

/-- **What the primitives match, matches as content**: the check hashes it exactly once. -/
theorem verify_of_signature? {content signature : Bytes}
    (hm : key.Matches entropy (key.inputOf content))
    (hs : key.signature? entropy (key.inputOf content) = some signature) :
    key.publicKey.verify content signature = .ok true := by
  cases key with
  | ecdsaP256 scalar =>
    obtain ⟨sig, hsig, rfl⟩ := Option.map_eq_some_iff.1 hs
    have haccepted : Ecdsa.verify scalar.point (sha256 content) sig = true := hm sig hsig
    rw [publicKey, sig.verify_toRaw, haccepted]
  | ed25519 seed =>
    cases hs
    have haccepted : Ed25519.verify seed.publicKey content (Ed25519.sign seed content) = true := hm
    rw [publicKey, inputOf, PublicKey.verify, PublicKey.algorithm, SignatureAlgorithm.verify,
      if_pos (Ed25519.length_sign ..), haccepted]

end PrivateKey

/-! ## Routes -/

/-- The ways to sign an image. -/
inductive SigningRoute where
  /-- The chain of states, which flattens and hashes the image. -/
  | pipeline
  /-- The flat bytes as content, which is hashed on the way. -/
  | content
  /-- What the algorithm takes; the caller flattens and hashes. -/
  | input
  deriving DecidableEq, Repr

/-- The record that a route gives of an image. -/
def SigningRoute.record (key : PrivateKey) (entropy : Bytes) (img : Image) :
    SigningRoute → Except Error SignatureRecord
  | pipeline => (·.record) <$> (Unsigned.digest ⟨img, key.algorithm⟩).sign key entropy
  | content => SignatureRecord.ofContent key key.algorithm entropy img.flatten
  | input => SignatureRecord.ofInput key key.algorithm entropy (key.inputOf img.flatten)

theorem SignatureRecord.inputOf_algorithm (key : PrivateKey) (content : Bytes) :
    inputOf key.algorithm content = key.inputOf content := by
  cases key <;> rfl

/-- What the chain of states signs is the input of the flat bytes. -/
theorem Unsigned.input_digest (key : PrivateKey) (img : Image) :
    let digested := Unsigned.digest ⟨img, key.algorithm⟩
    digested.digest.getD digested.message = key.inputOf img.flatten := by
  cases key <;> rfl

/-- **Every route signs the one input of the image**, hashed once if it is hashed. -/
theorem SigningRoute.record_eq (key : PrivateKey) (entropy : Bytes) (img : Image)
    (route : SigningRoute) : route.record key entropy img = key.record entropy img.flatten := by
  rw [← key.ofInput_inputOf]
  cases route with
  | input => rfl
  | content =>
    rw [record, SignatureRecord.ofContent, SignatureRecord.inputOf_algorithm]
  | pipeline =>
    have halgorithm : (Unsigned.digest ⟨img, key.algorithm⟩).algorithm = key.algorithm := rfl
    rw [record, Digested.sign, Unsigned.input_digest, halgorithm]
    cases SignatureRecord.ofInput key key.algorithm entropy (key.inputOf img.flatten) <;> rfl

/-! ## Carriers -/

/-- The forms in which an image is written and loaded again. -/
inductive Carrier where
  /-- As an Intel Hex text. -/
  | hexText
  /-- As flat bytes, which are loaded at address zero. -/
  | flatBytes
  deriving DecidableEq, Repr

namespace Image

/-- The image that is loaded from what was written of another. -/
def carried (img : Image) : Carrier → Except Error Image
  | .hexText => do
    let text ← img.toHex
    (IntelHex.read text).mapError (·.toError hexSource)
  | .flatBytes => (Image.ofBytes img.flatten 0).mapError (·.toError)

/-- The image after it was carried any number of times. -/
def carriedAll (img : Image) : List Carrier → Except Error Image
  | [] => .ok img
  | carrier :: rest => do carriedAll (← img.carried carrier) rest

theorem exists_ofBytes {data : Bytes} (h : data.length ≤ addressSpace) :
    ∃ img, Image.ofBytes data 0 = .ok img := by
  by_cases hd : data = []
  · subst hd
    exact ⟨_, rfl⟩
  · have hfits : ¬ addressSpace < (0 : UInt32).toNat + data.length := by
      rw [UInt32.toNat_zero, Nat.zero_add]
      exact Nat.not_lt.2 h
    refine ⟨⟨[.ofBytes 0 data]⟩, ?_⟩
    rw [Image.ofBytes, insert_eq, if_neg (mt List.isEmpty_iff.1 hd), if_neg hfits]
    rfl

theorem reachable_of_ofBytes {data : Bytes} {a : UInt32} {img : Image}
    (h : Image.ofBytes data a = .ok img) : img.Reachable :=
  ⟨[.ofBytes data a], by rw [after, List.foldl_cons, apply, h]; rfl⟩

/-- A reachable image survives each carrier, with the same flat bytes. -/
theorem Reachable.exists_carried {img : Image} (h : img.Reachable) (carrier : Carrier) :
    ∃ loaded, img.carried carrier = .ok loaded ∧ loaded.Reachable ∧
      loaded.flatten = img.flatten := by
  cases carrier with
  | hexText =>
    obtain ⟨text, hw, hr⟩ := IntelHex.read_write h.canonical
    have hhex : img.toHex = .ok text := by rw [toHex, hw]; rfl
    refine ⟨img, bind_of_eq_ok hhex ?_, h, rfl⟩
    rw [hr]
    rfl
  | flatBytes =>
    obtain ⟨loaded, hl⟩ := exists_ofBytes h.canonical.length_flatten_le
    refine ⟨loaded, ?_, reachable_of_ofBytes hl, flatten_of_ofBytes hl⟩
    rw [carried, hl]
    rfl

/-- **No run of carriers fails or changes the flat bytes.** -/
theorem Reachable.exists_carriedAll {img : Image} (h : img.Reachable) (carriers : List Carrier) :
    ∃ loaded, img.carriedAll carriers = .ok loaded ∧ loaded.flatten = img.flatten := by
  induction carriers generalizing img with
  | nil => exact ⟨img, rfl, rfl⟩
  | cons carrier rest ih =>
    obtain ⟨next, hnext, hreach, hflat⟩ := h.exists_carried carrier
    obtain ⟨loaded, hloaded, hsame⟩ := ih hreach
    refine ⟨loaded, ?_, hsame.trans hflat⟩
    rw [carriedAll, hnext]
    exact hloaded

end Image

/-! ## Agreement -/

/-- **All signing routes agree and verify.** However often the image was written and
    loaded before, every route gives one and the same record, for ECDSA with the same
    entropy: the primitive's signature of the digest of the flat bytes, or of these
    themselves, which for Ed25519 is always there. As far as the primitives match on
    that input, the signature matches the image under the public half of the key. -/
theorem signing_routes_agree {img : Image} (h : img.Reachable) (key : PrivateKey)
    (entropy : Bytes) (carriers : List Carrier) :
    ∃ loaded, img.carriedAll carriers = .ok loaded ∧ loaded.flatten = img.flatten ∧
      (∀ (route : SigningRoute) (e : Bytes), (key.algorithm = .ecdsaP256 → e = entropy) →
        route.record key e loaded = key.record entropy img.flatten) ∧
      (∀ signature, key.signature? entropy (key.inputOf img.flatten) = some signature →
        key.record entropy img.flatten =
          .ok ⟨key.algorithm, key.algorithm.prehash?.map (·.digest img.flatten), signature⟩ ∧
        (key.Matches entropy (key.inputOf img.flatten) →
          key.publicKey.verify img.flatten signature = .ok true)) ∧
      (key.algorithm = .ed25519 → ∃ record, key.record entropy img.flatten = .ok record) := by
  obtain ⟨loaded, hloaded, hflat⟩ := h.exists_carriedAll carriers
  refine ⟨loaded, hloaded, hflat, fun route e he => ?_, fun signature hs => ⟨?_, fun hm => ?_⟩,
    fun ha => ?_⟩
  · rw [route.record_eq, hflat, key.record_congr entropy he]
  · rw [PrivateKey.record, hs]
  · exact key.verify_of_signature? entropy hm hs
  · cases key with
    | ecdsaP256 => cases ha
    | ed25519 => exact ⟨_, rfl⟩

/-! ## Two runs and a gap, signed with either algorithm -/

namespace TwoRuns

def image : Image := Image.empty.after [.insert 0x100 [1, 2], .insert 0x104 [3]]

def scalar : P256.NonzeroScalar := ⟨5, by decide, by decide⟩

def seed : Ed25519.Seed := ⟨List.replicate 32 9, rfl⟩

theorem verify_sign? : (Ecdsa.sign? scalar (HashAlgorithm.sha256.digest image.flatten) [1]).map
    (Ecdsa.verify scalar.point (HashAlgorithm.sha256.digest image.flatten)) = some true := by
  decide +kernel

theorem matches_scalar :
    (PrivateKey.ecdsaP256 scalar).Matches [1] (HashAlgorithm.sha256.digest image.flatten) := by
  intro s hs
  have hv := verify_sign?
  rwa [hs, Option.map_some, Option.some_inj] at hv

theorem matches_seed : (PrivateKey.ed25519 seed).Matches [1] image.flatten := by
  show Ed25519.verify seed.publicKey image.flatten (Ed25519.sign seed image.flatten) = true
  decide +kernel

/-- Carried as a text and then as flat bytes, signed by every route, and verified. -/
theorem agree_and_verify :
    image.Reachable ∧ ∀ key ∈ [PrivateKey.ecdsaP256 scalar, .ed25519 seed],
      key.Matches [1] (key.inputOf image.flatten) ∧
      ∃ loaded record, image.carriedAll [.hexText, .flatBytes] = .ok loaded ∧
        (∀ route : SigningRoute, route.record key [1] loaded = .ok record) ∧
        key.publicKey.verify image.flatten record.signature = .ok true := by
  have h : image.Reachable := ⟨_, rfl⟩
  refine ⟨h, fun key hkey => ?_⟩
  have hkey : key = .ecdsaP256 scalar ∨ key = .ed25519 seed := by simpa using hkey
  have hmatches : key.Matches [1] (key.inputOf image.flatten) := by
    rcases hkey with rfl | rfl
    · exact matches_scalar
    · exact matches_seed
  have hsome : ∃ s, key.signature? [1] (key.inputOf image.flatten) = some s := by
    rcases hkey with rfl | rfl
    · obtain ⟨s, hs, -⟩ := Option.map_eq_some_iff.1 verify_sign?
      exact ⟨s.toRaw, PrivateKey.signature?_ecdsaP256 hs⟩
    · exact ⟨_, rfl⟩
  obtain ⟨signature, hs⟩ := hsome
  obtain ⟨loaded, hloaded, -, hroutes, hrecord, -⟩ :=
    signing_routes_agree h key [1] [.hexText, .flatBytes]
  obtain ⟨hok, hverify⟩ := hrecord signature hs
  exact ⟨hmatches, loaded, _, hloaded, fun route => (hroutes route [1] fun _ => rfl).trans hok,
    hverify hmatches⟩

end TwoRuns

end BootSeal
