/-
  BootSeal — the fixed-width form of a signature stands for the same signature.

  * `EcdsaSignature.ofRaw?_toRaw`: the two parts are read back;
  * `PublicKey.verify_normalize`: a signature and its fixed-width form match the same
    messages, whatever form the signature came in;
  * `SignatureAlgorithm.Admits`: the byte strings that are signatures at all. The check and
    the normalization take the same ones, and give the same answer
    (`PublicKey.normal_form_keeps_answer`).
-/
import BootSeal.Proofs.Bytes
import BootSeal.Signature.Scheme

namespace BootSeal

/-! ## ECDSA -/

theorem P256.NonzeroScalar.toNatBE_toBytes (s : NonzeroScalar) : s.toBytes.toNatBE = s.val :=
  Bytes.toNatBE_ofNatBE (Nat.lt_trans s.lt (by decide))

@[simp] theorem P256.NonzeroScalar.length_toBytes (s : NonzeroScalar) : s.toBytes.length = width :=
  Bytes.length_ofNatBE ..

namespace EcdsaSignature

@[simp] theorem length_toRaw (sig : EcdsaSignature) : sig.toRaw.length = 2 * P256.width := by
  rw [toRaw, List.length_append, P256.NonzeroScalar.length_toBytes,
    P256.NonzeroScalar.length_toBytes, Nat.two_mul]

theorem ofRaw?_toRaw (sig : EcdsaSignature) : ofRaw? sig.toRaw = some sig := by
  have hr : sig.toRaw.take P256.width = sig.r.toBytes := List.take_left' sig.r.length_toBytes
  have hs : sig.toRaw.drop P256.width = sig.s.toBytes := List.drop_left' sig.r.length_toBytes
  rw [ofRaw?, if_pos sig.length_toRaw, hr, hs, P256.NonzeroScalar.toNatBE_toBytes,
    P256.NonzeroScalar.toNatBE_toBytes, ofNats?, P256.NonzeroScalar.ofNat?_val,
    P256.NonzeroScalar.ofNat?_val]
  rfl

end EcdsaSignature

/-! ## Either algorithm -/

/-- The signatures of both algorithms are of one size. -/
theorem SignatureAlgorithm.signatureSize_eq (algorithm : SignatureAlgorithm) :
    algorithm.signatureSize = 64 := by
  cases algorithm <;> rfl

/-- What normalization gives: the signature itself if it has the width, and otherwise
    the two parts of a DER signature. -/
theorem SignatureAlgorithm.normalize_eq_ok {algorithm : SignatureAlgorithm}
    {signature normal : Bytes} (h : algorithm.normalize signature = .ok normal) :
    signature.length = algorithm.signatureSize ∧ normal = signature ∨
      algorithm = .ecdsaP256 ∧ signature.length ≠ signatureSize .ecdsaP256 ∧
        ∃ sig, EcdsaSignature.ofDer? signature = some sig ∧ normal = sig.toRaw := by
  rw [normalize.eq_def] at h
  split at h
  · next hlen => cases h; exact Or.inl ⟨hlen, rfl⟩
  · next hlen =>
    cases algorithm with
    | ecdsaP256 =>
      refine Or.inr ⟨rfl, hlen, ?_⟩
      cases hsig : EcdsaSignature.ofDer? signature with
      | some sig => rw [hsig] at h; cases h; exact ⟨sig, rfl, rfl⟩
      | none => rw [hsig] at h; cases h
    | ed25519 => cases h

/-- What has the width is taken as it is. -/
theorem SignatureAlgorithm.normalize_of_length {algorithm : SignatureAlgorithm} {signature : Bytes}
    (h : signature.length = algorithm.signatureSize) :
    algorithm.normalize signature = .ok signature := by
  rw [normalize.eq_def, if_pos h]

theorem PublicKey.verify_of_length {signature : Bytes}
    (h : signature.length = SignatureAlgorithm.signatureSize .ecdsaP256) (point : P256.Point)
    (message : Bytes) : (PublicKey.ecdsaP256 point).verify message signature =
      .ok (((EcdsaSignature.ofRaw? signature).map (Ecdsa.verify point (sha256 message))).getD
        false) := by
  rw [verify, algorithm, SignatureAlgorithm.verify, if_pos h]

theorem SignatureAlgorithm.length_normalize {algorithm : SignatureAlgorithm}
    {signature normal : Bytes} (h : algorithm.normalize signature = .ok normal) :
    normal.length = algorithm.signatureSize := by
  rcases normalize_eq_ok h with ⟨hlen, rfl⟩ | ⟨rfl, -, sig, -, rfl⟩
  · exact hlen
  · exact sig.length_toRaw

/-- **A signature and its fixed-width form match the same messages.** -/
theorem PublicKey.verify_normalize {k : PublicKey} {signature normal : Bytes}
    (h : k.algorithm.normalize signature = .ok normal) (message : Bytes) :
    k.verify message normal = k.verify message signature := by
  rcases SignatureAlgorithm.normalize_eq_ok h with ⟨-, rfl⟩ | ⟨hk, hlen, sig, hsig, rfl⟩
  · rfl
  · cases k with
    | ed25519 => cases hk
    | ecdsaP256 point =>
      have hraw : sig.toRaw.length = SignatureAlgorithm.signatureSize .ecdsaP256 := sig.length_toRaw
      rw [verify, verify, algorithm, SignatureAlgorithm.verify, SignatureAlgorithm.verify,
        if_pos hraw, if_neg hlen, sig.ofRaw?_toRaw, hsig]
      simp only [Option.map_some, Option.getD_some]

/-! ## Byte strings that are signatures -/

namespace SignatureAlgorithm

/-- The byte string has a form that signatures come in: the fixed width, whatever its
    parts, or for ECDSA a sequence of two numbers in range. -/
def Admits (algorithm : SignatureAlgorithm) (signature : Bytes) : Prop :=
  signature.length = algorithm.signatureSize ∨
    algorithm = .ecdsaP256 ∧ ∃ sig, EcdsaSignature.ofDer? signature = some sig

variable {algorithm : SignatureAlgorithm} {signature : Bytes}

theorem Admits.normalize (h : algorithm.Admits signature) :
    ∃ normal, algorithm.normalize signature = .ok normal := by
  by_cases hlen : signature.length = algorithm.signatureSize
  · exact ⟨signature, normalize_of_length hlen⟩
  · obtain ⟨rfl, sig, hsig⟩ := h.resolve_left hlen
    rw [SignatureAlgorithm.normalize.eq_def, if_neg hlen]
    simp only [hsig]
    exact ⟨sig.toRaw, rfl⟩

theorem normalize_of_not_admits (h : ¬ algorithm.Admits signature) :
    ∃ cause, algorithm.normalize signature = .error (.malformedSignature cause) := by
  obtain ⟨hlen, hder⟩ := not_or.1 h
  rw [normalize.eq_def, if_neg hlen]
  cases algorithm with
  | ed25519 => exact ⟨_, rfl⟩
  | ecdsaP256 =>
    cases hsig : EcdsaSignature.ofDer? signature with
    | some sig => exact absurd ⟨rfl, sig, hsig⟩ hder
    | none => exact ⟨_, rfl⟩

end SignatureAlgorithm

namespace PublicKey

variable (k : PublicKey) (message : Bytes) {signature : Bytes}

theorem verify_of_admits (h : k.algorithm.Admits signature) :
    ∃ answer, k.verify message signature = .ok answer := by
  cases k with
  | ed25519 key =>
    have hlen : signature.length = SignatureAlgorithm.signatureSize .ed25519 :=
      h.resolve_right (by rintro ⟨⟨⟩, -⟩)
    rw [verify, algorithm, SignatureAlgorithm.verify, if_pos hlen]
    exact ⟨_, rfl⟩
  | ecdsaP256 point =>
    by_cases hlen : signature.length = SignatureAlgorithm.signatureSize .ecdsaP256
    · exact ⟨_, verify_of_length hlen point message⟩
    · obtain ⟨-, sig, hsig⟩ := h.resolve_left hlen
      rw [verify, algorithm, SignatureAlgorithm.verify, if_neg hlen, hsig]
      exact ⟨_, rfl⟩

theorem verify_of_not_admits (h : ¬ k.algorithm.Admits signature) :
    ∃ cause, k.verify message signature = .error (.malformedSignature cause) := by
  cases k with
  | ed25519 key =>
    rw [algorithm] at h
    obtain ⟨hlen, -⟩ := not_or.1 h
    rw [verify, algorithm, SignatureAlgorithm.verify, if_neg hlen]
    exact ⟨_, rfl⟩
  | ecdsaP256 point =>
    rw [algorithm] at h
    obtain ⟨hlen, hder⟩ := not_or.1 h
    rw [verify, algorithm, SignatureAlgorithm.verify, if_neg hlen]
    cases hsig : EcdsaSignature.ofDer? signature with
    | some sig => exact absurd ⟨rfl, sig, hsig⟩ hder
    | none => exact ⟨_, rfl⟩

/-- **Normalization never changes the answer of a check.** What is no signature at all is
    refused by both as malformed. Any other byte string has a normal form of 64 bytes,
    which is its own normal form, and the check answers the same for the two. -/
theorem normal_form_keeps_answer (signature : Bytes) :
    (¬ k.algorithm.Admits signature ∧
      (∃ cause, k.verify message signature = .error (.malformedSignature cause)) ∧
      ∃ cause, k.algorithm.normalize signature = .error (.malformedSignature cause)) ∨
    (k.algorithm.Admits signature ∧ ∃ normal answer,
      k.algorithm.normalize signature = .ok normal ∧ normal.length = 64 ∧
      k.verify message signature = .ok answer ∧ k.verify message normal = .ok answer ∧
      k.algorithm.normalize normal = .ok normal) := by
  by_cases h : k.algorithm.Admits signature
  · obtain ⟨normal, hnormal⟩ := h.normalize
    obtain ⟨answer, hanswer⟩ := k.verify_of_admits message h
    have hlen := SignatureAlgorithm.length_normalize hnormal
    have hsize : k.algorithm.signatureSize = 64 := by cases k <;> rfl
    refine Or.inr ⟨h, normal, answer, hnormal, hlen.trans hsize, hanswer, ?_, ?_⟩
    · rw [verify_normalize hnormal, hanswer]
    · exact SignatureAlgorithm.normalize_of_length hlen
  · exact Or.inl ⟨h, k.verify_of_not_admits message h, SignatureAlgorithm.normalize_of_not_admits h⟩

end PublicKey

end BootSeal
