/-
  BootSeal — DER signatures and those of fixed width.

  * `EcdsaSignature.ofDer?_toDer`: both parts are read back from a sequence;
  * `EcdsaSignature.length_toDer_eq_iff`: a sequence has the fixed width exactly if the
    shortest forms of its parts have 58 bytes;
  * `EcdsaSignature.der_interchangeable`: either form gives the same block and the same
    answer, unless the sequence has the fixed width itself; `WideSequence` is a signature
    that matches in the one form and not in the other.
-/
import BootSeal.Proofs.Encoding.Der
import BootSeal.Proofs.Signature.Scheme

namespace BootSeal

namespace EcdsaSignature

variable (sig : EcdsaSignature)

theorem length_naturalContent_val (k : P256.NonzeroScalar) :
    (Der.naturalContent k.val).length ≤ 33 :=
  Der.length_naturalContent_le (k := 32) (Nat.lt_trans k.lt (by decide))

theorem length_encodeNatural_val (k : P256.NonzeroScalar) :
    (Der.encodeNatural k.val).length = (Der.naturalContent k.val).length + 2 :=
  Der.length_encode (Nat.lt_of_le_of_lt (length_naturalContent_val k) (by decide))

theorem length_parts : [Der.encodeNatural sig.r.val, Der.encodeNatural sig.s.val].flatten.length =
    (Der.naturalContent sig.r.val).length + (Der.naturalContent sig.s.val).length + 4 := by
  rw [List.flatten_cons, List.flatten_cons, List.flatten_nil, List.append_nil, List.length_append,
    length_encodeNatural_val, length_encodeNatural_val]
  omega

theorem length_toDer : sig.toDer.length =
    (Der.naturalContent sig.r.val).length + (Der.naturalContent sig.s.val).length + 6 := by
  have hr := length_naturalContent_val sig.r
  have hs := length_naturalContent_val sig.s
  have hparts := sig.length_parts
  rw [toDer, Der.encodeSequence, Der.length_encode (by omega), hparts]

/-- **A sequence has the fixed width** exactly if its parts leave six bytes of it for the
    tags and lengths. -/
theorem length_toDer_eq_iff :
    sig.toDer.length = SignatureAlgorithm.signatureSize .ecdsaP256 ↔
      (Der.naturalContent sig.r.val).length + (Der.naturalContent sig.s.val).length = 58 := by
  rw [length_toDer]
  exact Nat.add_right_cancel_iff (n := 6)

/-- **Both parts are read back** from a sequence. -/
theorem ofDer?_toDer : ofDer? sig.toDer = some sig := by
  have hr := length_naturalContent_val sig.r
  have hs := length_naturalContent_val sig.s
  have hparts := sig.length_parts
  have hlimit : 74 < Der.lengthLimit := by decide
  have hread : (do return (← Der.natural, ← Der.natural) : Der.Reader (Nat × Nat))
      [Der.encodeNatural sig.r.val, Der.encodeNatural sig.s.val].flatten =
        some ((sig.r.val, sig.s.val), []) := by
    rw [List.flatten_cons, List.flatten_cons, List.flatten_nil,
      Der.bind_of_run (Der.natural_encodeNatural (by omega) _),
      Der.bind_of_run (Der.natural_encodeNatural (by omega) _)]
    rfl
  rw [ofDer?, toDer, Der.whole?_sequence hread (by omega)]
  show ofNats? sig.r.val sig.s.val = some sig
  rw [ofNats?, P256.NonzeroScalar.ofNat?_val, P256.NonzeroScalar.ofNat?_val]
  rfl

theorem verify_toRaw (point : P256.Point) (message : Bytes) :
    (PublicKey.ecdsaP256 point).verify message sig.toRaw =
      .ok (Ecdsa.verify point (sha256 message) sig) := by
  rw [PublicKey.verify_of_length sig.length_toRaw, sig.ofRaw?_toRaw]
  simp only [Option.map_some, Option.getD_some]

/-- **A DER signature stands for its fixed-width form**, in a block and in a check,
    unless it has that width itself: then it is taken for another signature, whose parts
    are its first and its last 32 bytes. -/
theorem der_interchangeable (point : P256.Point) (message : Bytes) :
    let algorithm := SignatureAlgorithm.ecdsaP256
    let key := PublicKey.ecdsaP256 point
    (sig.toDer.length ≠ algorithm.signatureSize →
      algorithm.normalize sig.toDer = .ok sig.toRaw ∧
        key.verify message sig.toDer = key.verify message sig.toRaw) ∧
    (sig.toDer.length = algorithm.signatureSize →
      algorithm.normalize sig.toDer = .ok sig.toDer ∧ key.verify message sig.toDer =
        .ok (((ofRaw? sig.toDer).map (Ecdsa.verify point (sha256 message))).getD false)) := by
  intro algorithm key
  refine ⟨fun hlen => ?_, fun hlen => ?_⟩
  · have hnormal : algorithm.normalize sig.toDer = .ok sig.toRaw := by
      rw [SignatureAlgorithm.normalize.eq_def, if_neg hlen]
      simp only [algorithm, ofDer?_toDer]
    exact ⟨hnormal, (PublicKey.verify_normalize (k := key) hnormal message).symm⟩
  · exact ⟨SignatureAlgorithm.normalize_of_length hlen,
      PublicKey.verify_of_length hlen point message⟩

end EcdsaSignature

/-! ## A sequence of fixed width -/

namespace WideSequence

/-- A signature with parts of 29 bytes each. -/
def signature : EcdsaSignature where
  r := ⟨0x100000000000000000000000000000000000000000000000000000003, by decide, by decide⟩
  s := ⟨0x100000000000000000000000000000000000000000000000000000000, by decide, by decide⟩

/-- The key under which it is the signature of the empty message. -/
def key : P256.Point where
  x := Fin.ofNat _ 0xab471edd2b8db84ebf0e6c1bab01f6f73916539b0b84de0fd43556f7147e89ff
  y := Fin.ofNat _ 0x9ab2dc8d25b010bc0a36cc82876a6c1942516cf084de0c8f8da787627bf3e972
  onCurve := by decide +kernel

theorem length_toDer_signature :
    signature.toDer.length = SignatureAlgorithm.signatureSize .ecdsaP256 :=
  signature.length_toDer_eq_iff.2 (by decide +kernel)

theorem verify_signature : Ecdsa.verify key (sha256 []) signature = true := by decide +kernel

theorem verify_reread : ((EcdsaSignature.ofRaw? signature.toDer).map
    (Ecdsa.verify key (sha256 []))).getD false = false := by decide +kernel

/-- The two forms of one signature differ: only the fixed-width form matches, and the
    sequence gets into a block as it is. -/
theorem forms_differ :
    SignatureAlgorithm.ecdsaP256.normalize signature.toDer ≠ .ok signature.toRaw ∧
      (PublicKey.ecdsaP256 key).verify [] signature.toRaw = .ok true ∧
      (PublicKey.ecdsaP256 key).verify [] signature.toDer = .ok false := by
  have hne : signature.toDer ≠ signature.toRaw := by decide +kernel
  refine ⟨?_, ?_, ?_⟩
  · rw [SignatureAlgorithm.normalize_of_length length_toDer_signature]
    exact fun h => hne (Except.ok.inj h)
  · rw [EcdsaSignature.verify_toRaw, verify_signature]
  · rw [PublicKey.verify_of_length length_toDer_signature, verify_reread]

/-- A sequence of eight bytes stands for its fixed-width form, and one of 64 does not. -/
theorem forms_by_width :
    let one : P256.NonzeroScalar := ⟨1, by decide, by decide⟩
    let short : EcdsaSignature := ⟨one, one⟩
    (short.toDer.length = 8 ∧
      SignatureAlgorithm.ecdsaP256.normalize short.toDer = .ok short.toRaw ∧
      (PublicKey.ecdsaP256 key).verify [] short.toDer =
        (PublicKey.ecdsaP256 key).verify [] short.toRaw) ∧
    signature.toDer.length = 64 ∧
      SignatureAlgorithm.ecdsaP256.normalize signature.toDer = .ok signature.toDer := by
  intro one short
  have hshort : short.toDer.length = 8 := by decide +kernel
  obtain ⟨hnormal, hverify⟩ := (short.der_interchangeable key []).1 (by rw [hshort]; decide)
  obtain ⟨hsame, -⟩ := (signature.der_interchangeable key []).2 length_toDer_signature
  exact ⟨⟨hshort, hnormal, hverify⟩, length_toDer_signature, hsame⟩

end WideSequence

end BootSeal
