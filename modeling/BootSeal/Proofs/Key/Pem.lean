/-
  BootSeal — a private key is read back from its text.

  * `KeyEncoding.ofSec1?_toSec1`: a scalar, whose point stands beside it;
  * `KeyEncoding.pkcs8_ed25519ToPkcs8`: the parts of the document of a seed; and
    `KeyEncoding.p256OfPkcs8?_eq_none`: a scalar is not read from it;
  * `PrivateKey.ofPem_toPem`: keys of either algorithm; and `PrivateKey.ofPem_publicKey`:
    no public key is taken for one.
-/
import BootSeal.Key.Pem
import BootSeal.Proofs.Encoding.Der
import BootSeal.Proofs.Encoding.Pem
import BootSeal.Proofs.Key.Raw

namespace BootSeal

namespace KeyEncoding

open Der

/-! ## SEC1 -/

/-- The parts of a document are read one after the other. The point is only compared, so
    that it stays as it is. -/
theorem sec1Key_encode {scalar : P256.NonzeroScalar} {secret point : Bytes}
    (hsecret : scalarOf? secret = some scalar) (hs : secret.length = 32)
    (hpoint : isPointOf scalar point = true) (hp : point.length = 65) :
    whole? sec1Key (encodeSequence [encodeNatural 1, encode octetStringTag secret,
      encode (contextTag true 1) (encodeBitString point)]) = some scalar := by
  have hlimit : 0x80 < lengthLimit := by decide
  have hone : (encodeNatural 1).length = 3 := by decide
  have hbits : (encodeBitString point).length = 68 := by
    rw [encodeBitString, length_encode (by simp [hp]), List.length_cons, hp]
  have hcontent : bitString (encodeBitString point ++ []) = some (point, []) :=
    bitString_encodeBitString (by omega) []
  rw [List.append_nil] at hcontent
  refine whole?_sequence ?_ ?_
  · simp only [List.flatten_cons, List.flatten_nil]
    rw [bind_of_run (natural_encodeNatural (by decide) _), if_neg (by decide),
      bind_of_run (octetString_encode (by omega) _), hsecret]
    dsimp only
    rw [bind_of_run (explicitField_of_lt (by decide) (by decide) _ _ _),
      bind_of_run (explicitField_encode (by decide) (by decide) (by decide) hcontent
        (by omega) _)]
    dsimp only
    rw [if_pos hpoint]
    rfl
  · simp only [List.flatten_cons, List.flatten_nil, List.length_append, List.length_nil, hone]
    rw [length_encode (by omega), length_encode (by omega)]
    omega

/-- **A scalar is read back** from its document. -/
theorem ofSec1?_toSec1 (scalar : P256.NonzeroScalar) : ofSec1? (toSec1 scalar) = some scalar := by
  have hlength : scalar.toBytes.length = 32 := Bytes.length_ofNatBE ..
  have hval : scalar.toBytes.toNatBE = scalar.val :=
    Bytes.toNatBE_ofNatBE (Nat.lt_trans scalar.lt (by decide))
  refine sec1Key_encode ?_ hlength (by simp [isPointOf]) ?_
  · rw [scalarOf?, if_pos (by rw [hlength]; decide), hval, scalar.ofNat?_val]
  · rw [P256.Point.encode, List.length_cons, P256.Point.length_coordinates]
    rfl

/-! ## PKCS#8 -/

theorem algorithmIdentifier_ed25519 (rest : Bytes) :
    algorithmIdentifier (encodeAlgorithm ed25519Algorithm ++ rest) =
      some (ed25519Algorithm, rest) := by
  refine sequence_encodeSequence ?_ (by decide) rest
  simp only [ed25519Algorithm, List.flatten_cons, List.flatten_nil]
  rw [bind_of_run (objectIdentifier_encode (by decide) _)]
  rfl

/-- The parts of a document of a seed. -/
theorem pkcs8_encode {secret key : Bytes} (hs : secret.length = 32) (hk : key.length = 32) :
    whole? pkcs8 (encodeSequence [encodeNatural 1, encodeAlgorithm ed25519Algorithm,
      encode octetStringTag (encode octetStringTag secret),
      encode (contextTag false 1) (0 :: key)]) =
    some ⟨ed25519Algorithm, encode octetStringTag secret, some key⟩ := by
  have hlimit : 0x80 < lengthLimit := by decide
  have hone : (encodeNatural 1).length = 3 := by decide
  have halgorithm : (encodeAlgorithm ed25519Algorithm).length = 7 := by decide
  have hsecret : (encode octetStringTag secret).length = 34 := by rw [length_encode] <;> omega
  have hfield : (encode (contextTag false 1) (0 :: key)).length = 35 := by
    rw [length_encode (by simp [hk]), List.length_cons, hk]
  refine whole?_sequence ?_ ?_
  · simp only [List.flatten_cons, List.flatten_nil]
    rw [bind_of_run (natural_encodeNatural (by decide) _),
      bind_of_run (algorithmIdentifier_ed25519 _),
      bind_of_run (octetString_encode (by omega) _),
      bind_of_run (bitStringField_encode (by decide) (by decide) (by decide) (by omega) _),
      if_neg (by simp)]
    rfl
  · simp only [List.flatten_cons, List.flatten_nil, List.length_append, List.length_nil, hone,
      halgorithm, hfield]
    rw [length_encode (by omega)]
    omega

/-- **No document holds keys of both algorithms.** -/
theorem p256OfPkcs8?_eq_none {document : Bytes} {seed : Ed25519.Seed}
    (h : ed25519OfPkcs8? document = some seed) : p256OfPkcs8? document = none := by
  simp only [ed25519OfPkcs8?, Option.bind_eq_bind, Option.bind_eq_some_iff] at h
  obtain ⟨d, hd, h⟩ := h
  have halgorithm : d.algorithm = ed25519Algorithm := by
    by_contra hne
    rw [if_pos hne] at h
    cases h
  have hother : d.algorithm ≠ p256Algorithm := by
    rw [halgorithm]
    decide
  rw [p256OfPkcs8?, hd, Option.bind_eq_bind, Option.bind_some, if_neg hother]

section
variable (seed : Ed25519.Seed)

theorem pkcs8_ed25519ToPkcs8 : whole? pkcs8 (ed25519ToPkcs8 seed) =
    some ⟨ed25519Algorithm, encode octetStringTag seed.bytes, some seed.publicKey.bytes⟩ :=
  pkcs8_encode seed.length_eq seed.publicKey.length_bytes

/-- **A seed is read back** from its document. -/
theorem ed25519OfPkcs8?_ed25519ToPkcs8 : ed25519OfPkcs8? (ed25519ToPkcs8 seed) = some seed := by
  have hlength : seed.bytes.length < lengthLimit := by rw [seed.length_eq]; decide
  have hoctets : whole? octetString (encode octetStringTag seed.bytes) = some seed.bytes :=
    whole?_of_run (List.append_nil (encode octetStringTag seed.bytes) ▸
      octetString_encode hlength [])
  have hseed : Ed25519.Seed.ofBytes? seed.bytes = some seed := dif_pos seed.length_eq
  rw [ed25519OfPkcs8?, pkcs8_ed25519ToPkcs8]
  simp only [Option.bind_eq_bind, Option.bind_some]
  rw [if_neg (not_not_intro rfl), hoctets, Option.bind_some, hseed, Option.bind_some]
  -- The public key is not evaluated.
  generalize seed.publicKey.bytes = key
  rw [if_pos rfl, Option.pure_def]

theorem p256OfPkcs8?_ed25519ToPkcs8 : p256OfPkcs8? (ed25519ToPkcs8 seed) = none :=
  p256OfPkcs8?_eq_none (ed25519OfPkcs8?_ed25519ToPkcs8 seed)

end

end KeyEncoding

/-! ## Texts -/

namespace PrivateKey

/-- **A private key is read back from its text.** -/
theorem ofPem_toPem (key : PrivateKey) : ofPem key.toPem = .ok key := by
  have hread : ofTrimmedPem? (Text.trim key.toPem.toList) = some key := by
    cases key with
    | ecdsaP256 scalar =>
      have hne : KeyEncoding.toSec1 scalar ≠ [] := List.cons_ne_nil _ _
      rw [toPem, String.toList_ofList, ofTrimmedPem?, Pem.decode?_trim_encode _ hne,
        Option.bind_eq_bind, Option.bind_some, KeyEncoding.ofSec1?_toSec1]
      rfl
    | ed25519 seed =>
      have hne : KeyEncoding.ed25519ToPkcs8 seed ≠ [] := List.cons_ne_nil _ _
      have hother : ¬ Pem.beginLine sec1Label <+: Pem.beginLine pkcs8Label := by decide
      have hother' : ¬ Pem.beginLine pkcs8Label <+: Pem.beginLine sec1Label := by decide
      rw [toPem, String.toList_ofList, ofTrimmedPem?, Pem.decode?_trim_encode _ hne,
        Pem.decode?_of_other hother hother' _]
      simp only [Option.bind_eq_bind, Option.bind_some, Option.bind_none,
        KeyEncoding.p256OfPkcs8?_ed25519ToPkcs8, KeyEncoding.ed25519OfPkcs8?_ed25519ToPkcs8]
      rfl
  rw [ofPem, hread]

/-- The text of a public key is not taken for a private one. -/
theorem ofPem_publicKey (key : PublicKey) : ofPem key.toPem = .error (.invalidKey .notPrivatePem) := by
  have hsec1 : Pem.decode? sec1Label (Text.trim key.toPem.toList) = none := by
    rw [PublicKey.toPem, String.toList_ofList]
    exact Pem.decode?_of_other (by decide) (by decide) _
  have hpkcs8 : Pem.decode? pkcs8Label (Text.trim key.toPem.toList) = none := by
    rw [PublicKey.toPem, String.toList_ofList]
    exact Pem.decode?_of_other (by decide) (by decide) _
  rw [ofPem, ofTrimmedPem?, hsec1, hpkcs8]
  rfl

end PrivateKey

end BootSeal
