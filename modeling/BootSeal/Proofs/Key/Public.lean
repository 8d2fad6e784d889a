/-
  BootSeal — a public key is read back from what it is written to, in either format.

  * `KeyEncoding.whole?_spki_toSpki`: the parts of a document;
  * `PublicKey.ofPem_toPem`: keys of either algorithm from their texts, and
    `PublicKey.length_of_ofPem`: how long the text of a key is at least;
  * `PublicKey.BeginsLikePem`: what the bytes of a file are taken for a text by. Bytes that begin
    so but are too short for the text of a key are refused (`ofFile_of_beginsLikePem`);
  * `PublicKey.ofFile_toFile`: every file of a key is read back as that key, but for a raw
    key that begins like a text.
-/
import BootSeal.Proofs.Key.Pem
import BootSeal.Proofs.Text.Utf8

namespace BootSeal

/-! ## Documents -/

namespace KeyEncoding

open Der

theorem algorithmIdentifier_p256 (rest : Bytes) :
    algorithmIdentifier (encodeAlgorithm p256Algorithm ++ rest) = some (p256Algorithm, rest) :=
  sequence_encodeSequence (by decide) (by decide) rest

/-- The parts of a document of a public key are read one after the other. -/
theorem whole?_spki_encode {a : AlgorithmIdentifier} {key : Bytes}
    (ha : ∀ rest, algorithmIdentifier (encodeAlgorithm a ++ rest) = some (a, rest))
    (hsize : (encodeAlgorithm a).length ≤ 21) (hk : key.length ≤ 65) :
    whole? spki (encodeSequence [encodeAlgorithm a, encodeBitString key]) = some (a, key) := by
  have hlimit : 0x80 < lengthLimit := by decide
  have hbits : (encodeBitString key).length = key.length + 3 := by
    rw [encodeBitString, length_encode (by rw [List.length_cons]; omega), List.length_cons]
  refine whole?_sequence ?_ ?_
  · simp only [List.flatten_cons, List.flatten_nil]
    rw [bind_of_run (ha _), bind_of_run (bitString_encodeBitString (by omega) _)]
    rfl
  · simp only [List.flatten_cons, List.flatten_nil, List.length_append, List.length_nil, hbits]
    omega

/-- The parts of the document of a key: the identifier of its algorithm, and the encoding
    inside a validation block, for P-256 behind a tag. -/
theorem whole?_spki_toSpki (k : PublicKey) : whole? spki (toSpki k) = some (match k with
    | .ecdsaP256 point => (p256Algorithm, point.encode)
    | .ed25519 key => (ed25519Algorithm, key.bytes)) := by
  cases k with
  | ecdsaP256 point =>
    refine whole?_spki_encode algorithmIdentifier_p256 (by decide) ?_
    rw [P256.Point.encode, List.length_cons, P256.Point.length_coordinates]
    decide
  | ed25519 key =>
    refine whole?_spki_encode algorithmIdentifier_ed25519 (by decide) ?_
    rw [key.length_bytes]
    decide

/-- **A public key is read back** from its document, under its own algorithm only. -/
theorem p256OfSpki?_toSpki (k : PublicKey) : p256OfSpki? (toSpki k) = match k with
    | .ecdsaP256 point => some point
    | .ed25519 _ => none := by
  rw [p256OfSpki?, whole?_spki_toSpki, Option.bind_eq_bind, Option.bind_some]
  cases k with
  | ecdsaP256 point =>
    dsimp only
    rw [if_pos rfl, P256.Point.decode?_encode]
  | ed25519 key =>
    dsimp only
    rw [if_neg (by decide)]

theorem ed25519OfSpki?_toSpki (k : PublicKey) : ed25519OfSpki? (toSpki k) = match k with
    | .ecdsaP256 _ => none
    | .ed25519 key => some key := by
  rw [ed25519OfSpki?, whole?_spki_toSpki, Option.bind_eq_bind, Option.bind_some]
  cases k with
  | ecdsaP256 point =>
    dsimp only
    rw [if_neg (by decide)]
  | ed25519 key =>
    dsimp only
    rw [if_pos rfl, key.ofBytes?_bytes]

/-! ### Lengths -/

section
variable {document : Bytes}

/-- A key is part of its document. -/
theorem length_le_of_spki {a : AlgorithmIdentifier} {key : Bytes}
    (h : whole? spki document = some (a, key)) : key.length ≤ document.length := by
  obtain ⟨content, hcontent, hread⟩ := exists_content_of_within (run_of_whole? h)
  obtain ⟨found, b, hfound, hread⟩ := run_bind_eq_some.1 hread
  obtain ⟨bits, rest, hbits, hread⟩ := run_bind_eq_some.1 hread
  obtain ⟨heq, rfl⟩ := run_pure_eq_some.1 hread
  cases heq
  obtain ⟨_, halgorithm, -⟩ := exists_content_of_within hfound
  have hbits := length_of_bitString hbits
  omega

theorem length_of_p256OfSpki? {point : P256.Point} (h : p256OfSpki? document = some point) :
    32 ≤ document.length := by
  simp only [p256OfSpki?, Option.bind_eq_bind, Option.bind_eq_some_iff] at h
  obtain ⟨⟨a, key⟩, hspki, h⟩ := h
  split at h
  · have hkey := P256.Point.length_of_decode? h
    exact Nat.le_trans (Nat.le_of_lt hkey) (length_le_of_spki hspki)
  · cases h

theorem length_of_ed25519OfSpki? {key : Ed25519.PublicKey}
    (h : ed25519OfSpki? document = some key) : 32 ≤ document.length := by
  simp only [ed25519OfSpki?, Option.bind_eq_bind, Option.bind_eq_some_iff] at h
  obtain ⟨⟨a, bytes⟩, hspki, h⟩ := h
  split at h
  · have hlen := key.length_bytes
    rw [Ed25519.PublicKey.bytes_ofBytes? h] at hlen
    exact Nat.le_trans (Nat.le_of_eq hlen.symm) (length_le_of_spki hspki)
  · cases h

end

end KeyEncoding

/-! ## Texts -/

theorem requireAlgorithm_self (algorithm : SignatureAlgorithm) :
    requireAlgorithm algorithm algorithm = .ok () := if_pos rfl

namespace PublicKey

/-- **A public key is read back from its text.** -/
theorem ofPem_toPem (k : PublicKey) : ofPem k.toPem = .ok k := by
  have hne : KeyEncoding.toSpki k ≠ [] := by cases k <;> exact List.cons_ne_nil _ _
  have hdocument : Pem.decode? spkiLabel (Text.trim k.toPem.toList) =
      some (KeyEncoding.toSpki k) := by
    rw [toPem, String.toList_ofList, Pem.decode?_trim_encode _ hne]
  rw [ofPem, hdocument]
  simp only [Option.bind_eq_bind, Option.bind_some, KeyEncoding.p256OfSpki?_toSpki,
    KeyEncoding.ed25519OfSpki?_toSpki]
  cases k <;> rfl

theorem exists_document_of_ofPem {text : String} {k : PublicKey} (h : ofPem text = .ok k) :
    ∃ document, Pem.decode? spkiLabel (Text.trim text.toList) = some document ∧
      32 ≤ document.length := by
  rw [ofPem] at h
  cases hdocument : Pem.decode? spkiLabel (Text.trim text.toList) with
  | none => rw [hdocument] at h; cases h
  | some document =>
    rw [hdocument] at h
    simp only [Option.bind_eq_bind, Option.bind_some] at h
    refine ⟨document, rfl, ?_⟩
    cases hpoint : KeyEncoding.p256OfSpki? document with
    | some point => exact KeyEncoding.length_of_p256OfSpki? hpoint
    | none =>
      cases hkey : KeyEncoding.ed25519OfSpki? document with
      | some key => exact KeyEncoding.length_of_ed25519OfSpki? hkey
      | none => rw [hpoint, hkey] at h; cases h

/-- Two boundaries, two line ends and a key need their room. -/
theorem length_of_ofPem {text : String} {k : PublicKey} (h : ofPem text = .ok k) :
    84 ≤ text.toList.length := by
  obtain ⟨document, hdocument, hlen⟩ := exists_document_of_ofPem h
  have hbegin : (Pem.beginLine spkiLabel).length = 26 := by decide
  have hend : (Pem.endLine spkiLabel).length = 24 := by decide
  have htext := Pem.length_le_of_decode? hdocument
  have htrim := Text.length_trim_le text.toList
  omega

/-- Whatever is no text of a key is an invalid one. -/
theorem ofPem_fails {text : String} (h : ∀ k, ofPem text ≠ .ok k) :
    ofPem text = .error (.invalidKey .notPublicPem) := by
  rw [ofPem] at h ⊢
  split
  · next key hkey =>
    rw [hkey] at h
    exact absurd rfl (h key)
  · rfl

/-! ## Files -/

theorem pemMark_eq : pemMark =
    [0x2d, 0x2d, 0x2d, 0x2d, 0x2d, 0x42, 0x45, 0x47, 0x49, 0x4e] := by
  rw [pemMark, Text.toList_toUTF8]
  decide

/-- The bytes begin like a text, after blanks. -/
def BeginsLikePem (b : Bytes) : Prop := pemMark <+: b.dropWhile isBlankByte

instance (b : Bytes) : Decidable (BeginsLikePem b) :=
  inferInstanceAs (Decidable (pemMark <+: b.dropWhile isBlankByte))

section
variable {algorithm : SignatureAlgorithm} {b : Bytes}

/-- Bytes that do not begin so are a raw key or none. -/
theorem ofFile_of_not_beginsLikePem (h : ¬ BeginsLikePem b) :
    ofFile algorithm b = ofRaw algorithm b := by
  rw [BeginsLikePem, ← List.isPrefixOf_iff_prefix] at h
  rw [ofFile, if_neg h]
  cases hkey : ofRaw algorithm b with
  | error e => rfl
  | ok key =>
    show (requireAlgorithm algorithm key.algorithm >>= fun _ => .ok key) = _
    rw [(toRaw_ofRaw hkey).1, requireAlgorithm_self]
    rfl

/-- **Bytes that begin like a text but are too short for one are refused**, be they a raw
    key or not. -/
theorem ofFile_of_beginsLikePem (algorithm : SignatureAlgorithm) (h : BeginsLikePem b)
    (hb : b.length < 84) : ∃ cause, ofFile algorithm b = .error (.invalidKey cause) := by
  rw [BeginsLikePem, ← List.isPrefixOf_iff_prefix] at h
  rw [ofFile, if_pos h]
  split
  · next text htext =>
    refine ⟨.notPublicPem, ?_⟩
    have hlen := Text.length_le_of_fromUTF8? htext
    have htrimmed := (List.dropWhile_suffix isBlankByte (l := b)).length_le
    rw [ofPem_fails fun k hk => ?_]
    · rfl
    · have hroom := length_of_ofPem hk
      omega
  · exact ⟨.notText, rfl⟩

/-- The bytes of a text begin with the mark. -/
theorem toUTF8_toPem (k : PublicKey) : ∃ rest, k.toPem.toUTF8.toList = pemMark ++ rest := by
  have hbegin : Pem.beginLine spkiLabel = "-----BEGIN".toList ++ " PUBLIC KEY-----".toList := by
    decide
  rw [toPem, Pem.encode, hbegin]
  simp only [List.append_assoc, String.ofList_append, String.ofList_toList]
  rw [Text.toUTF8_append]
  exact ⟨_, rfl⟩

/-- The text of a key is read from its file, and only then are the algorithms compared. -/
theorem ofFile_toFile_pem (k : PublicKey) :
    ofFile algorithm (k.toFile .pem) =
      requireAlgorithm algorithm k.algorithm >>= fun _ => .ok k := by
  obtain ⟨rest, hrest⟩ := k.toUTF8_toPem
  have htrimmed : (k.toFile .pem).dropWhile isBlankByte = k.toFile .pem := by
    rw [toFile, hrest, pemMark_eq]
    rfl
  have hmark : pemMark.isPrefixOf (k.toFile .pem) := by
    rw [toFile, hrest, List.isPrefixOf_iff_prefix]
    exact List.prefix_append _ _
  rw [ofFile, htrimmed, if_pos hmark, toFile, Text.fromUTF8?_toList_toUTF8]
  dsimp only
  rw [ofPem_toPem]
  rfl

end

/-- **Every file of a key is read back** as that key, in either format, unless it is a raw key
    that begins like a text: no text of a key is as short as a raw one, so that these are all
    refused. Under another algorithm every file is refused. -/
theorem ofFile_toFile (k : PublicKey) (format : PublicKeyFormat) :
    (ofFile k.algorithm (k.toFile format) = .ok k ↔
      ¬ (format = .raw ∧ BeginsLikePem k.toRaw)) ∧
    (format = .raw ∧ BeginsLikePem k.toRaw →
      ∃ cause, ofFile k.algorithm (k.toFile format) = .error (.invalidKey cause)) ∧
    ∀ other, other ≠ k.algorithm →
      ∃ cause, ofFile other (k.toFile format) = .error (.invalidKey cause) := by
  -- This decides over the raw keys that begin like a text, under both algorithms.
  have hlen : k.toRaw.length < 84 := by
    rw [k.length_toRaw]
    cases k.algorithm <;> decide
  cases format with
  | pem =>
    refine ⟨?_, nofun, fun other hother => ⟨.wrongAlgorithm other k.algorithm, ?_⟩⟩
    · rw [ofFile_toFile_pem, requireAlgorithm_self]
      exact iff_of_true rfl nofun
    · rw [ofFile_toFile_pem, requireAlgorithm, if_neg (Ne.symm hother)]
      rfl
  | raw =>
    rw [toFile]
    by_cases h : BeginsLikePem k.toRaw
    · obtain ⟨cause, hcause⟩ := ofFile_of_beginsLikePem k.algorithm h hlen
      refine ⟨?_, fun _ => ⟨cause, hcause⟩, fun other _ => ofFile_of_beginsLikePem other h hlen⟩
      rw [hcause]
      exact iff_of_false nofun (not_not_intro ⟨rfl, h⟩)
    · refine ⟨?_, fun hraw => absurd hraw.2 h, fun other hother => ?_⟩
      · rw [ofFile_of_not_beginsLikePem h, k.ofRaw_toRaw]
        exact iff_of_true rfl fun hraw => h hraw.2
      · rw [ofFile_of_not_beginsLikePem h, ofRaw_other hother]
        exact ⟨_, rfl⟩

end PublicKey

/-! ## Keys that begin like a text -/

namespace MarkedKey

open PublicKey

/-- A point whose first coordinate begins with the mark. -/
def point : P256.Point where
  x := Fin.ofNat _ 0x2d2d2d2d2d424547494e00000000000000000000000000000000000000000001
  y := Fin.ofNat _ 0x67d4e8f0bc3372943c2a61303c1a5c56ed63903664926986382e248cd3b1033a
  onCurve := by decide +kernel

def pointKey : PublicKey := .ecdsaP256 point

/-- A compressed point that begins with the mark after a blank and a line feed. -/
def compressed : Bytes :=
  [0x20, 0x0a, 0x2d, 0x2d, 0x2d, 0x2d, 0x2d, 0x42, 0x45, 0x47, 0x49, 0x4e] ++
    List.replicate 19 0 ++ [0x07]

def compressedKey : PublicKey := .ed25519 ⟨compressed, by decide +kernel⟩

theorem beginsLikePem_pointKey : BeginsLikePem pointKey.toRaw := by
  rw [BeginsLikePem, pemMark_eq]
  decide +kernel

theorem beginsLikePem_compressedKey : BeginsLikePem compressedKey.toRaw := by
  rw [BeginsLikePem, pemMark_eq]
  decide +kernel

/-- The raw files of both keys are refused, though their texts are not and another raw file
    is not either. -/
theorem only_raw_refused :
    (∃ cause, ofFile .ecdsaP256 (pointKey.toFile .raw) = .error (.invalidKey cause)) ∧
    (∃ cause, ofFile .ed25519 (compressedKey.toFile .raw) = .error (.invalidKey cause)) ∧
    ofFile .ecdsaP256 (pointKey.toFile .pem) = .ok pointKey ∧
    ofFile .ed25519 (PublicKey.toFile (.ed25519 .base) .raw) = .ok (.ed25519 .base) ∧
    ∃ cause, ofFile .ecdsaP256 (compressedKey.toFile .raw) = .error (.invalidKey cause) := by
  have hbase : ¬ BeginsLikePem (PublicKey.ed25519 .base).toRaw := by
    rw [BeginsLikePem, pemMark_eq]
    decide +kernel
  exact ⟨(ofFile_toFile pointKey .raw).2.1 ⟨rfl, beginsLikePem_pointKey⟩,
    (ofFile_toFile compressedKey .raw).2.1 ⟨rfl, beginsLikePem_compressedKey⟩,
    (ofFile_toFile pointKey .pem).1.2 nofun,
    (ofFile_toFile (.ed25519 .base) .raw).1.2 fun h => hbase h.2,
    (ofFile_toFile compressedKey .raw).2.2 .ecdsaP256 nofun⟩

/-- Not every key that is read from its raw bytes is read from a file with these bytes. -/
theorem raw_file_not_read : ¬ ∀ (k : PublicKey) (format : PublicKeyFormat),
    ofRaw k.algorithm k.toRaw = .ok k → ofFile k.algorithm (k.toFile format) = .ok k := by
  intro h
  obtain ⟨cause, hcause⟩ := ofFile_of_beginsLikePem .ecdsaP256 beginsLikePem_pointKey
    (by decide +kernel)
  have hread : ofFile .ecdsaP256 (pointKey.toFile .raw) = .ok pointKey :=
    h pointKey .raw pointKey.ofRaw_toRaw
  rw [toFile, hcause] at hread
  cases hread

end MarkedKey

end BootSeal
