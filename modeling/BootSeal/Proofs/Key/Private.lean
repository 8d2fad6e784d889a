/-
  BootSeal — a private key is read back from its text, whatever blanks stand around it.

  * `PrivateKey.sec1Scalar?`, `PrivateKey.pkcs8Scalar?`, `PrivateKey.pkcs8Seed?`: the decoders
    in the order that they are tried in. Labels and identifiers keep them apart, so that the
    order does not matter (`PrivateKey.ofTrimmedPem?_eq_some_iff`);
  * `PrivateKey.load_padded`: the text of a key gives that key, also from a file, and is
    refused where a key of the other algorithm is asked for.
-/
import BootSeal.Proofs.Files.Artifacts
import BootSeal.Proofs.Key.Public

namespace BootSeal

namespace PrivateKey

/-! ## Decoders -/

/-- The scalar of a text in SEC1. -/
def sec1Scalar? (text : List Char) : Option P256.NonzeroScalar :=
  Pem.decode? sec1Label text >>= KeyEncoding.ofSec1?

/-- The scalar of a text in PKCS#8. -/
def pkcs8Scalar? (text : List Char) : Option P256.NonzeroScalar :=
  Pem.decode? pkcs8Label text >>= KeyEncoding.p256OfPkcs8?

/-- The seed of a text. -/
def pkcs8Seed? (text : List Char) : Option Ed25519.Seed :=
  Pem.decode? pkcs8Label text >>= KeyEncoding.ed25519OfPkcs8?

section
variable {text : List Char}

theorem ofTrimmedPem?_eq (text : List Char) : ofTrimmedPem? text =
    (ecdsaP256 <$> sec1Scalar? text <|> ecdsaP256 <$> pkcs8Scalar? text <|>
      ed25519 <$> pkcs8Seed? text) := rfl

/-- **The decoders of scalars never claim a seed**, though they are tried first. -/
theorem scalar?_eq_none_of_seed {seed : Ed25519.Seed} (h : pkcs8Seed? text = some seed) :
    sec1Scalar? text = none ∧ pkcs8Scalar? text = none := by
  obtain ⟨document, hdocument, hseed⟩ := Option.bind_eq_some_iff.1 h
  have hsec1 : Pem.decode? sec1Label text = none :=
    Pem.decode?_eq_none_of_decode? (by decide) (by decide) hdocument
  refine ⟨?_, ?_⟩
  · rw [sec1Scalar?, hsec1]
    rfl
  · rw [pkcs8Scalar?, hdocument]
    exact KeyEncoding.p256OfPkcs8?_eq_none hseed

/-- Hence a seed is not claimed where a scalar is. -/
theorem pkcs8Seed?_eq_none_of_scalar {scalar : P256.NonzeroScalar}
    (h : sec1Scalar? text = some scalar ∨ pkcs8Scalar? text = some scalar) :
    pkcs8Seed? text = none := by
  cases hseed : pkcs8Seed? text with
  | none => rfl
  | some seed =>
    obtain ⟨hsec1, hpkcs8⟩ := scalar?_eq_none_of_seed hseed
    obtain h | h := h
    · cases h.symm.trans hsec1
    · cases h.symm.trans hpkcs8

theorem pkcs8Scalar?_eq_none_of_sec1 {scalar : P256.NonzeroScalar}
    (h : sec1Scalar? text = some scalar) : pkcs8Scalar? text = none := by
  obtain ⟨document, hdocument, -⟩ := Option.bind_eq_some_iff.1 h
  have hpkcs8 : Pem.decode? pkcs8Label text = none :=
    Pem.decode?_eq_none_of_decode? (by decide) (by decide) hdocument
  rw [pkcs8Scalar?, hpkcs8]
  rfl

/-- **A key is what any of the decoders makes of a text**: no two of them accept one text, so
    that their order does not matter. -/
theorem ofTrimmedPem?_eq_some_iff {key : PrivateKey} : ofTrimmedPem? text = some key ↔
    (∃ scalar, sec1Scalar? text = some scalar ∧ key = .ecdsaP256 scalar) ∨
    (∃ scalar, pkcs8Scalar? text = some scalar ∧ key = .ecdsaP256 scalar) ∨
    ∃ seed, pkcs8Seed? text = some seed ∧ key = .ed25519 seed := by
  rw [ofTrimmedPem?_eq]
  cases hsec1 : sec1Scalar? text with
  | some scalar =>
    simp [pkcs8Scalar?_eq_none_of_sec1 hsec1, pkcs8Seed?_eq_none_of_scalar (.inl hsec1), eq_comm]
  | none =>
    cases hpkcs8 : pkcs8Scalar? text with
    | some scalar =>
      simp [pkcs8Seed?_eq_none_of_scalar (.inr hpkcs8), eq_comm]
    | none => simp [eq_comm]

end

/-! ## Texts and files -/

/-- **Blanks around a text do not count.** -/
theorem ofPem_padded {before after : String} (hb : before.toList.all Text.isBlank = true)
    (ha : after.toList.all Text.isBlank = true) (text : String) :
    ofPem (before ++ text ++ after) = ofPem text := by
  have htrim : Text.trim (before ++ text ++ after).toList = Text.trim text.toList := by
    rw [String.toList_append, String.toList_append]
    exact Text.stripWhile_append (List.all_eq_true.1 hb) (List.all_eq_true.1 ha) _
  rw [ofPem, htrim, ofPem]

theorem pkcs8Seed?_of_ofPem {text : String} {seed : Ed25519.Seed}
    (h : ofPem text = .ok (.ed25519 seed)) : pkcs8Seed? (Text.trim text.toList) = some seed := by
  rw [ofPem] at h
  split at h
  · next key hkey =>
    cases h
    obtain ⟨scalar, -, heq⟩ | ⟨scalar, -, heq⟩ | ⟨seed', hseed, heq⟩ :=
      ofTrimmedPem?_eq_some_iff.1 hkey
    · cases heq
    · cases heq
    · cases heq
      exact hseed
  · cases h

/-- A file with the text of a key is that key, where one of its algorithm is asked for. -/
theorem load_of_readBytes {t : FileTree} {path text : String} {key : PrivateKey}
    (hkey : ofPem text = .ok key) (h : t.readBytes path = .ok (textContent text))
    (algorithm : SignatureAlgorithm) : load t path algorithm =
      requireAlgorithm algorithm key.algorithm >>= fun _ => .ok key := by
  rw [load, FileTree.readText_of_readBytes h]
  show ofPemFor algorithm text = _
  rw [ofPemFor, hkey]
  rfl

/-- **A private key is read back from its text**, with any blanks before and after it. The
    decoders of scalars do not claim the text of a seed. From a file with the text the key is
    read under its own algorithm, and refused under any other. -/
theorem load_padded (key : PrivateKey) (before after : String)
    (hb : before.toList.all Text.isBlank = true) (ha : after.toList.all Text.isBlank = true) :
    ofPem (before ++ key.toPem ++ after) = .ok key ∧
    (∀ seed, key = .ed25519 seed →
      sec1Scalar? (Text.trim (before ++ key.toPem ++ after).toList) = none ∧
      pkcs8Scalar? (Text.trim (before ++ key.toPem ++ after).toList) = none) ∧
    ∀ (t : FileTree) (path : String),
      t.readBytes path = .ok (textContent (before ++ key.toPem ++ after)) →
      load t path key.algorithm = .ok key ∧
      ∀ other, other ≠ key.algorithm →
        load t path other = .error (.invalidKey (.wrongAlgorithm other key.algorithm)) := by
  have hkey : ofPem (before ++ key.toPem ++ after) = .ok key :=
    (ofPem_padded hb ha key.toPem).trans key.ofPem_toPem
  refine ⟨hkey, ?_, fun t path h => ⟨?_, fun other hother => ?_⟩⟩
  · rintro seed rfl
    exact scalar?_eq_none_of_seed (pkcs8Seed?_of_ofPem hkey)
  · rw [load_of_readBytes hkey h, requireAlgorithm_self]
    rfl
  · rw [load_of_readBytes hkey h, requireAlgorithm, if_neg (Ne.symm hother)]
    rfl

end PrivateKey

/-! ## Keys between blanks, in files -/

namespace PaddedKey

open PrivateKey

def scalar : P256.NonzeroScalar := ⟨3, by decide, by decide⟩

def seed : Ed25519.Seed := ⟨0 :: List.replicate 31 5, rfl⟩

/-- The text of a key between a line feed with a no-break space and a tabulator with a wide
    space. -/
def text (key : PrivateKey) : String := "\n\u00a0" ++ key.toPem ++ "\t\u3000"

/-- The text in a file of its own. -/
def tree (key : PrivateKey) : FileTree := ⟨[], [(["k"], .file (textContent (text key)))]⟩

theorem readBytes_tree (key : PrivateKey) :
    (tree key).readBytes "k" = .ok (textContent (text key)) := by
  have hlocation : (tree key).fileLocation? "k" = some ["k"] := rfl
  exact FileTree.readBytes_eq_ok.2 ⟨["k"], hlocation, rfl⟩

/-- A key of either algorithm is read, each under its own algorithm only. -/
theorem each_under_its_own :
    "\n\u00a0".toList.all Text.isBlank = true ∧ "\t\u3000".toList.all Text.isBlank = true ∧
    load (tree (.ecdsaP256 scalar)) "k" .ecdsaP256 = .ok (.ecdsaP256 scalar) ∧
    load (tree (.ecdsaP256 scalar)) "k" .ed25519 =
      .error (.invalidKey (.wrongAlgorithm .ed25519 .ecdsaP256)) ∧
    sec1Scalar? (Text.trim (text (.ed25519 seed)).toList) = none ∧
    load (tree (.ed25519 seed)) "k" .ed25519 = .ok (.ed25519 seed) ∧
    load (tree (.ed25519 seed)) "k" .ecdsaP256 =
      .error (.invalidKey (.wrongAlgorithm .ecdsaP256 .ed25519)) := by
  have hbefore : "\n\u00a0".toList.all Text.isBlank = true := by decide
  have hafter : "\t\u3000".toList.all Text.isBlank = true := by decide
  obtain ⟨-, -, hscalar⟩ := load_padded (.ecdsaP256 scalar) _ _ hbefore hafter
  obtain ⟨-, hapart, hseed⟩ := load_padded (.ed25519 seed) _ _ hbefore hafter
  obtain ⟨hown, hother⟩ := hscalar (tree (.ecdsaP256 scalar)) "k" (readBytes_tree _)
  obtain ⟨hown', hother'⟩ := hseed (tree (.ed25519 seed)) "k" (readBytes_tree _)
  exact ⟨hbefore, hafter, hown, hother .ed25519 (by decide), (hapart seed rfl).1, hown',
    hother' .ecdsaP256 (by decide)⟩

end PaddedKey

end BootSeal
