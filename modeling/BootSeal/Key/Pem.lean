/-
  BootSeal — keys as texts and files hold them.

  * `PrivateKey.toPem`, `PrivateKey.ofPem`: SEC1 or PKCS#8 under its label;
  * `PublicKey.toFile`: PEM or raw bytes;
  * `PublicKey.ofPem`: SPKI under its label;
  * `PublicKey.ofFile`: either form, told apart by how the bytes begin, for an
    expected algorithm.
-/
import BootSeal.Encoding.Pem
import BootSeal.Key.Encoding
import BootSeal.Text.Lines

namespace BootSeal

/-! ## Labels -/

def sec1Label : String := "EC PRIVATE KEY"

def pkcs8Label : String := "PRIVATE KEY"

def spkiLabel : String := "PUBLIC KEY"

/-! ## Private keys -/

namespace PrivateKey

/-- SEC1 for P-256, and PKCS#8 for Ed25519. -/
def toPem : PrivateKey → String
  | ecdsaP256 scalar => String.ofList (Pem.encode sec1Label (KeyEncoding.toSec1 scalar))
  | ed25519 seed => String.ofList (Pem.encode pkcs8Label (KeyEncoding.ed25519ToPkcs8 seed))

/-- The key of a text without blanks around it: SEC1 or PKCS#8 for P-256, PKCS#8
    for Ed25519. -/
def ofTrimmedPem? (text : List Char) : Option PrivateKey :=
  let sec1 := Pem.decode? sec1Label text
  let pkcs8 := Pem.decode? pkcs8Label text
  ecdsaP256 <$> (sec1 >>= KeyEncoding.ofSec1?) <|>
    ecdsaP256 <$> (pkcs8 >>= KeyEncoding.p256OfPkcs8?) <|>
    ed25519 <$> (pkcs8 >>= KeyEncoding.ed25519OfPkcs8?)

/-- The key of a text. -/
def ofPem (text : String) : Except Error PrivateKey :=
  match ofTrimmedPem? (Text.trim text.toList) with
  | some key => .ok key
  | none => .error (.invalidKey .notPrivatePem)

/-- The key of a text, which must be of the algorithm asked for. -/
def ofPemFor (algorithm : SignatureAlgorithm) (text : String) : Except Error PrivateKey := do
  let key ← ofPem text
  requireAlgorithm algorithm key.algorithm
  return key

end PrivateKey

/-! ## Public keys -/

namespace PublicKey

/-- SPKI under its label. -/
def toPem (k : PublicKey) : String := String.ofList (Pem.encode spkiLabel (KeyEncoding.toSpki k))

/-- The bytes of a key in a format. -/
def toFile (k : PublicKey) : PublicKeyFormat → Bytes
  | .pem => k.toPem.toUTF8.toList
  | .raw => k.toRaw

/-- The key of a text. -/
def ofPem (text : String) : Except Error PublicKey :=
  let document := Pem.decode? spkiLabel (Text.trim text.toList)
  match ecdsaP256 <$> (document >>= KeyEncoding.p256OfSpki?) <|>
      ed25519 <$> (document >>= KeyEncoding.ed25519OfSpki?) with
  | some key => .ok key
  | none => .error (.invalidKey .notPublicPem)

/-- A blank of ASCII. -/
def isBlankByte (x : UInt8) : Bool := x == 0x20 || x == 0x09 || x == 0x0a || x == 0x0c || x == 0x0d

/-- What marks the bytes of a PEM text. -/
def pemMark : Bytes := "-----BEGIN".toUTF8.toList

/-- The key of bytes that are a PEM text if they begin like one, after blanks, and
    raw if not. It must be of the algorithm asked for. -/
def ofFile (algorithm : SignatureAlgorithm) (bytes : Bytes) : Except Error PublicKey := do
  let trimmed := bytes.dropWhile isBlankByte
  let key ←
    if pemMark.isPrefixOf trimmed then
      match String.fromUTF8? ⟨trimmed.toArray⟩ with
      | some text => ofPem text
      | none => .error (.invalidKey .notText)
    else ofRaw algorithm bytes
  requireAlgorithm algorithm key.algorithm
  return key

end PublicKey

end BootSeal
