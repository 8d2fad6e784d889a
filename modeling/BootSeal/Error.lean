/-
  BootSeal — what can go wrong while metadata and validation data are built.

  Errors are causes: each constructor says what happened, and the wording is in
  one place, `Error.message`. The constructors of `Error` are the kinds that a
  caller tells apart; the causes inside a kind only differ in their wording.
-/
import BootSeal.IntelHex.Document
import BootSeal.Partition.Config
import BootSeal.Partition.Table
import BootSeal.Signature.Algorithm

namespace BootSeal

/-! ## Causes -/

/-- A request or a configuration that asks for something impossible. -/
inductive ConfigurationFault where
  | pastAddressSpace (address : UInt32) (length : Nat)
  | tooManyPartitions (present : Nat)
  | installerMissing
  | installerPastAddressSpace
  | unknownHash (name : String)
  | unknownSignature (name : String)
  | unknownPublicFormat (name : String)
  | magicWord (word : String)
  | magicCount (words : Nat)
  /-- The image leaves no aligned address after it. -/
  | noOffset
  | missingKey (key : String)
  | invalidHex (key value : String)
  | regionOverflow (key : String) (start size : UInt32)
  deriving DecidableEq, Repr

/-- A text or byte string that is not what it should be. -/
inductive ParseFault where
  | unreadable (cause : IoFault)
  | malformedLine (line : Nat) (text : String)
  | manifest
  | hexRecord (cause : IntelHex.RecordFault)
  | hexPlacement (cause : PlacementFault)
  | hexDocument (cause : IntelHex.DocumentFault)
  | shortTable (length : Nat)
  | noTableHeader (address : UInt32)
  | truncatedTable (address : UInt32) (size : Nat)
  | truncatedMagic
  | truncatedBlock (algorithm : SignatureAlgorithm) (needed remaining : Nat)
  deriving DecidableEq, Repr

/-- A key that is malformed, or of the wrong kind for its use. -/
inductive KeyFault where
  | publicSize (algorithm : SignatureAlgorithm) (length : Nat)
  | notOnCurve
  | noEdwardsPoint
  | notText
  | notPrivatePem
  | notPublicPem
  | wrongAlgorithm (expected found : SignatureAlgorithm)
  | unusable (key scheme : SignatureAlgorithm)
  | cannotProduce (key scheme : SignatureAlgorithm)
  | digestSize (length : Nat)
  /-- No usable signature came out. -/
  | noSignature
  deriving DecidableEq, Repr

/-- A signature that is not of the form its algorithm asks for. -/
inductive SignatureFault where
  /-- Neither a pair of fixed-width numbers nor their strict DER encoding. -/
  | notDer
  /-- Seen while a signature was checked. -/
  | checkedSize (length : Nat)
  /-- Seen while a signature was put into its fixed-width form. -/
  | fixedSize (algorithm : SignatureAlgorithm) (length : Nat)
  deriving DecidableEq, Repr

/-- What went wrong. -/
inductive Error where
  | configuration (cause : ConfigurationFault)
  | parse (source : String) (cause : ParseFault)
  | invalidKey (cause : KeyFault)
  | malformedSignature (cause : SignatureFault)
  | verificationFailure
  | overlap (address : UInt32) (length start stop : Nat)
  | io (path : String) (cause : IoFault)
  /-- No temporary file could be created beside `path`. -/
  | staging (path : String) (cause : IoFault)
  | checksumMismatch (stored computed : UInt32)
  /-- A 32-bit step left its range; there is no report, the run just ends. -/
  | arithmetic
  deriving DecidableEq, Repr

/-! ## Wording -/

namespace ConfigurationFault

/-- What the fault is about. -/
def key : ConfigurationFault → String
  | pastAddressSpace .. => "address"
  | tooManyPartitions .. => "partitions"
  | installerMissing => "installer_PARTITION_START"
  | installerPastAddressSpace => "installer_PARTITION_SIZE"
  | unknownHash .. | unknownSignature .. => "algorithm"
  | unknownPublicFormat .. => "public-format"
  | magicWord .. | magicCount .. => "magic-value"
  | noOffset => "offset"
  | missingKey key | invalidHex key _ | regionOverflow key _ _ => key

/-- What is wrong. -/
def reason : ConfigurationFault → String
  | pastAddressSpace address length =>
    toString length ++ " bytes at " ++ Text.address address.toNat ++
      " extend past the 32-bit address space"
  | tooManyPartitions present =>
    toString present ++ " present partitions, at most " ++ toString PartitionTable.maxEntries ++
      " fit in the table"
  | installerMissing => "required to place the metadata after the installer"
  | installerPastAddressSpace => "installer partition ends past the 32-bit address space"
  | unknownHash name => "unsupported hash algorithm " ++ Text.quoted name
  | unknownSignature name => "unsupported signature algorithm " ++ Text.quoted name
  | unknownPublicFormat name => "expected pem or raw, got " ++ Text.quoted name
  | magicWord word => Text.quoted word ++ " is not a 32-bit integer"
  | magicCount words => "expected 3 comma separated words, got " ++ toString words
  | noOffset => "image ends at the top of the address space"
  | missingKey _ => "required key is missing"
  | invalidHex _ value => Text.quoted value ++ " is not a hexadecimal integer"
  | regionOverflow _ start size =>
    Text.marked start.toNat ++ " + " ++ Text.marked size.toNat ++
      " exceeds the 32-bit address space"

/-- The wording of a fault. -/
def message (f : ConfigurationFault) : String :=
  "Configuration error for " ++ f.key ++ ": " ++ f.reason

end ConfigurationFault

/-- The wording of an overlap. -/
def overlapMessage (address : UInt32) (length start stop : Nat) : String :=
  "Data at " ++ Text.address address.toNat ++ " (" ++ toString length ++
    " bytes) overlaps existing content at " ++ Text.address start ++ ".." ++ Text.address stop

/-- The wording of a fault of placement. -/
def PlacementFault.message : PlacementFault → String
  | pastAddressSpace address length => (ConfigurationFault.pastAddressSpace address length).message
  | overlap address length start stop => overlapMessage address length start stop

/-- The wording of a fault of writing. -/
def IntelHex.DocumentFault.message : IntelHex.DocumentFault → String
  | payloadTooLong length => "record exceeds maximum length (" ++ toString length ++ " bytes)"
  | missingEnd => "missing end of file record"
  | repeatedEnd => "multiple end of file records"

/-- The wording of a fault. -/
def ParseFault.reason : ParseFault → String
  | unreadable cause => cause.message
  | malformedLine line text =>
    "line " ++ toString line ++ " is not a key/value pair: " ++ Text.quoted text
  | manifest => manifestReason
  | hexRecord cause => cause.message
  | hexPlacement cause => cause.message
  | hexDocument cause => cause.message
  | shortTable length => toString length ++ " bytes is too short for the advertised entry count"
  | noTableHeader address => "no metadata header at " ++ Text.address address.toNat
  | truncatedTable address size =>
    "metadata at " ++ Text.address address.toNat ++ " is shorter than " ++ toString size ++ " bytes"
  | truncatedMagic => "validation block magic is truncated"
  | truncatedBlock algorithm needed remaining =>
    algorithm.name ++ " validation block needs " ++ toString needed ++
      " bytes after the magic, " ++ toString remaining ++ " remain"

/-- The wording of a fault. -/
def KeyFault.reason : KeyFault → String
  | publicSize algorithm length =>
    algorithm.name ++ " public keys are " ++ toString algorithm.publicKeySize ++ " bytes, got " ++
      toString length
  | notOnCurve => "point is not on the P-256 curve"
  | noEdwardsPoint => "signature error: Cannot decompress Edwards point"
  | notText => "PEM data is not UTF-8"
  | notPrivatePem => "not a P-256 or Ed25519 private key in PEM form"
  | notPublicPem => "not a P-256 or Ed25519 public key in PEM form"
  | wrongAlgorithm expected found => "expected a " ++ expected.name ++ " key, found " ++ found.name
  | unusable key scheme => key.name ++ " key cannot be used with " ++ scheme.name
  | cannotProduce key scheme => key.name ++ " key cannot produce " ++ scheme.name ++ " signatures"
  | digestSize length =>
    "expected a " ++ toString HashAlgorithm.sha256.digestLength ++
      " byte SHA-256 digest, got " ++ toString length ++ " bytes"
  | noSignature => "signature error"

/-- The wording of a fault. -/
def SignatureFault.reason : SignatureFault → String
  | notDer => "signature error"
  | checkedSize length =>
    "Ed25519 signatures are " ++ toString SignatureAlgorithm.ed25519.signatureSize ++
      " bytes, got " ++ toString length
  | fixedSize algorithm length =>
    algorithm.name ++ " signatures are " ++ toString algorithm.signatureSize ++ " bytes, got " ++
      toString length

/-- The wording of an error. -/
def Error.message : Error → String
  | configuration cause => cause.message
  | parse source cause => "Unable to parse " ++ source ++ ": " ++ cause.reason
  | invalidKey cause => "Invalid key: " ++ cause.reason
  | malformedSignature cause => "Malformed signature: " ++ cause.reason
  | verificationFailure => "Signature verification failed"
  | overlap address length start stop => overlapMessage address length start stop
  | io path cause | staging path cause => "I/O error on " ++ path ++ ": " ++ cause.message
  | checksumMismatch stored computed =>
    "Checksum mismatch: stored " ++ Text.address stored.toNat ++ ", computed " ++
      Text.address computed.toNat
  | arithmetic => "arithmetic overflow"

/-! ## Conversions -/

/-- A fault of placement as an error. -/
def PlacementFault.toError : PlacementFault → Error
  | pastAddressSpace address length => .configuration (.pastAddressSpace address length)
  | overlap address length start stop => .overlap address length start stop

/-- A fault of a text that stands at `source`. -/
def IntelHex.Fault.toError (source : String) : IntelHex.Fault → Error
  | record cause => .parse source (.hexRecord cause)
  | placement cause => .parse source (.hexPlacement cause)

/-- An error of a description of the partitions among the others. -/
def ConfigError.toError : ConfigError → Error
  | unreadable path cause => .parse path (.unreadable cause)
  | malformedLine path line text => .parse path (.malformedLine line text)
  | manifest path => .parse path .manifest
  | missingKey key => .configuration (.missingKey key)
  | invalidHex key value => .configuration (.invalidHex key value)
  | regionOverflow key start size => .configuration (.regionOverflow key start size)

/-- The name that stands for the path of a text that is in no file. -/
def hexSource : String := "<hex>"

/-! ## Names -/

/-- The hash algorithm of a name, in any case. -/
def HashAlgorithm.ofText (s : String) : Except Error HashAlgorithm :=
  let name := s.toLower
  match ofName? name with
  | some algorithm => .ok algorithm
  | none => .error (.configuration (.unknownHash name))

/-- The signature algorithm of a name, in any case, with hyphens or
    underscores. -/
def SignatureAlgorithm.ofText (s : String) : Except Error SignatureAlgorithm :=
  let name := s.toLower.map fun c => if c = '_' then '-' else c
  match ofName? name with
  | some algorithm => .ok algorithm
  | none => .error (.configuration (.unknownSignature name))

end BootSeal
