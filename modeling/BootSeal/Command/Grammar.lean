/-
  BootSeal — the grammar of the command line: what commands there are, and what
  options each of them takes.

  * `Verb`: the commands that do something;
  * `Level`: a place in the tree of commands, with its members and its options;
  * `ValueKind.accepts`: the values that an option can have.
-/
import BootSeal.Key.Basic

namespace BootSeal.Command

/-! ## Options -/

/-- What the value of an option is. -/
inductive ValueKind where
  | path
  | text
  | signatureAlgorithm
  | hashAlgorithm
  | publicKeyFormat
  | word
  deriving DecidableEq, Repr

/-- A 32-bit word as an option has it. -/
def wordOf? (value : String) : Option UInt32 := Text.markedWord? value.toList

/-- A value of the kind. A path is not empty. -/
def ValueKind.accepts : ValueKind → String → Bool
  | path, value => !value.isEmpty
  | text, _ => true
  | signatureAlgorithm, value => (SignatureAlgorithm.ofText value).toOption.isSome
  | hashAlgorithm, value => (HashAlgorithm.ofText value).toOption.isSome
  | publicKeyFormat, value => (PublicKeyFormat.ofText value).toOption.isSome
  | word, value => (wordOf? value).isSome

/-- How often an option is given, and with what. -/
inductive OptionForm where
  /-- At most once, without a value. -/
  | flag
  /-- Exactly once. -/
  | required (kind : ValueKind)
  /-- At most once. -/
  | optional (kind : ValueKind)
  /-- Any number of times. -/
  | repeated (kind : ValueKind)
  deriving DecidableEq, Repr

/-- The kind of the value, if there is one. -/
def OptionForm.kind? : OptionForm → Option ValueKind
  | flag => none
  | required kind | optional kind | repeated kind => some kind

/-- An option by the name after its two hyphens. -/
structure OptionRule where
  name : String
  form : OptionForm
  deriving DecidableEq, Repr

/-! ## Commands -/

/-- The commands that do something. -/
inductive Verb where
  | generateTable
  | verifyTable
  | keygen
  | hash
  | sign
  | verify
  | validationData
  deriving DecidableEq, Repr

/-- The options of a command. -/
def Verb.options : Verb → List OptionRule
  | generateTable => [
      ⟨"config", .optional .path⟩,
      ⟨"partition", .repeated .text⟩,
      ⟨"manifest", .optional .path⟩,
      ⟨"address", .optional .word⟩,
      ⟨"output", .required .path⟩]
  | verifyTable => [
      ⟨"input", .required .path⟩,
      ⟨"address", .required .word⟩]
  | keygen => [
      ⟨"algorithm", .required .signatureAlgorithm⟩,
      ⟨"private", .required .path⟩,
      ⟨"public", .optional .path⟩,
      ⟨"public-format", .optional .publicKeyFormat⟩]
  | hash => [
      ⟨"algorithm", .required .hashAlgorithm⟩,
      ⟨"input", .required .path⟩,
      ⟨"output", .required .path⟩]
  | sign => [
      ⟨"algorithm", .required .signatureAlgorithm⟩,
      ⟨"key", .required .path⟩,
      ⟨"input", .required .path⟩,
      ⟨"output", .required .path⟩,
      ⟨"image", .flag⟩]
  | verify => [
      ⟨"algorithm", .required .signatureAlgorithm⟩,
      ⟨"public-key", .required .path⟩,
      ⟨"input", .required .path⟩,
      ⟨"signature", .required .path⟩]
  | validationData => [
      ⟨"algorithm", .required .signatureAlgorithm⟩,
      ⟨"signature", .required .path⟩,
      ⟨"input", .required .path⟩,
      ⟨"public-key", .required .path⟩,
      ⟨"magic-value", .required .text⟩,
      ⟨"offset", .optional .word⟩,
      ⟨"output-hex", .optional .path⟩,
      ⟨"output-bin", .optional .path⟩,
      ⟨"verify", .flag⟩]

/-- Pairs of options that are not given together. -/
def Verb.exclusions : Verb → List (String × String)
  | generateTable => [("config", "manifest")]
  | _ => []

/-- A place in the tree of commands. -/
inductive Level where
  | root
  | metadata
  | verb (v : Verb)
  deriving DecidableEq, Repr

namespace Level

/-- The words that may follow, and where they lead. -/
def members : Level → List (String × Level)
  | root => [
      ("metadata", metadata),
      ("keygen", verb .keygen),
      ("hash", verb .hash),
      ("sign", verb .sign),
      ("verify", verb .verify),
      ("validation-data", verb .validationData)]
  | metadata => [("generate", verb .generateTable), ("verify", verb .verifyTable)]
  | verb _ => []

/-- The word that asks for help where other words may follow. -/
def helpWord : String := "help"

/-- More log lines; given at any level. -/
def verboseRule : OptionRule := ⟨"verbose", .flag⟩

/-- The letter of the option for more log lines. -/
def verboseLetter : Char := 'v'

/-- The options of the level. -/
def options : Level → List OptionRule
  | verb v => verboseRule :: v.options
  | _ => [verboseRule]

/-- The version is told at the root only. -/
def tellsVersion (l : Level) : Bool := l == root

end Level

end BootSeal.Command
