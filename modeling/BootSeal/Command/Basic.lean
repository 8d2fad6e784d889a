/-
  BootSeal — the commands with their settings.

  `Command.ofArguments` is the command of an argument list.
-/
import BootSeal.Block.Magic
import BootSeal.Command.Arguments

namespace BootSeal

/-- A command, ready to run. Settings are named after their options; those that
    end in `Path` are paths. -/
inductive Command where
  /-- Build a partition table and write it. -/
  | generateTable (configPath : Option String) (partitions : List String)
      (manifestPath : Option String) (address : Option UInt32) (outputPath : String)
  /-- Check the partition table of an image. -/
  | verifyTable (inputPath : String) (address : UInt32)
  /-- Generate a key. -/
  | keygen (algorithm : SignatureAlgorithm) (privatePath : String) (publicPath : Option String)
      (format : PublicKeyFormat)
  /-- Write the digest of an image. -/
  | hash (algorithm : HashAlgorithm) (inputPath outputPath : String)
  /-- Sign a digest or a message, or an image. -/
  | sign (algorithm : SignatureAlgorithm) (keyPath inputPath outputPath : String) (isImage : Bool)
  /-- Check the signature of an image. -/
  | verify (algorithm : SignatureAlgorithm) (publicKeyPath inputPath signaturePath : String)
  /-- Put a validation block into an image. -/
  | validationData (algorithm : SignatureAlgorithm) (signaturePath inputPath publicKeyPath : String)
      (magic : String) (offset : Option UInt32) (hexPath flatPath : Option String) (isChecked : Bool)
  deriving DecidableEq, Repr

namespace Command

/-- The command of the values of its options. -/
def ofValues? (verb : Verb) (values : Values) : Option Command := do
  let optional (name : String) := values.lookup name
  let algorithm := optional "algorithm" >>= fun v => (SignatureAlgorithm.ofText v).toOption
  match verb with
  | .generateTable =>
    let partitions := (values.filter (·.1 == "partition")).map (·.2)
    return generateTable (optional "config") partitions (optional "manifest")
      (optional "address" >>= wordOf?) (← optional "output")
  | .verifyTable => return verifyTable (← optional "input") (← optional "address" >>= wordOf?)
  | .keygen =>
    let format ← (PublicKeyFormat.ofText ((optional "public-format").getD "pem")).toOption
    return keygen (← algorithm) (← optional "private") (optional "public") format
  | .hash =>
    let algorithm ← (HashAlgorithm.ofText (← optional "algorithm")).toOption
    return hash algorithm (← optional "input") (← optional "output")
  | .sign =>
    return sign (← algorithm) (← optional "key") (← optional "input") (← optional "output")
      (optional "image").isSome
  | .verify =>
    return verify (← algorithm) (← optional "public-key") (← optional "input")
      (← optional "signature")
  | .validationData =>
    return validationData (← algorithm) (← optional "signature") (← optional "input")
      (← optional "public-key") (← optional "magic-value") (optional "offset" >>= wordOf?)
      (optional "output-hex") (optional "output-bin") (optional "verify").isSome

/-- The command of an argument list. -/
def ofArguments (arguments : List String) : Except Stop Command := do
  let (verb, values) ← read arguments
  match ofValues? verb values with
  | some command => return command
  | none => throw .usage

end Command

end BootSeal
