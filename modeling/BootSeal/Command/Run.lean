/-
  BootSeal — running commands over a tree of files.

  * `Command.run`: the tree after a command, and the lines it prints or why it
    failed;
  * `Outcome.ofArguments`: a whole run, from an argument list to an exit status.

  The exit status is 2 if a signature was checked and does not match, or if the
  argument list is not in the grammar, 101 if arithmetic left its range, and 1 for
  any other failure.
-/
import BootSeal.Command.Basic
import BootSeal.Files.Artifacts
import BootSeal.Files.Sealing
import BootSeal.Signature.Scheme

namespace BootSeal

/-! ## Randomness -/

/-- Fresh values that a run may use. -/
structure Entropy where
  scalar : P256.NonzeroScalar
  seed : Ed25519.Seed
  /-- What varies the nonces of signatures. -/
  nonce : Bytes
  deriving DecidableEq

/-- Fresh values of fresh bytes, if these are in range. -/
def Entropy.ofBytes? (scalar seed nonce : Bytes) : Option Entropy := do
  return ⟨← P256.NonzeroScalar.ofNat? scalar.toNatBE, ← Ed25519.Seed.ofBytes? seed, nonce⟩

/-- A fresh key. -/
def PrivateKey.generate (algorithm : SignatureAlgorithm) (fresh : Entropy) : PrivateKey :=
  match algorithm with
  | .ecdsaP256 => .ecdsaP256 fresh.scalar
  | .ed25519 => .ed25519 fresh.seed

/-! ## Failures -/

/-- Why a command failed. -/
inductive Cause where
  | error (e : Error)
  | config (e : ConfigError)
  | io (fault : IoFault)
  /-- Neither or both of the two descriptions of partitions were named. -/
  | oneDescription
  deriving DecidableEq, Repr

/-- A cause, and what was being done, outermost first. -/
structure Failure where
  doing : List String
  cause : Cause
  deriving DecidableEq, Repr

/-- The wordings of a cause and of what is behind it. -/
def Cause.messages : Cause → List String
  | error (.io path fault) => [(Error.io path fault).message, fault.message]
  | error e => [e.message]
  | config (.unreadable path fault) => [(ConfigError.unreadable path fault).message, fault.message]
  | config e => [e.message]
  | io fault => [fault.message]
  | oneDescription => ["Exactly one of --config or --manifest is required"]

namespace Failure

/-- The line that reports a failure. -/
def report (f : Failure) : String :=
  "Error: " ++ ": ".intercalate (f.doing ++ f.cause.messages)

/-- The exit status of a signature that does not match. -/
def mismatchStatus : Nat := 2

/-- The exit status of arithmetic that left its range. -/
def overflowStatus : Nat := 101

def status (f : Failure) : Nat :=
  match f.cause with
  | .error .verificationFailure => mismatchStatus
  | .error .arithmetic => overflowStatus
  | _ => 1

end Failure

/-- A result whose failure is reported with what was being done. -/
def during {ε α : Type} (cause : ε → Cause) (doing : List String) :
    Except ε α → Except Failure α :=
  Except.mapError fun e => ⟨doing, cause e⟩

/-! ## Commands -/

namespace Command

/-- The image in a file, flat: what is signed. -/
def loadMessage (t : FileTree) (path : String) : Except Failure Bytes :=
  during .error ["Failed to load image " ++ path] ((·.flatten) <$> Image.load t path)

/-- The content of a file. -/
def loadBytes (t : FileTree) (path : String) : Except Failure Bytes :=
  during .io ["Unable to read " ++ path] (t.readBytes path)

/-- The layout that a description names, and the address of its table if the
    description fixes one. -/
def loadLayout (t : FileTree) (configPath : Option String) (partitions : List String)
    (manifestPath : Option String) : Except Failure (PartitionLayout × Option UInt32) :=
  match configPath, manifestPath with
  | some path, none => do
    let config ← during .config ["Failed to read " ++ path] (BuildConfig.load t path)
    let names := if partitions.isEmpty then PartitionLayout.defaultNames else partitions
    let layout ← during .config [] (PartitionLayout.ofConfig config names)
    return (layout, none)
  | none, some path => do
    let manifest ← during .config [] (PartitionManifest.load t path)
    return (manifest.layout, manifest.tableAddress)
  | _, _ => .error ⟨[], .oneDescription⟩

/-- A result that nothing is written for. -/
def withoutWriting {α : Type} (t : FileTree) (r : Except Failure α) :
    FileTree × Except Failure α := (t, r)

/-- Write outputs that come with the lines to print. -/
def write (t : FileTree) (r : Except Failure (List Output × List String)) :
    FileTree × Except Failure (List String) :=
  match r with
  | .error f => (t, .error f)
  | .ok (outputs, lines) =>
    let (t, result) := t.persist outputs
    (t, during .error [] (result.map fun () => lines))

/-- Lines on the entries of a table, and on the table. -/
def tableLines (table : PartitionTable) : List String :=
  (table.entries.mapIdx fun i e =>
    "  [" ++ toString i ++ "] address " ++ Text.address e.address.toNat ++ " size " ++
      Text.address e.size.toNat) ++
  ["Metadata is valid! (crc32 " ++ Text.address table.checksum.toNat ++ ")"]

/-- The tree after a command, and the lines it prints. -/
def run (fresh : Entropy) (t : FileTree) : Command → FileTree × Except Failure (List String)
  | generateTable configPath partitions manifestPath address outputPath =>
    match loadLayout t configPath partitions manifestPath with
    | .error f => (t, .error f)
    | .ok (layout, fixedAddress) =>
      let placement := ((address <|> fixedAddress).map .fixed).getD .afterInstaller
      let (t, result) := t.writeTable layout placement outputPath
      let lines := result.map fun placed => [
        "Metadata with " ++ toString placed.table.entryCount.toNat ++ " entries written to " ++
          outputPath ++ " at " ++ Text.address placed.address.toNat]
      (t, during .error ["Failed to generate partition metadata"] lines)
  | verifyTable inputPath address =>
    withoutWriting t do
      let image ← during .error [] (Image.load t inputPath)
      let doing := "No valid metadata at " ++ Text.address address.toNat ++ " in " ++ inputPath
      return tableLines (← during .error [doing] (image.partitionTable address))
  | keygen algorithm privatePath publicPath format =>
    let key := PrivateKey.generate algorithm fresh
    let (t, result) := t.writeKeys key privatePath publicPath format
    let lines := ("Private key written to " ++ privatePath) ::
      (publicPath.map ("Public key written to " ++ ·)).toList
    (t, during .error [] (result.map fun () => lines))
  | hash algorithm inputPath outputPath =>
    write t do
      let image ← during .error [] (Image.load t inputPath)
      let digest := algorithm.digest image.flatten
      return ([⟨outputPath, digest⟩], [algorithm.name ++ " " ++ digest.toHex])
  | sign algorithm keyPath inputPath outputPath isImage =>
    write t do
      let key ← during .error ["Failed to load private key " ++ keyPath]
        (PrivateKey.load t keyPath algorithm)
      let message ← loadMessage t inputPath
      let record ← during .error [] <|
        if isImage then SignatureRecord.ofContent key algorithm fresh.nonce message
        else SignatureRecord.ofInput key algorithm fresh.nonce message
      return ([⟨outputPath, record.signature⟩],
        [algorithm.name ++ " signature written to " ++ outputPath])
  | verify algorithm publicKeyPath inputPath signaturePath =>
    withoutWriting t do
      let key ← during .error [] (PublicKey.load t publicKeyPath algorithm)
      let message ← loadMessage t inputPath
      let signature ← loadBytes t signaturePath
      if ← during .error [] (key.verify message signature) then return ["Signature is valid!"]
      else
        throw ⟨[algorithm.name ++ " signature does not match " ++ inputPath],
          .error .verificationFailure⟩
  | validationData algorithm signaturePath inputPath publicKeyPath magic offset hexPath flatPath
      isChecked =>
    let request : Except Failure SealRequest := do
      let magic ← during .error [] (Magic.ofText magic)
      let publicKey ← during .error ["Failed to load public key " ++ publicKeyPath]
        (PublicKey.load t publicKeyPath algorithm)
      let signature ← loadBytes t signaturePath
      let image ← during .error ["Failed to load image " ++ inputPath] (Image.load t inputPath)
      return ⟨image, publicKey, signature, magic, offset, hexPath, flatPath, isChecked⟩
    match request with
    | .error f => (t, .error f)
    | .ok request =>
      let (t, result) := t.writeSealed request
      let lines := result.map fun s => [
        "Validation data (" ++ toString s.block.encodedSize ++ " bytes) placed at " ++
          Text.address s.offset.toNat]
      (t, during .error ["Failed to append validation data"] lines)

end Command

/-! ## Runs -/

/-- What a run leaves behind. -/
structure Outcome where
  status : Nat
  output : List String
  /-- The line that reports a failure. Mistakes in the argument list are reported
      elsewhere. -/
  report : Option String
  tree : FileTree
  /-- Why no command was carried out, if none was. -/
  stop : Option Command.Stop
  deriving Repr

/-- The exit status of a run without a command. -/
def Command.Stop.status : Command.Stop → Nat
  | usage => 2
  | help | version => 0

/-- The run of an argument list. -/
def Outcome.ofArguments (fresh : Entropy) (t : FileTree) (arguments : List String) : Outcome :=
  match Command.ofArguments arguments with
  | .error stop => ⟨stop.status, [], none, t, some stop⟩
  | .ok command =>
    match command.run fresh t with
    | (t, .ok lines) => ⟨0, lines, none, t, none⟩
    | (t, .error f) =>
      let report := if f.cause = .error .arithmetic then none else some f.report
      ⟨f.status, [], report, t, none⟩

end BootSeal
