/-
  BootSeal — the steps of a command fail with plain errors.

  `Error.Plain` errors are those that a run reports with the common exit status: all
  but a signature that does not match and arithmetic that left its range. There is one
  lemma for each function that a command calls. The two others come from elsewhere: a
  command that wants a signature to match, and the default place of a block.
-/
import BootSeal.Command.Run
import BootSeal.Proofs.Files.Persist

namespace BootSeal

/-- An error other than a mismatch and an overflow. -/
@[simp] def Error.Plain : Error → Prop
  | .verificationFailure | .arithmetic => False
  | _ => True

/-! ## Conversions -/

theorem PlacementFault.plain_toError (f : PlacementFault) : f.toError.Plain := by
  cases f <;> trivial

theorem IntelHex.Fault.plain_toError (f : IntelHex.Fault) (source : String) :
    (f.toError source).Plain := by
  cases f <;> trivial

theorem Error.IsFileFault.plain {paths : List String} {e : Error} (h : e.IsFileFault paths) :
    e.Plain := by
  cases h <;> trivial

theorem orIoError_plain {α : Type} (path : String) (x : Except IoFault α) :
    FailsWith Error.Plain (orIoError path x) := by
  cases x <;> simp [orIoError]

/-! ## Keys -/

theorem requireAlgorithm_plain (expected found : SignatureAlgorithm) :
    FailsWith Error.Plain (requireAlgorithm expected found) := by
  rw [requireAlgorithm]
  split <;> simp

theorem PrivateKey.ofPem_plain (text : String) : FailsWith Error.Plain (PrivateKey.ofPem text) := by
  rw [PrivateKey.ofPem]
  split <;> simp

theorem PrivateKey.load_plain (t : FileTree) (path : String) (algorithm : SignatureAlgorithm) :
    FailsWith Error.Plain (PrivateKey.load t path algorithm) :=
  (orIoError_plain ..).bind fun text => (ofPem_plain text).bind fun _ =>
    (requireAlgorithm_plain ..).bind fun _ => .ok _

namespace PublicKey

theorem ofRaw_plain (algorithm : SignatureAlgorithm) (bytes : Bytes) :
    FailsWith Error.Plain (ofRaw algorithm bytes) := by
  rw [ofRaw.eq_def]
  split
  · simp
  · split <;> split <;> simp

theorem ofPem_plain (text : String) : FailsWith Error.Plain (ofPem text) := by
  rw [ofPem]
  split <;> simp

theorem ofFile_plain (algorithm : SignatureAlgorithm) (bytes : Bytes) :
    FailsWith Error.Plain (ofFile algorithm bytes) := by
  have hrequire : ∀ key : PublicKey, FailsWith Error.Plain (do
      requireAlgorithm algorithm key.algorithm
      return key) := fun _ => (requireAlgorithm_plain ..).bind fun _ => .pure _
  rw [ofFile]
  dsimp only
  split
  · split
    · exact (ofPem_plain _).bind hrequire
    · exact FailsWith.bind (by simp) hrequire
  · exact (ofRaw_plain ..).bind hrequire

theorem load_plain (t : FileTree) (path : String) (algorithm : SignatureAlgorithm) :
    FailsWith Error.Plain (PublicKey.load t path algorithm) :=
  (orIoError_plain ..).bind fun bytes => ofFile_plain algorithm bytes

end PublicKey

/-! ## Signatures -/

namespace SignatureAlgorithm

variable (algorithm : SignatureAlgorithm)

theorem sign_plain (key : PrivateKey) (entropy input : Bytes) :
    FailsWith Error.Plain (algorithm.sign key entropy input) := by
  rw [sign.eq_def]
  split
  · split
    · simp
    · split <;> simp
  · simp
  · simp

theorem normalize_plain (signature : Bytes) :
    FailsWith Error.Plain (algorithm.normalize signature) := by
  rw [normalize.eq_def]
  split
  · simp
  · split
    · split <;> simp
    · simp

end SignatureAlgorithm

theorem PublicKey.verify_plain (key : PublicKey) (message signature : Bytes) :
    FailsWith Error.Plain (key.verify message signature) := by
  rw [PublicKey.verify, SignatureAlgorithm.verify.eq_def]
  split
  · dsimp only
    split
    · simp
    · split <;> simp
  · split <;> simp
  · simp

theorem SignatureRecord.ofInput_plain (key : PrivateKey) (algorithm : SignatureAlgorithm)
    (entropy input : Bytes) :
    FailsWith Error.Plain (SignatureRecord.ofInput key algorithm entropy input) := by
  rw [SignatureRecord.ofInput]
  have hsign := (algorithm.sign_plain key entropy input).bind (β := SignatureRecord)
    fun signature => .pure ⟨algorithm, algorithm.prehash?.map fun _ => input, signature⟩
  split
  · exact FailsWith.bind (by simp) fun _ => hsign
  · exact hsign

theorem ValidationBlock.ofSignature_plain (magic : Magic) (key : PublicKey) (signature : Bytes) :
    FailsWith Error.Plain (ValidationBlock.ofSignature magic key signature) :=
  (key.algorithm.normalize_plain _).bind fun _ => .ok _

theorem Magic.ofText_plain (text : String) : FailsWith Error.Plain (Magic.ofText text) := by
  refine FailsWith.bind (FailsWith.mapM (fun word => ?_) _) fun words => ?_
  · rw [wordOfText]
    split <;> simp
  · split <;> simp

/-! ## Images and tables -/

theorem Image.load_plain (t : FileTree) (path : String) :
    FailsWith Error.Plain (Image.load t path) := by
  rw [Image.load]
  split
  · exact (orIoError_plain ..).bind fun _ => .mapError_of_forall fun fault => fault.plain_toError path
  · exact (orIoError_plain ..).bind fun _ => .mapError_of_forall fun fault => fault.plain_toError

theorem Image.embed_some_plain (img : Image) (a : UInt32) (bytes : Bytes) :
    FailsWith Error.Plain (img.embed (some a) bytes) := by
  rw [Image.embed]
  refine FailsWith.bind (.ok a) fun b => ?_
  dsimp only
  split
  · exact .pure _
  · exact PlacementFault.plain_toError _

theorem Image.partitionTable_plain (img : Image) (address : UInt32) :
    FailsWith Error.Plain (img.partitionTable address) := by
  rw [Image.partitionTable]
  split
  · dsimp only
    split
    · rw [PartitionTable.parse]
      split
      · simp
      · dsimp only
        split <;> simp
    · simp
  · simp

theorem Image.toHex_plain (img : Image) : FailsWith Error.Plain img.toHex :=
  .mapError_of_forall fun _ => trivial

theorem PlacedTable.ofLayout_plain (layout : PartitionLayout) (placement : TablePlacement) :
    FailsWith Error.Plain (PlacedTable.ofLayout layout placement) := by
  refine FailsWith.bind ?_ fun address => FailsWith.bind ?_ fun table =>
    FailsWith.bind (.mapError_of_forall fun fault => fault.plain_toError) fun _ => .ok _
  · rw [TablePlacement.resolve.eq_def]
    split
    · simp
    · split
      · simp
      · split <;> simp
  · rw [PartitionTable.build]
    dsimp only
    split <;> simp

/-! ## Files -/

namespace FileTree

variable (t : FileTree)

theorem persist_plain (outputs : List Output) : FailsWith Error.Plain (t.persist outputs).2 :=
  (t.persist_fails outputs).mono fun _ h => h.plain

theorem writeTable_plain (layout : PartitionLayout) (placement : TablePlacement) (path : String) :
    FailsWith Error.Plain (t.writeTable layout placement path).2 := by
  have hplaced := PlacedTable.ofLayout_plain layout placement
  rw [writeTable]
  split
  · next h => exact hplaced.of_eq h
  · next placed _ =>
    have hwrite : FailsWith Error.Plain (t.writeHex path placed.image).2 := by
      have hhex := placed.image.toHex_plain
      rw [writeHex]
      split
      · exact persist_plain ..
      · next h => exact hhex.of_eq h
    split
    · simp
    · next h => exact hwrite.of_eq (congrArg Prod.snd h)

theorem writeKeys_plain (key : PrivateKey) (path : String) (publicPath : Option String)
    (format : PublicKeyFormat) :
    FailsWith Error.Plain (t.writeKeys key path publicPath format).2 :=
  persist_plain ..

end FileTree

theorem SealRequest.outputs_plain (r : SealRequest) (image : Image) :
    FailsWith Error.Plain (r.outputs image) := by
  refine FailsWith.bind ?_ fun _ => .ok _
  cases r.hexPath with
  | none => exact .ok _
  | some path =>
    exact (FailsWith.bind image.toHex_plain fun _ => .ok _).map

end BootSeal
