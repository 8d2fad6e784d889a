/-
  BootSeal — what the exit status of a run tells.

  * `Command.Mismatch`: the command gets as far as a check of a signature, and the
    signature does not match the flat image; `Command.Overflows`: it looks for the
    default place of a block in an image that occupies every address;
  * `Command.run_fails`: any other failure of a command has the common status, and
    `Command.run_of_mismatch`, `Command.run_of_overflows`: these two always fail so;
  * `Outcome.status_iff`: hence the status 2 tells of a mismatch, unless the argument
    list is not in the grammar, which has the same status
    (`ZeroSignature.status_two_without_check`).
-/
import BootSeal.Proofs.Command.Failures
import BootSeal.Proofs.Files.Sealing

namespace BootSeal

/-! ## Failures that are told apart -/

/-- An error is plain, or a mismatch or an overflow that is due to a condition. -/
inductive Error.DueTo (mismatch overflow : Prop) : Error → Prop where
  | plain {e : Error} (h : e.Plain) : DueTo mismatch overflow e
  | mismatch (h : mismatch) : DueTo mismatch overflow .verificationFailure
  | overflow (h : overflow) : DueTo mismatch overflow .arithmetic

theorem Error.DueTo.mono {m m' o o' : Prop} {e : Error} (h : DueTo m o e) (hm : m → m')
    (ho : o → o') : DueTo m' o' e := by
  cases h with
  | plain h => exact .plain h
  | mismatch h => exact .mismatch (hm h)
  | overflow h => exact .overflow (ho h)

/-- A failure has the common status, or the one of a mismatch or an overflow that is due
    to a condition. -/
inductive Failure.DueTo (mismatch overflow : Prop) (f : Failure) : Prop where
  | common (h : f.status = 1)
  | mismatch (h : mismatch) (hf : f.status = Failure.mismatchStatus)
  | overflow (h : overflow) (hf : f.status = Failure.overflowStatus)

section
variable {α : Type} {mismatch overflow : Prop} {doing : List String}

theorem Failure.status_of_plain {e : Error} (h : e.Plain) :
    (⟨doing, .error e⟩ : Failure).status = 1 := by
  cases e with
  | verificationFailure | arithmetic => exact h.elim
  | _ => rfl

/-- An error keeps its status, whatever was being done. -/
theorem during_dueTo {x : Except Error α} (h : FailsWith (Error.DueTo mismatch overflow) x) :
    FailsWith (Failure.DueTo mismatch overflow) (during .error doing x) := by
  refine h.mapError fun e he => ?_
  cases he with
  | plain he => exact .common (Failure.status_of_plain he)
  | mismatch hm => exact .mismatch hm rfl
  | overflow ho => exact .overflow ho rfl

theorem during_plain {x : Except Error α} (h : FailsWith Error.Plain x) :
    FailsWith (·.status = 1) (during .error doing x) :=
  h.mapError fun _ => Failure.status_of_plain

end

/-! ## Images of files, and where a block goes in them -/

namespace Image

theorem canonical_of_load {t : FileTree} {path : String} {img : Image}
    (h : Image.load t path = .ok img) : img.Canonical := by
  rw [Image.load] at h
  split at h
  · obtain ⟨text, -, h⟩ := bind_eq_ok.1 h
    cases hr : IntelHex.read text with
    | ok img' => rw [hr] at h; cases h; exact canonical_empty.readLines hr
    | error => rw [hr] at h; cases h
  · obtain ⟨content, -, h⟩ := bind_eq_ok.1 h
    cases hb : Image.ofBytes content 0 with
    | ok img' => rw [hb] at h; cases h; exact canonical_empty.insert hb
    | error => rw [hb] at h; cases h

namespace Canonical

variable {img : Image} (h : img.Canonical)
include h

/-- The default place of a block only overflows in a full image. -/
theorem nextAligned_fails :
    FailsWith (Error.DueTo False img.Full) img.nextAligned := by
  by_cases hfull : img.Full
  · rw [h.nextAligned_of_full hfull]
    exact .overflow hfull
  · cases hn : img.nextAligned with
    | ok a => exact .ok a
    | error e =>
      rw [h.nextAligned_eq_error hfull hn]
      exact .plain trivial

theorem embed_fails (offset : Option UInt32) (bytes : Bytes) :
    FailsWith (Error.DueTo False (offset = none ∧ img.Full)) (img.embed offset bytes) := by
  cases offset with
  | some a => exact (img.embed_some_plain a bytes).mono fun _ => .plain
  | none =>
    refine FailsWith.bind (h.nextAligned_fails.mono fun e he => ?_)
      fun a => (img.embed_some_plain a bytes).mono fun _ => .plain
    exact he.mono id fun hfull => ⟨rfl, hfull⟩

end Canonical

end Image

theorem during_eq_ok {ε α : Type} {cause : ε → Cause} {doing : List String} {x : Except ε α}
    {a : α} : during cause doing x = .ok a ↔ x = .ok a := by
  cases x with
  | ok b => exact ⟨fun h => by cases h; rfl, fun h => by cases h; rfl⟩
  | error => exact ⟨nofun, nofun⟩

/-! ## Sealing -/

namespace SealRequest

variable {r : SealRequest}

/-- The check of the signature is reached, and the signature does not match. -/
structure Mismatch (r : SealRequest) : Prop where
  writes : (r.hexPath.isNone && r.flatPath.isNone) = false
  checks : r.verify = true
  mismatch : r.publicKey.verify r.image.flatten r.signature = .ok false

/-- The default place of a block is looked for, in a full image. -/
structure Overflows (r : SealRequest) : Prop where
  writes : (r.hexPath.isNone && r.flatPath.isNone) = false
  matched : r.verify = true → r.publicKey.verify r.image.flatten r.signature = .ok true
  block : ∃ block, ValidationBlock.ofSignature r.magic r.publicKey r.signature = .ok block
  unplaced : r.offset = none
  full : r.image.Full

theorem run_of_mismatched (h : r.Mismatch) : r.run = .error .verificationFailure := by
  rw [run_of_mismatch h.checks h.mismatch, h.writes]
  rfl

theorem run_of_overflows (h : r.image.Canonical) (ho : r.Overflows) :
    r.run = .error .arithmetic := by
  obtain ⟨block, hblock⟩ := ho.block
  have hplace : r.place = .error .arithmetic := by
    rw [place, hblock, ho.unplaced]
    show (do let placed ← r.image.embed none block.toBytes; return _) = _
    rw [Image.embed, h.nextAligned_of_full ho.full]
    rfl
  rw [run_eq ho.writes, hplace]
  split
  · next hv => rw [ho.matched hv]; rfl
  · rfl

theorem place_fails (h : r.image.Canonical) : FailsWith (Error.DueTo False
    ((∃ block, ValidationBlock.ofSignature r.magic r.publicKey r.signature = .ok block) ∧
      r.offset = none ∧ r.image.Full)) r.place := by
  rw [place]
  cases hb : ValidationBlock.ofSignature r.magic r.publicKey r.signature with
  | error e => exact .plain ((ValidationBlock.ofSignature_plain ..).of_eq hb)
  | ok block =>
    show FailsWith _ (do let placed ← r.image.embed r.offset block.toBytes; return _)
    refine FailsWith.bind ((h.embed_fails r.offset block.toBytes).mono fun e he => ?_)
      fun _ => .pure _
    exact he.mono id fun hfull => ⟨⟨block, rfl⟩, hfull⟩

/-- **A request fails with a mismatch or an overflow** only for these reasons. -/
theorem run_fails (h : r.image.Canonical) :
    FailsWith (Error.DueTo r.Mismatch r.Overflows) r.run := by
  cases hw : r.hexPath.isNone && r.flatPath.isNone with
  | true =>
    rw [run, hw]
    exact .plain trivial
  | false =>
    have hplace (hm : r.verify = true →
        r.publicKey.verify r.image.flatten r.signature = .ok true) :
        FailsWith (Error.DueTo r.Mismatch r.Overflows) r.place :=
      (place_fails h).mono fun e he =>
        he.mono False.elim fun hb => ⟨hw, hm, hb.1, hb.2.1, hb.2.2⟩
    rw [run_eq hw]
    split
    · next hv =>
      cases hc : r.publicKey.verify r.image.flatten r.signature with
      | error e => exact .plain ((r.publicKey.verify_plain ..).of_eq hc)
      | ok matched =>
        cases matched with
        | true => exact hplace fun _ => hc
        | false => exact .mismatch ⟨hw, hv, hc⟩
    · next hv => exact hplace fun hv' => absurd hv' hv

end SealRequest

theorem FileTree.writeSealed_fails {r : SealRequest} (h : r.image.Canonical) (t : FileTree) :
    FailsWith (Error.DueTo r.Mismatch r.Overflows) (t.writeSealed r).2 := by
  have hall := (SealRequest.run_fails h).bind fun s =>
    ((r.outputs_plain s.image).mono fun e he => .plain he).bind fun outputs => .pure (s, outputs)
  rw [writeSealed]
  split
  · next hrun => exact hall.of_eq hrun
  · next s outputs _ =>
    split
    · exact .ok _
    · next hpersist =>
      exact .plain ((t.persist_plain outputs).of_eq (congrArg Prod.snd hpersist))

/-! ## Commands -/

namespace Command

/-- The request of a command that puts a block into an image, from what its files hold. -/
inductive Seals (t : FileTree) : Command → SealRequest → Prop where
  | intro {algorithm : SignatureAlgorithm} {signaturePath inputPath keyPath magicText : String}
      {offset : Option UInt32} {hexPath flatPath : Option String} {isChecked : Bool}
      {image : Image} {key : PublicKey} {signature : Bytes} {magic : Magic}
      (hmagic : Magic.ofText magicText = .ok magic)
      (hkey : PublicKey.load t keyPath algorithm = .ok key)
      (hsignature : t.readBytes signaturePath = .ok signature)
      (himage : Image.load t inputPath = .ok image) :
      Seals t (.validationData algorithm signaturePath inputPath keyPath magicText offset hexPath
        flatPath isChecked) ⟨image, key, signature, magic, offset, hexPath, flatPath, isChecked⟩

/-- The command reaches a check of a signature, and the signature does not match the
    flat image. -/
inductive Mismatch (t : FileTree) : Command → Prop where
  | verify {algorithm : SignatureAlgorithm} {keyPath inputPath signaturePath : String}
      {image : Image} {key : PublicKey} {signature : Bytes}
      (hkey : PublicKey.load t keyPath algorithm = .ok key)
      (himage : Image.load t inputPath = .ok image)
      (hsignature : t.readBytes signaturePath = .ok signature)
      (hmismatch : key.verify image.flatten signature = .ok false) :
      Mismatch t (.verify algorithm keyPath inputPath signaturePath)
  | sealing {c : Command} {r : SealRequest} (hr : c.Seals t r) (hmismatch : r.Mismatch) :
      Mismatch t c

/-- The command looks for the default place of a block in a full image. -/
def Overflows (t : FileTree) (c : Command) : Prop := ∃ r, c.Seals t r ∧ r.Overflows

variable {t : FileTree}

theorem Seals.canonical {c : Command} {r : SealRequest} (h : c.Seals t r) : r.image.Canonical := by
  cases h with
  | intro _ _ _ himage => exact Image.canonical_of_load himage

/-! ### Steps -/

theorem loadMessage_fails (path : String) : FailsWith (·.status = 1) (loadMessage t path) :=
  during_plain (Image.load_plain t path).map

theorem loadMessage_eq_ok {path : String} {message : Bytes} :
    loadMessage t path = .ok message ↔
      ∃ image, Image.load t path = .ok image ∧ image.flatten = message := by
  rw [loadMessage, during_eq_ok]
  cases Image.load t path with
  | ok image =>
    exact ⟨fun h => by cases h; exact ⟨image, rfl, rfl⟩, fun ⟨_, hi, h⟩ => by cases hi; cases h; rfl⟩
  | error => exact ⟨nofun, nofun⟩

theorem loadBytes_eq_ok {path : String} {content : Bytes} :
    loadBytes t path = .ok content ↔ t.readBytes path = .ok content := during_eq_ok

theorem loadBytes_fails (path : String) : FailsWith (·.status = 1) (loadBytes t path) :=
  .mapError_of_forall fun _ => rfl

theorem loadLayout_fails (configPath : Option String) (partitions : List String)
    (manifestPath : Option String) :
    FailsWith (·.status = 1) (loadLayout t configPath partitions manifestPath) := by
  have hconfig : ∀ {α : Type} (doing : List String) (x : Except ConfigError α),
      FailsWith (·.status = 1) (during .config doing x) := fun _ _ =>
    .mapError_of_forall fun _ => rfl
  rw [loadLayout.eq_def]
  split
  · exact (hconfig _ _).bind fun _ => (hconfig _ _).bind fun _ => .pure _
  · exact (hconfig _ _).bind fun _ => .pure _
  · exact rfl

theorem write_fails {x : Except Failure (List Output × List String)}
    (h : FailsWith (·.status = 1) x) : FailsWith (·.status = 1) (write t x).2 := by
  cases x with
  | error f => exact h
  | ok result => exact during_plain (t.persist_plain result.1).map

section
variable (t : FileTree) (algorithm : SignatureAlgorithm)
  (signaturePath inputPath keyPath magicText : String) (offset : Option UInt32)
  (hexPath flatPath : Option String) (isChecked : Bool)

/-- The request of a command that puts a block into an image, or why there is none. -/
def sealRequest : Except Failure SealRequest := do
  let magic ← during .error [] (Magic.ofText magicText)
  let key ← during .error ["Failed to load public key " ++ keyPath]
    (PublicKey.load t keyPath algorithm)
  let signature ← loadBytes t signaturePath
  let image ← during .error ["Failed to load image " ++ inputPath] (Image.load t inputPath)
  return ⟨image, key, signature, magic, offset, hexPath, flatPath, isChecked⟩

theorem sealRequest_fails : FailsWith (·.status = 1) (sealRequest t algorithm signaturePath
    inputPath keyPath magicText offset hexPath flatPath isChecked) :=
  (during_plain (Magic.ofText_plain _)).bind fun _ =>
    (during_plain (PublicKey.load_plain ..)).bind fun _ => (loadBytes_fails _).bind fun _ =>
      (during_plain (Image.load_plain ..)).bind fun _ => .pure _

theorem sealRequest_eq_ok_iff {r : SealRequest} :
    sealRequest t algorithm signaturePath inputPath keyPath magicText offset hexPath flatPath
        isChecked = .ok r ↔
      (Command.validationData algorithm signaturePath inputPath keyPath magicText offset hexPath
        flatPath isChecked).Seals t r := by
  constructor
  · intro h
    obtain ⟨magic, hmagic, h⟩ := bind_eq_ok.1 h
    obtain ⟨key, hkey, h⟩ := bind_eq_ok.1 h
    obtain ⟨signature, hsignature, h⟩ := bind_eq_ok.1 h
    obtain ⟨image, himage, h⟩ := bind_eq_ok.1 h
    cases h
    exact .intro (during_eq_ok.1 hmagic) (during_eq_ok.1 hkey) (loadBytes_eq_ok.1 hsignature)
      (during_eq_ok.1 himage)
  · rintro ⟨hmagic, hkey, hsignature, himage⟩
    exact bind_eq_ok.2 ⟨_, during_eq_ok.2 hmagic, bind_eq_ok.2 ⟨_, during_eq_ok.2 hkey,
      bind_eq_ok.2 ⟨_, loadBytes_eq_ok.2 hsignature, bind_eq_ok.2 ⟨_, during_eq_ok.2 himage, rfl⟩⟩⟩⟩

theorem run_validationData (fresh : Entropy) :
    ((Command.validationData algorithm signaturePath inputPath keyPath magicText offset hexPath
      flatPath isChecked).run fresh t).2 = (do
        let r ← sealRequest t algorithm signaturePath inputPath keyPath magicText offset hexPath
          flatPath isChecked
        during .error ["Failed to append validation data"] <| (t.writeSealed r).2.map fun s => [
          "Validation data (" ++ toString s.block.encodedSize ++ " bytes) placed at " ++
            Text.address s.offset.toNat]) := by
  rw [run, sealRequest]
  split
  · next h => rw [h]; rfl
  · next h => rw [h]; rfl

end

/-- The result of a command that puts a block into an image is that of its request. -/
theorem run_of_seals (fresh : Entropy) {c : Command} {r : SealRequest} (h : c.Seals t r) :
    ∃ lines : SealedImage → List String, (c.run fresh t).2 =
      during .error ["Failed to append validation data"] ((t.writeSealed r).2.map lines) := by
  have hc := h
  cases h with
  | intro =>
    rw [run_validationData, (sealRequest_eq_ok_iff ..).2 hc]
    exact ⟨_, rfl⟩

/-! ### Runs -/

variable (fresh : Entropy)

/-- A check of a signature, once everything is loaded. -/
theorem run_verify {algorithm : SignatureAlgorithm} {keyPath inputPath signaturePath : String} :
    ((Command.verify algorithm keyPath inputPath signaturePath).run fresh t).2 = (do
      let key ← during .error [] (PublicKey.load t keyPath algorithm)
      let message ← loadMessage t inputPath
      let signature ← loadBytes t signaturePath
      if ← during .error [] (key.verify message signature) then return ["Signature is valid!"]
      else throw ⟨[algorithm.name ++ " signature does not match " ++ inputPath],
        .error .verificationFailure⟩) := rfl

/-- **Failures of a command have the common status**, but for a mismatch and an
    overflow. -/
theorem run_fails (c : Command) :
    FailsWith (Failure.DueTo (c.Mismatch t) (c.Overflows t)) (c.run fresh t).2 := by
  have hcommon : ∀ {α : Type} {x : Except Failure α}, FailsWith (·.status = 1) x →
      FailsWith (Failure.DueTo (c.Mismatch t) (c.Overflows t)) x :=
    fun h => h.mono fun _ => .common
  cases c with
  | generateTable configPath partitions manifestPath address outputPath =>
    apply hcommon
    rw [run]
    split
    · next h => exact (loadLayout_fails ..).of_eq h
    · exact during_plain (t.writeTable_plain ..).map
  | verifyTable inputPath address =>
    rw [run]
    exact hcommon <| (during_plain (Image.load_plain ..)).bind fun image =>
      (during_plain (image.partitionTable_plain address)).bind fun _ => .pure _
  | keygen algorithm privatePath publicPath format =>
    have hwrite := t.writeKeys_plain (.generate algorithm fresh) privatePath publicPath format
    rw [run]
    -- The files of the keys are not evaluated.
    generalize t.writeKeys (.generate algorithm fresh) privatePath publicPath format = result
      at hwrite ⊢
    exact hcommon (during_plain hwrite.map)
  | hash =>
    rw [run]
    exact hcommon <| write_fails <| (during_plain (Image.load_plain ..)).bind fun _ => .pure _
  | sign algorithm keyPath inputPath outputPath isImage =>
    rw [run]
    refine hcommon <| write_fails <| (during_plain (PrivateKey.load_plain ..)).bind fun key =>
      (loadMessage_fails _).bind fun message => (during_plain ?_).bind fun _ => .pure _
    split
    · exact SignatureRecord.ofInput_plain ..
    · exact SignatureRecord.ofInput_plain ..
  | verify algorithm keyPath inputPath signaturePath =>
    rw [run_verify]
    refine FailsWith.bind_of_eq (hcommon (during_plain (PublicKey.load_plain ..)))
      fun key hkey => ?_
    refine FailsWith.bind_of_eq (hcommon (loadMessage_fails _)) fun message hmessage => ?_
    refine FailsWith.bind_of_eq (hcommon (loadBytes_fails _)) fun signature hsignature => ?_
    refine FailsWith.bind_of_eq (hcommon (during_plain (key.verify_plain ..)))
      fun matched hmatched => ?_
    cases matched with
    | true => exact .ok _
    | false =>
      obtain ⟨image, himage, rfl⟩ := loadMessage_eq_ok.1 hmessage
      exact .mismatch (.verify (during_eq_ok.1 hkey) himage (loadBytes_eq_ok.1 hsignature)
        (during_eq_ok.1 hmatched)) rfl
  | validationData algorithm signaturePath inputPath keyPath magicText offset hexPath flatPath
      isChecked =>
    rw [run_validationData]
    cases hr : sealRequest t algorithm signaturePath inputPath keyPath magicText offset hexPath
      flatPath isChecked with
    | error f => exact .common ((sealRequest_fails ..).of_eq hr)
    | ok r =>
      have hseals := (sealRequest_eq_ok_iff ..).1 hr
      refine during_dueTo ((t.writeSealed_fails hseals.canonical).mono fun e he => ?_).map
      exact he.mono (.sealing hseals) fun ho => ⟨r, hseals, ho⟩

/-- A command that reaches a mismatch fails with it. -/
theorem run_of_mismatch {c : Command} (h : c.Mismatch t) :
    ∃ f, (c.run fresh t).2 = .error f ∧ f.status = Failure.mismatchStatus := by
  cases h with
  | verify hkey himage hsignature hmismatch =>
    rw [run_verify, bind_of_eq_ok (during_eq_ok.2 hkey) rfl,
      bind_of_eq_ok (loadMessage_eq_ok.2 ⟨_, himage, rfl⟩) rfl,
      bind_of_eq_ok (loadBytes_eq_ok.2 hsignature) rfl, bind_of_eq_ok (during_eq_ok.2 hmismatch) rfl]
    exact ⟨_, rfl, rfl⟩
  | sealing hseals hmismatch =>
    obtain ⟨lines, hrun⟩ := run_of_seals fresh hseals
    rw [hrun, FileTree.writeSealed_of_error (SealRequest.run_of_mismatched hmismatch)]
    exact ⟨_, rfl, rfl⟩

theorem run_of_overflows {c : Command} (h : c.Overflows t) :
    ∃ f, (c.run fresh t).2 = .error f ∧ f.status = Failure.overflowStatus := by
  obtain ⟨r, hseals, ho⟩ := h
  obtain ⟨lines, hrun⟩ := run_of_seals fresh hseals
  rw [hrun, FileTree.writeSealed_of_error (SealRequest.run_of_overflows hseals.canonical ho)]
  exact ⟨_, rfl, rfl⟩

end Command

/-! ## Exit statuses -/

namespace Outcome

variable {fresh : Entropy} {t : FileTree} {arguments : List String}

theorem status_of_stop {stop : Command.Stop} (h : Command.ofArguments arguments = .error stop) :
    (ofArguments fresh t arguments).status = stop.status := by
  rw [ofArguments, h]

theorem status_of_ok {c : Command} {lines : List String}
    (h : Command.ofArguments arguments = .ok c) (hr : (c.run fresh t).2 = .ok lines) :
    (ofArguments fresh t arguments).status = 0 := by
  rw [ofArguments, h]
  dsimp only
  split
  · rfl
  · next hf => rw [hf] at hr; cases hr

theorem status_of_error {c : Command} {f : Failure}
    (h : Command.ofArguments arguments = .ok c) (hr : (c.run fresh t).2 = .error f) :
    (ofArguments fresh t arguments).status = f.status := by
  rw [ofArguments, h]
  dsimp only
  split
  · next hf => rw [hf] at hr; cases hr
  · next hf => rw [hf] at hr; cases hr; rfl

/-- **What the exit status tells**, for an argument list that is no request for help or
    the version. It is 2 exactly if the list is not in the grammar or a check of a
    signature found a mismatch, and 0 exactly if the command succeeded. Any other failure
    has the status 1, but for the default place of a block in a full image, where the
    arithmetic overflows. -/
theorem status_iff (fresh : Entropy) (t : FileTree) (arguments : List String)
    (hstop : ∀ stop, Command.ofArguments arguments = .error stop → stop = .usage) :
    let status := (ofArguments fresh t arguments).status
    (status = 2 ↔ Command.ofArguments arguments = .error .usage ∨
      ∃ c, Command.ofArguments arguments = .ok c ∧ c.Mismatch t) ∧
    (status = 0 ↔ ∃ c lines, Command.ofArguments arguments = .ok c ∧
      (c.run fresh t).2 = .ok lines) ∧
    (status = 101 ↔ ∃ c, Command.ofArguments arguments = .ok c ∧ c.Overflows t) ∧
    (status = 0 ∨ status = 1 ∨ status = 2 ∨ status = 101) := by
  intro status
  cases hc : Command.ofArguments arguments with
  | error stop =>
    obtain rfl := hstop stop hc
    have hstatus : status = 2 := status_of_stop hc
    simp [hstatus]
  | ok c =>
    have hsuccess : (∃ lines, (c.run fresh t).2 = .ok lines) → status = 0 :=
      fun ⟨lines, h⟩ => status_of_ok hc h
    have hmismatch : c.Mismatch t → status = 2 := fun h => by
      obtain ⟨f, hf, hs⟩ := c.run_of_mismatch fresh h
      exact (status_of_error hc hf).trans hs
    have hoverflow : c.Overflows t → status = 101 := fun h => by
      obtain ⟨f, hf, hs⟩ := c.run_of_overflows fresh h
      exact (status_of_error hc hf).trans hs
    have hcases : (∃ lines, (c.run fresh t).2 = .ok lines) ∨ status = 1 ∨ c.Mismatch t ∨
        c.Overflows t := by
      have hfails := c.run_fails (t := t) fresh
      cases hr : (c.run fresh t).2 with
      | ok lines => exact Or.inl ⟨lines, rfl⟩
      | error f =>
        rcases hfails.of_eq hr with h | ⟨h, -⟩ | ⟨h, -⟩
        · exact Or.inr (Or.inl ((status_of_error hc hr).trans h))
        · exact Or.inr (Or.inr (Or.inl h))
        · exact Or.inr (Or.inr (Or.inr h))
    simp only [reduceCtorEq, false_or, Except.ok.injEq, exists_and_left, exists_eq_left']
    generalize (∃ lines, (c.run fresh t).2 = .ok lines) = success at hsuccess hcases ⊢
    -- The four ends have different statuses, so that each is known by its own.
    grind

end Outcome

/-! ## A signature of zeros, and an unknown option -/

namespace ZeroSignature

/-- A key, an image and a signature with parts that are out of range. -/
def tree : FileTree := ⟨[], [
  (["k"], .file P256.generator.coordinates),
  (["i"], .file [1, 2, 3]),
  (["s"], .file (List.replicate 64 0))]⟩

def fresh : Entropy := ⟨⟨1, by decide, by decide⟩, ⟨List.replicate 32 0, rfl⟩, []⟩

def arguments : List String :=
  ["verify", "--algorithm", "p256", "--public-key", "k", "--input", "i", "--signature", "s"]

def command : Command := .verify .ecdsaP256 "k" "i" "s"

theorem ofArguments_arguments : Command.ofArguments arguments = .ok command :=
  eq_ok_of_toOption (by decide +kernel)

theorem mismatch_command : command.Mismatch tree := by
  have hkey : PublicKey.load tree "k" .ecdsaP256 = .ok (.ecdsaP256 P256.generator) :=
    eq_ok_of_toOption (by decide +kernel)
  have himage : Image.load tree "i" = .ok ⟨[.ofBytes 0 [1, 2, 3]]⟩ :=
    eq_ok_of_toOption (by decide +kernel)
  have hsignature : tree.readBytes "s" = .ok (List.replicate 64 0) :=
    eq_ok_of_toOption (by decide +kernel)
  have hraw : EcdsaSignature.ofRaw? (List.replicate 64 0) = none := by decide +kernel
  refine .verify hkey himage hsignature ?_
  rw [PublicKey.verify_of_length rfl, hraw]
  rfl

/-- The check of this signature ends a run with the status 2. -/
theorem status_arguments :
    (∀ stop, Command.ofArguments arguments = .error stop → stop = .usage) ∧
      (Outcome.ofArguments fresh tree arguments).status = 2 := by
  have hstop : ∀ stop, Command.ofArguments arguments = .error stop → stop = .usage :=
    fun stop h => by rw [ofArguments_arguments] at h; cases h
  exact ⟨hstop, (Outcome.status_iff fresh tree arguments hstop).1.2
    (Or.inr ⟨command, ofArguments_arguments, mismatch_command⟩)⟩

theorem ofArguments_unknown : Command.ofArguments ["keygen", "--bogus"] = .error .usage := by
  rfl

/-- The status 2 does not tell of a mismatch: an option that does not exist has it as
    well, though no command is carried out and no signature is looked at. -/
theorem status_two_without_check :
    ¬ ∀ (fresh : Entropy) (t : FileTree) (arguments : List String),
      (∀ stop, Command.ofArguments arguments = .error stop → stop = .usage) →
      ((Outcome.ofArguments fresh t arguments).status = 2 ↔
        ∃ c, Command.ofArguments arguments = .ok c ∧ c.Mismatch t) := by
  intro h
  have hstop : ∀ stop, Command.ofArguments ["keygen", "--bogus"] = .error stop → stop = .usage :=
    fun stop h => by rw [ofArguments_unknown] at h; cases h; rfl
  obtain ⟨c, hc, -⟩ := (h fresh tree _ hstop).1 (Outcome.status_of_stop ofArguments_unknown)
  rw [ofArguments_unknown] at hc
  cases hc

end ZeroSignature

end BootSeal
