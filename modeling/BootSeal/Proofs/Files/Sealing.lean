/-
  BootSeal — sealing with a check of the signature, in files and in memory.

  * `SealRequest.run_eq`: a request with an output checks the signature if it is to be
    checked, and then places the block;
  * `SealRequest.run_eq_ok`, `SealRequest.run_of_mismatch`: so it succeeds only with a
    block in place, and with a signature that matches if it is to be checked;
  * `sealed_of_verified`: whichever way is taken, a result is a sealed image, and
    where the check fails there is none and no file is touched.
-/
import BootSeal.Files.Sealing
import BootSeal.Proofs.Block.Sealed

namespace BootSeal

/-! ## Requests -/

namespace SealRequest

variable {r : SealRequest}

/-- The image with its block, once nothing speaks against it. -/
def place (r : SealRequest) : Except Error SealedImage := do
  let block ← ValidationBlock.ofSignature r.magic r.publicKey r.signature
  let placed ← r.image.embed r.offset block.toBytes
  return ⟨placed.1, placed.2, block⟩

theorem run_eq (hw : (r.hexPath.isNone && r.flatPath.isNone) = false) : r.run =
    if r.verify then do
      if ← r.publicKey.verify r.image.flatten r.signature then r.place
      else throw .verificationFailure
    else r.place := by
  rw [run, hw]
  cases r.verify with
  | false => rfl
  | true =>
    cases r.publicKey.verify r.image.flatten r.signature with
    | error => rfl
    | ok matched => cases matched <;> rfl

theorem place_eq_ok {s : SealedImage} (h : r.place = .ok s) :
    ValidationBlock.ofSignature r.magic r.publicKey r.signature = .ok s.block ∧
      r.image.embed r.offset s.block.toBytes = .ok (s.image, s.offset) := by
  obtain ⟨block, hb, h⟩ := bind_eq_ok.1 h
  obtain ⟨placed, he, h⟩ := bind_eq_ok.1 h
  cases h
  exact ⟨hb, he⟩

theorem run_eq_ok {s : SealedImage} (h : r.run = .ok s) :
    (r.verify = true → r.publicKey.verify r.image.flatten r.signature = .ok true) ∧
      ValidationBlock.ofSignature r.magic r.publicKey r.signature = .ok s.block ∧
      r.image.embed r.offset s.block.toBytes = .ok (s.image, s.offset) := by
  cases hw : r.hexPath.isNone && r.flatPath.isNone with
  | true => rw [run, hw] at h; cases h
  | false =>
    rw [run_eq hw] at h
    split at h
    · obtain ⟨matched, hc, h⟩ := bind_eq_ok.1 h
      cases matched with
      | true => exact ⟨fun _ => hc, place_eq_ok h⟩
      | false => cases h
    · next hv => exact ⟨fun hv' => absurd hv' hv, place_eq_ok h⟩

/-- Without any output to write, the signature is not even looked at. -/
theorem run_of_mismatch (hv : r.verify = true)
    (hc : r.publicKey.verify r.image.flatten r.signature = .ok false) :
    r.run = .error (if r.hexPath.isNone && r.flatPath.isNone then .io outputPath .noOutput
      else .verificationFailure) := by
  cases hw : r.hexPath.isNone && r.flatPath.isNone with
  | true => rw [run, hw]; rfl
  | false =>
    rw [run_eq hw, if_pos hv, hc]
    rfl

/-- The files of an image: its text if an Intel Hex file is asked for, and its flat bytes
    if a flat one is. -/
theorem outputs_eq_ok {image : Image} {outputs : List Output}
    (h : r.outputs image = .ok outputs) :
    ∃ text, (r.hexPath.isSome = true → image.toHex = .ok text) ∧
      outputs = (r.hexPath.map fun path => ⟨path, textContent text⟩).toList ++
        (r.flatPath.map fun path => ⟨path, image.flatten⟩).toList := by
  obtain ⟨hex, hhex, h⟩ := bind_eq_ok.1 h
  cases h
  cases hpath : r.hexPath with
  | none =>
    rw [hpath] at hhex
    cases hhex
    exact ⟨"", nofun, rfl⟩
  | some path =>
    rw [hpath] at hhex
    cases htext : image.toHex with
    | ok text =>
      rw [htext] at hhex
      cases hhex
      exact ⟨text, fun _ => rfl, rfl⟩
    | error => rw [htext] at hhex; cases hhex

end SealRequest

/-! ## Files -/

namespace FileTree

variable {t : FileTree} {r : SealRequest}

theorem writeSealed_eq_ok {t' : FileTree} {s : SealedImage}
    (h : t.writeSealed r = (t', .ok s)) :
    ∃ outputs, r.run = .ok s ∧ r.outputs s.image = .ok outputs ∧
      t.persist outputs = (t', .ok ()) := by
  rw [writeSealed] at h
  split at h
  · cases h
  · next hrun =>
    obtain ⟨s', hs, hrun⟩ := bind_eq_ok.1 hrun
    obtain ⟨outputs, houtputs, hrun⟩ := bind_eq_ok.1 hrun
    cases hrun
    split at h
    · next hpersist => cases h; exact ⟨_, hs, houtputs, hpersist⟩
    · cases h

theorem run_of_writeSealed {t' : FileTree} {s : SealedImage} (h : t.writeSealed r = (t', .ok s)) :
    r.run = .ok s := by
  obtain ⟨_, hrun, -⟩ := writeSealed_eq_ok h
  exact hrun

theorem writeSealed_of_error {e : Error} (h : r.run = .error e) :
    t.writeSealed r = (t, .error e) := by
  rw [writeSealed, h]; rfl

end FileTree

/-- **Verified sealing is sound.** A request that checks the signature, and the chain
    of states that goes through the check, give a sealed image if they give one. If
    the signature does not match, the request fails with the tree of files as it was,
    and the chain goes no further. -/
theorem sealed_of_verified :
    (∀ (r : SealRequest) (t : FileTree), r.image.Reachable → r.verify = true →
      (∀ t' s, t.writeSealed r = (t', .ok s) →
        Sealed r.image r.publicKey r.magic s.image s.offset s.block) ∧
      (r.publicKey.verify r.image.flatten r.signature = .ok false →
        t.writeSealed r = (t, .error (if r.hexPath.isNone && r.flatPath.isNone
          then .io SealRequest.outputPath .noOutput else .verificationFailure)))) ∧
    ∀ (u : Unsigned) (sk : PrivateKey) (entropy : Bytes) (signed : Signed) (key : PublicKey),
      u.image.Reachable → u.digest.sign sk entropy = .ok signed →
      (∀ v magic offset e, signed.verify key = .ok v → v.embed magic offset = .ok e →
        Sealed u.image key magic e.image e.offset e.block) ∧
      (key.verify u.image.flatten signed.record.signature = .ok false →
        signed.verify key = .error .verificationFailure) := by
  refine ⟨fun r t h hv => ⟨fun t' s hs => ?_, fun hc => ?_⟩,
    fun u sk entropy signed key h hs => ?_⟩
  · obtain ⟨hc, hb, he⟩ := SealRequest.run_eq_ok (FileTree.run_of_writeSealed hs)
    exact sealed_of_embed h.canonical (hc hv) hb he
  · exact FileTree.writeSealed_of_error (SealRequest.run_of_mismatch hv hc)
  · obtain ⟨himg, hmsg⟩ := Digested.sign_eq_ok hs
    have himg : signed.image = u.image := himg
    have hmsg : signed.message = u.image.flatten := hmsg
    refine ⟨fun v magic offset e hv he => ?_, fun hc => ?_⟩
    · rw [← himg]
      exact Verified.embed_sealed (himg ▸ h.canonical) (himg ▸ hmsg) hv he
    · exact Signed.verify_of_mismatch (hmsg ▸ hc)

/-! ## Three bytes, sealed in both ways -/

namespace ThreeBytes

def image : Image := Image.empty.after [.insert 0x1000 [1, 2, 3]]

def seed : Ed25519.Seed := ⟨List.replicate 32 7, rfl⟩

/-- The public half of the seed. -/
def key : PublicKey := .ed25519 ⟨.ofNatLE 32
  0x2cd2461469ea1e42927bbebeae764795f9c52e137b50f5be0a529ce2636c4aea, by decide +kernel⟩

/-- The request to write the image with a signature as a flat file. -/
def request (signature : Bytes) : SealRequest :=
  ⟨image, key, signature, ⟨1, 2, 3⟩, none, none, some "out", true⟩

/-- Signed, checked and embedded in memory, and once more by a request. -/
def sealBoth : Except Error SealedImage := do
  let signed ← (Unsigned.digest ⟨image, .ed25519⟩).sign (.ed25519 seed) []
  let v ← signed.verify key
  let _ ← v.embed ⟨1, 2, 3⟩ none
  (FileTree.writeSealed ⟨[], []⟩ (request signed.record.signature)).2

theorem sealBoth_toBool : sealBoth.toBool = true := by decide +kernel

/-- Both ways give a sealed image, by a key and its own signature. -/
theorem sealed_both_ways :
    image.Reachable ∧ ∃ signed v e t' s,
      (Unsigned.digest ⟨image, .ed25519⟩).sign (.ed25519 seed) [] = .ok signed ∧
      signed.verify key = .ok v ∧ v.embed ⟨1, 2, 3⟩ none = .ok e ∧
      FileTree.writeSealed ⟨[], []⟩ (request signed.record.signature) = (t', .ok s) ∧
      Sealed image key ⟨1, 2, 3⟩ e.image e.offset e.block ∧
      Sealed image key ⟨1, 2, 3⟩ s.image s.offset s.block := by
  have h : image.Reachable := ⟨_, rfl⟩
  obtain ⟨s, hall⟩ := exists_eq_ok_of_toBool sealBoth_toBool
  obtain ⟨signed, hs, hall⟩ := bind_eq_ok.1 hall
  obtain ⟨v, hv, hall⟩ := bind_eq_ok.1 hall
  obtain ⟨e, he, hall⟩ := bind_eq_ok.1 hall
  have hw : FileTree.writeSealed ⟨[], []⟩ (request signed.record.signature) =
      ((FileTree.writeSealed ⟨[], []⟩ (request signed.record.signature)).1, .ok s) := by rw [← hall]
  exact ⟨h, signed, v, e, _, s, hs, hv, he, hw,
    (sealed_of_verified.2 _ _ _ _ _ h hs).1 v _ _ e hv he,
    (sealed_of_verified.1 (request signed.record.signature) _ h rfl).1 _ s hw⟩

end ThreeBytes

end BootSeal
