/-
  BootSeal — a block that sealing appends is the one that a boot loader finds.

  * `found_of_appended`: it is found at its place exactly if no pattern comes before
    it, and so whenever the pattern does not overlap itself and is not in what stands
    before the block.
-/
import BootSeal.Proofs.Block.Search
import BootSeal.Proofs.Files.Sealing
import BootSeal.Proofs.Image.Flat

namespace BootSeal

/-- **An appended block is the one that is found.** It stands at position `p` of the
    flat image, behind the flat bytes of the input and less than a word of erased
    flash. The search gives it exactly if the pattern does not occur before that, for
    which it is enough that the pattern does not overlap itself and does not occur in
    the bytes that stand before the block. -/
theorem found_of_appended {r : SealRequest} {t t' : FileTree} {s : SealedImage}
    (hr : r.image.Reachable) (ho : r.offset = none) (h : t.writeSealed r = (t', .ok s)) :
    ∃ base p k, s.image.minAddress? = some base ∧ s.offset.toNat = base.toNat + p ∧ k < 4 ∧
      let before := r.image.flatten ++ List.replicate k Image.erased
      let found := ValidationBlock.find s.image.flatten r.magic r.publicKey.algorithm
      p = before.length ∧ s.image.flatten = before ++ s.block.toBytes ∧
      (found = .ok (some (p, s.block)) ↔ ∀ i < p, ¬ r.magic.OccursAt s.image.flatten i) ∧
      (r.magic.Borderless → (∀ i, ¬ r.magic.OccursAt before i) →
        found = .ok (some (p, s.block))) := by
  obtain ⟨-, hb, he⟩ := SealRequest.run_eq_ok (FileTree.run_of_writeSealed h)
  obtain ⟨hmagic, -, -⟩ := ValidationBlock.ofSignature_eq_ok hb
  rw [ho] at he
  obtain ⟨base, k, hbase, hk, ha, hflat⟩ :=
    hr.canonical.flatten_embed ValidationBlock.toBytes_ne_nil he
  have hiff := ValidationBlock.find_append_iff (ValidationBlock.parse_of_ofSignature hb)
    (r.image.flatten ++ List.replicate k Image.erased)
  rw [hmagic, ← hflat] at hiff
  refine ⟨base, _, k, hbase, ?_, hk, rfl, hflat, hiff, fun hm hn => hiff.2 fun i hi => ?_⟩
  · rw [ha, List.length_append, List.length_replicate]
  · rw [hflat]
    exact hm.not_occursAt hn (hmagic ▸ s.block.magic_prefix) hi

namespace ThreeBytes

/-- The request to seal three bytes with a signature that is not checked. -/
def uncheckedRequest : SealRequest :=
  { request (List.replicate 64 0) with verify := false }

theorem writeSealed_unchecked :
    (FileTree.writeSealed ⟨[], []⟩ uncheckedRequest).2.toOption.map
      (fun s => (s.image.minAddress?, s.offset)) = some (some 0x1000, 0x1004) := by decide +kernel

/-- The block of three bytes is found behind them and one byte of erased flash. -/
theorem found_behind_image : ∃ t' s,
    FileTree.writeSealed ⟨[], []⟩ uncheckedRequest = (t', .ok s) ∧
      ValidationBlock.find s.image.flatten ⟨1, 2, 3⟩ .ed25519 = .ok (some (4, s.block)) := by
  have hw := writeSealed_unchecked
  cases hr : FileTree.writeSealed ⟨[], []⟩ uncheckedRequest with
  | mk t' result =>
    rw [hr] at hw
    cases result with
    | error => cases hw
    | ok s =>
      obtain ⟨base, p, k, hbase, hp, -, hlen, -, -, hfound⟩ :=
        found_of_appended ⟨_, rfl⟩ rfl hr
      obtain ⟨hmin, hoffset⟩ := Prod.mk.inj (Option.some_inj.1 hw)
      rw [hmin, Option.some_inj] at hbase
      rw [hoffset, ← hbase] at hp
      have hp4 : p = 4 := Nat.add_left_cancel hp.symm
      subst hp4
      refine ⟨t', s, rfl, hfound (by decide) fun i hi => ?_⟩
      -- Four bytes are too few for the pattern.
      have hsize := hi.add_size_le
      rw [← hlen, Magic.size] at hsize
      omega

end ThreeBytes

end BootSeal
