/-
  BootSeal — validation blocks are written and read back, and read and written again.

  * `ValidationBlock.toBytes_eq_take_of_parse`: what was read is written back, and nothing
    behind it was looked at;
  * `ValidationBlock.codec_inverse`: both directions, for blocks and for the keys in them.
-/
import BootSeal.Proofs.Block.Sealed

namespace BootSeal

/-! ## Reading and writing -/

namespace ValidationBlock

/-- **A block that was read is written back** as the bytes that it was read from. -/
theorem toBytes_eq_take_of_parse {bytes : Bytes} {algorithm : SignatureAlgorithm}
    {block : ValidationBlock} (h : parse bytes algorithm = .ok block) :
    block.encodedSize ≤ bytes.length ∧ block.toBytes = bytes.take block.encodedSize := by
  obtain ⟨-, hpre⟩ := parse_eq_ok_iff.1 h
  have hlen := hpre.length_le
  rw [length_toBytes] at hlen
  refine ⟨hlen, ?_⟩
  rw [← length_toBytes]
  exact List.prefix_iff_eq_take.1 hpre

/-- **Writing and reading a block are inverse.** A block is made of every key and of every
    signature in a form of the algorithm of the key; whatever follows it, it is read back, and
    it gives the key. A block that is read at the start of a byte string is written as that
    start, and only a byte string that is too short for the three parts is refused. The keys in
    blocks are read back as well, and a key that is read is written as it was. -/
theorem codec_inverse (magic : Magic) (key : PublicKey) (signature suffix bytes : Bytes)
    (algorithm : SignatureAlgorithm) :
    ((∃ block, ofSignature magic key signature = .ok block) ↔ key.algorithm.Admits signature) ∧
    (∀ block, ofSignature magic key signature = .ok block →
      parse (block.toBytes ++ suffix) key.algorithm = .ok block ∧
      block.toBytes.length = block.encodedSize ∧
      block.key key.algorithm = .ok key) ∧
    (∀ block, parse bytes algorithm = .ok block →
      block.encodedSize ≤ bytes.length ∧ block.toBytes = bytes.take block.encodedSize) ∧
    ((∃ e, parse bytes algorithm = .error e) ↔
      bytes.length < 12 + algorithm.publicKeySize + 64) ∧
    PublicKey.ofRaw key.algorithm key.toRaw = .ok key ∧
    (∀ k, PublicKey.ofRaw algorithm bytes = .ok k → k.algorithm = algorithm ∧ k.toRaw = bytes) := by
  refine ⟨exists_ofSignature_iff, ?_, fun block h => toBytes_eq_take_of_parse h, ?_,
    key.ofRaw_toRaw, fun k h => PublicKey.toRaw_ofRaw h⟩
  · intro block h
    exact ⟨parse_toBytes_append (sized_of_ofSignature h) suffix, length_toBytes,
      key_of_ofSignature h⟩
  · rw [parse_fails_iff, algorithm.signatureSize_eq, Nat.add_assoc]
    rfl

end ValidationBlock

/-! ## A short signature and an unreduced point -/

namespace OddForms

def magic : Magic := ⟨0x474F5442, 0x2B1C0A5D, 0xD6E89F31⟩

/-- A DER signature of eight bytes, for a block that holds it in 64. -/
def signature : Bytes := [0x30, 0x06, 0x02, 0x01, 0x01, 0x02, 0x01, 0x01]

/-- The neutral element of Edwards25519 with the prime added to its second coordinate. -/
def point : Bytes := 0xEE :: (List.replicate 30 0xFF ++ [0x7F])

theorem admits_signature : SignatureAlgorithm.ecdsaP256.Admits signature :=
  Or.inr ⟨rfl, Option.isSome_iff_exists.1 (by decide +kernel)⟩

/-- Both go through a block and come out as they were. -/
theorem come_out_as_they_were :
    (∃ block, ValidationBlock.ofSignature magic (.ecdsaP256 P256.generator) signature = .ok block ∧
      ValidationBlock.parse (block.toBytes ++ [7]) .ecdsaP256 = .ok block ∧
      block.key .ecdsaP256 = .ok (.ecdsaP256 P256.generator)) ∧
    (∃ block, ValidationBlock.parse (List.replicate 109 7) .ed25519 = .ok block ∧
      block.toBytes = List.replicate 108 7) ∧
    ∃ k, PublicKey.ofRaw .ed25519 point = .ok k ∧ k.toRaw = point := by
  refine ⟨?_, ?_, ?_⟩
  · obtain ⟨hmade, hread, -⟩ := ValidationBlock.codec_inverse magic (.ecdsaP256 P256.generator)
      signature [7] [] .ecdsaP256
    obtain ⟨block, h⟩ := hmade.2 admits_signature
    exact ⟨block, h, (hread block h).1, (hread block h).2.2⟩
  · obtain ⟨-, -, hwrite, -⟩ := ValidationBlock.codec_inverse magic (.ecdsaP256 P256.generator)
      signature [7] (List.replicate 109 7) .ed25519
    exact ⟨_, rfl, (hwrite _ rfl).2⟩
  · obtain ⟨-, -, -, -, -, hkey⟩ := ValidationBlock.codec_inverse magic
      (.ecdsaP256 P256.generator) signature [7] point .ed25519
    have hpoint : (Edwards25519.Point.decompress? point).isSome := by decide +kernel
    have h : PublicKey.ofRaw .ed25519 point = .ok (.ed25519 ⟨point, hpoint⟩) := by
      rw [PublicKey.ofRaw, if_neg (by decide), Ed25519.PublicKey.ofBytes?, dif_pos hpoint]
    exact ⟨_, h, (hkey _ h).2⟩

end OddForms

end BootSeal
