/-
  BootSeal — what a verified block in an image is worth.

  * `Sealed` is what a boot loader relies on: the block is read at its address, it
    gives the key and a signature that this key accepts for the image that was
    signed, and that image is still there;
  * `sealed_of_embed`: the block of a key and of a signature that was checked under
    that key makes an image sealed, though the block holds neither as it was given;
  * `Signed.verify_eq_ok`, `Verified.embed_sealed`: so does the chain of states that
    goes through the check.
-/
import BootSeal.Block.Pipeline
import BootSeal.Proofs.Block.Codec
import BootSeal.Proofs.Image.Flat
import BootSeal.Proofs.Image.Read

namespace BootSeal

/-- `output` holds at `offset` a block by which `input` can be checked. -/
structure Sealed (input : Image) (key : PublicKey) (magic : Magic) (output : Image)
    (offset : UInt32) (block : ValidationBlock) : Prop where
  /-- The bytes at the address are those of the block. -/
  readBack : output.read? offset block.encodedSize = some block.toBytes
  /-- They parse as a block with the magic pattern, the key itself, and a signature
      that matches the flat bytes of the input under that key. -/
  checks : ∃ parsed k, ValidationBlock.parse block.toBytes key.algorithm = .ok parsed ∧
    parsed.magic = magic ∧ parsed.key key.algorithm = .ok k ∧ k = key ∧
    k.verify input.flatten parsed.signature = .ok true
  /-- What the input holds is unchanged. -/
  kept : ∀ a x, input.byteAt? a = some x → output.byteAt? a = some x
  /-- A block above the input leaves its flat bytes as they are and comes after. -/
  extended : (∀ a, input.Occupied a → a < offset.toNat) → input.flatten <+: output.flatten

/-! ## Embedding -/

section
variable {input output : Image} {key : PublicKey} {signature : Bytes} {magic : Magic}
  {offset : Option UInt32} {a : UInt32} {block : ValidationBlock}

theorem ValidationBlock.key_of_ofSignature (h : ofSignature magic key signature = .ok block) :
    block.key key.algorithm = .ok key := by
  rw [ValidationBlock.key, (ofSignature_eq_ok h).2.1, key.ofRaw_toRaw]

theorem ValidationBlock.parse_of_ofSignature (h : ofSignature magic key signature = .ok block) :
    parse block.toBytes key.algorithm = .ok block := by
  have hparse := parse_toBytes_append (sized_of_ofSignature h) []
  rwa [List.append_nil] at hparse

/-- **An image with the block of a checked signature is sealed.** -/
theorem sealed_of_embed (h : input.Canonical)
    (hv : key.verify input.flatten signature = .ok true)
    (hb : ValidationBlock.ofSignature magic key signature = .ok block)
    (he : input.embed offset block.toBytes = .ok (output, a)) :
    Sealed input key magic output a block := by
  obtain ⟨hmagic, -, hsig⟩ := ValidationBlock.ofSignature_eq_ok hb
  have hi := (Image.embed_eq_ok he).2
  refine ⟨?_, ?_, fun x b => Image.byteAt?_insert_of_some hi, h.flatten_prefix_insert hi⟩
  · rw [← ValidationBlock.length_toBytes]
    exact h.read?_insert ValidationBlock.toBytes_ne_nil hi
  · refine ⟨block, key, ValidationBlock.parse_of_ofSignature hb, hmagic,
      ValidationBlock.key_of_ofSignature hb, rfl, ?_⟩
    rw [PublicKey.verify_normalize hsig, hv]

end

/-! ## The chain of states -/

theorem Digested.sign_eq_ok {d : Digested} {sk : PrivateKey} {entropy : Bytes} {s : Signed}
    (h : d.sign sk entropy = .ok s) : s.image = d.image ∧ s.message = d.message := by
  obtain ⟨record, -, h⟩ := bind_eq_ok.1 h
  cases h
  exact ⟨rfl, rfl⟩

namespace Signed

variable {s : Signed} {key : PublicKey}

theorem verify_eq_ok {v : Verified} (h : s.verify key = .ok v) :
    v = ⟨s, key⟩ ∧ key.verify s.message s.record.signature = .ok true := by
  obtain ⟨matched, hc, h⟩ := bind_eq_ok.1 h
  cases matched with
  | true => cases h; exact ⟨rfl, hc⟩
  | false => cases h

theorem verify_of_mismatch (h : key.verify s.message s.record.signature = .ok false) :
    s.verify key = .error .verificationFailure := by
  rw [Signed.verify, h]; rfl

theorem embed_eq_ok {magic : Magic} {offset : Option UInt32} {e : Embedded}
    (h : s.embed key magic offset = .ok e) :
    ValidationBlock.ofSignature magic key s.record.signature = .ok e.block ∧
      s.image.embed offset e.block.toBytes = .ok (e.image, e.offset) := by
  obtain ⟨block, hb, h⟩ := bind_eq_ok.1 h
  obtain ⟨⟨image, a⟩, he, h⟩ := bind_eq_ok.1 h
  cases h
  exact ⟨hb, he⟩

end Signed

/-- **The way through the check makes an image sealed.** -/
theorem Verified.embed_sealed {s : Signed} {key : PublicKey} {v : Verified} {magic : Magic}
    {offset : Option UInt32} {e : Embedded} (hc : s.image.Canonical)
    (hm : s.message = s.image.flatten) (hv : s.verify key = .ok v)
    (he : v.embed magic offset = .ok e) :
    Sealed s.image key magic e.image e.offset e.block := by
  obtain ⟨rfl, hmatch⟩ := Signed.verify_eq_ok hv
  obtain ⟨hb, he⟩ := Signed.embed_eq_ok he
  exact sealed_of_embed hc (hm ▸ hmatch) hb he

end BootSeal
