/-
  BootSeal — a validation block is read back from its bytes.

  * `Magic.ofBytes_toBytes_append`: the pattern at the start of a byte string, and
    `Magic.toBytes_ofBytes`: the other way round;
  * `ValidationBlock.Sized`: a block whose parts have the sizes of an algorithm. The parser
    takes such blocks, exactly where one starts a byte string
    (`ValidationBlock.parse_eq_ok_iff`), and fails exactly on those that are too short
    (`ValidationBlock.parse_fails_iff`);
  * `ValidationBlock.ofSignature_eq_ok`: what the block of a key and a signature
    holds, so that its parts have these sizes (`sized_of_ofSignature`).
-/
import BootSeal.Block.Basic
import BootSeal.Proofs.Key.Raw
import BootSeal.Proofs.Result
import BootSeal.Proofs.Signature.Scheme
import Mathlib.Tactic.ByContra
import Mathlib.Tactic.SplitIfs

namespace BootSeal

/-! ## Patterns -/

namespace Magic

theorem toBytes_eq (m : Magic) :
    m.toBytes = Bytes.ofWord m.first ++ (Bytes.ofWord m.second ++ Bytes.ofWord m.third) := by
  simp [toBytes, words]

@[simp] theorem length_toBytes (m : Magic) : m.toBytes.length = size := by
  simp [toBytes_eq, size]

/-- The pattern is read back, whatever follows it. -/
theorem ofBytes_toBytes_append (m : Magic) (rest : Bytes) : ofBytes (m.toBytes ++ rest) = m := by
  have hfirst : (Bytes.ofWord m.first).length = 4 := Bytes.length_ofWord _
  have hsecond : (Bytes.ofWord m.second).length = 4 := Bytes.length_ofWord _
  have h8 : m.toBytes ++ rest = (Bytes.ofWord m.first ++ Bytes.ofWord m.second) ++
      (Bytes.ofWord m.third ++ rest) := by
    simp only [toBytes_eq, List.append_assoc]
  have h4 : m.toBytes ++ rest = Bytes.ofWord m.first ++
      (Bytes.ofWord m.second ++ (Bytes.ofWord m.third ++ rest)) := by
    simp only [toBytes_eq, List.append_assoc]
  have drop8 : (m.toBytes ++ rest).drop 8 = Bytes.ofWord m.third ++ rest := by
    rw [h8, List.drop_left' (by rw [List.length_append, hfirst, hsecond])]
  have drop4 : (m.toBytes ++ rest).drop 4 =
      Bytes.ofWord m.second ++ (Bytes.ofWord m.third ++ rest) := by
    rw [h4, List.drop_left' hfirst]
  rw [ofBytes, drop4, drop8, h4]
  simp only [Bytes.toWord_ofWord_append]

/-- The pattern at the start of a byte string is written back. -/
theorem toBytes_ofBytes {b : Bytes} (h : size ≤ b.length) : (ofBytes b).toBytes = b.take size := by
  have hlong : 12 ≤ b.length := h
  have hparts : b.take 12 = b.take 4 ++ ((b.drop 4).take 4 ++ (b.drop 8).take 4) := by
    rw [List.take_add (i := 4) (j := 8), List.take_add (i := 4) (j := 4), List.drop_drop]
  have hsecond : 4 ≤ (b.drop 4).length := by
    rw [List.length_drop]
    omega
  have hthird : 4 ≤ (b.drop 8).length := by
    rw [List.length_drop]
    omega
  rw [toBytes_eq, ofBytes, Bytes.ofWord_toWord (by omega), Bytes.ofWord_toWord hsecond,
    Bytes.ofWord_toWord hthird, size, hparts]

end Magic

/-! ## Blocks -/

namespace ValidationBlock

variable {b : ValidationBlock}

theorem length_toBytes : b.toBytes.length = b.encodedSize := by
  simp only [toBytes, encodedSize, List.length_append, Magic.length_toBytes]

theorem toBytes_ne_nil : b.toBytes ≠ [] := by
  refine List.ne_nil_of_length_pos ?_
  rw [length_toBytes, encodedSize, Magic.size]
  omega

/-- The parts of the block have the sizes of an algorithm. -/
structure Sized (b : ValidationBlock) (algorithm : SignatureAlgorithm) : Prop where
  publicKey : b.publicKey.length = algorithm.publicKeySize
  signature : b.signature.length = algorithm.signatureSize

section
variable {algorithm : SignatureAlgorithm}

/-- **A block is read back from its bytes**, whatever follows them. -/
theorem parse_toBytes_append (h : b.Sized algorithm) (rest : Bytes) :
    parse (b.toBytes ++ rest) algorithm = .ok b := by
  have heq : b.toBytes ++ rest = b.magic.toBytes ++ (b.publicKey ++ (b.signature ++ rest)) := by
    simp only [toBytes, List.append_assoc]
  have hdrop : (b.toBytes ++ rest).drop Magic.size = b.publicKey ++ (b.signature ++ rest) := by
    rw [heq, List.drop_left' b.magic.length_toBytes]
  have hmagic : Magic.ofBytes (b.toBytes ++ rest) = b.magic := by
    rw [heq, Magic.ofBytes_toBytes_append]
  have hlong : ¬ (b.toBytes ++ rest).length < Magic.size := by
    rw [heq, List.length_append, Magic.length_toBytes]; omega
  have hrest : ¬ (b.publicKey ++ (b.signature ++ rest)).length <
      algorithm.publicKeySize + algorithm.signatureSize := by
    rw [List.length_append, List.length_append, h.publicKey, h.signature]; omega
  simp only [parse, hdrop, if_neg hlong, if_neg hrest, hmagic, List.take_left' h.publicKey,
    List.drop_left' h.publicKey, List.take_left' h.signature]

/-- **A block is read where a sized one starts the byte string.** -/
theorem parse_eq_ok_iff {bytes : Bytes} :
    parse bytes algorithm = .ok b ↔ b.Sized algorithm ∧ b.toBytes <+: bytes := by
  constructor
  · intro h
    simp only [parse] at h
    split_ifs at h with hmagic hrest
    cases h
    rw [List.length_drop] at hrest
    refine ⟨⟨?_, ?_⟩, ?_⟩
    · rw [List.length_take, List.length_drop]
      omega
    · rw [List.length_take, List.length_drop, List.length_drop]
      omega
    · rw [toBytes, Magic.toBytes_ofBytes (Nat.le_of_not_lt hmagic), ← List.take_add,
        List.drop_drop, ← List.take_add]
      exact List.take_prefix ..
  · rintro ⟨hsized, rest, rfl⟩
    exact parse_toBytes_append hsized rest

/-- **Only a byte string that is too short is refused.** -/
theorem parse_fails_iff {bytes : Bytes} : (∃ e, parse bytes algorithm = .error e) ↔
    bytes.length < Magic.size + (algorithm.publicKeySize + algorithm.signatureSize) := by
  have hlen : (bytes.drop Magic.size).length = bytes.length - Magic.size := List.length_drop
  simp only [parse]
  split_ifs with hmagic hrest
  · exact ⟨fun _ => by omega, fun _ => ⟨_, rfl⟩⟩
  · exact ⟨fun _ => by omega, fun _ => ⟨_, rfl⟩⟩
  · exact ⟨nofun, fun _ => by omega⟩

end

/-- The block of a key and a signature holds the encoding of the one and the
    fixed-width form of the other. -/
theorem ofSignature_eq_ok {magic : Magic} {k : PublicKey} {signature : Bytes}
    (h : ofSignature magic k signature = .ok b) :
    b.magic = magic ∧ b.publicKey = k.toRaw ∧
      k.algorithm.normalize signature = .ok b.signature := by
  obtain ⟨normal, hn, h⟩ := bind_eq_ok.1 h
  cases h
  exact ⟨rfl, rfl, hn⟩

theorem sized_of_ofSignature {magic : Magic} {k : PublicKey} {signature : Bytes}
    (h : ofSignature magic k signature = .ok b) : b.Sized k.algorithm := by
  obtain ⟨-, hk, hs⟩ := ofSignature_eq_ok h
  exact ⟨hk ▸ k.length_toRaw, SignatureAlgorithm.length_normalize hs⟩

/-- A block can be made of every signature, in whatever form it is. -/
theorem exists_ofSignature_iff {magic : Magic} {k : PublicKey} {signature : Bytes} :
    (∃ block, ofSignature magic k signature = .ok block) ↔ k.algorithm.Admits signature := by
  constructor
  · rintro ⟨block, h⟩
    by_contra hno
    obtain ⟨cause, herror⟩ := SignatureAlgorithm.normalize_of_not_admits hno
    rw [(ofSignature_eq_ok h).2.2] at herror
    cases herror
  · intro h
    obtain ⟨normal, hn⟩ := h.normalize
    exact ⟨_, bind_of_eq_ok hn rfl⟩

end ValidationBlock

end BootSeal
