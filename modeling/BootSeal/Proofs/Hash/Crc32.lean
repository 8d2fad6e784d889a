/-
  BootSeal — the checksum of a byte string tells of every short burst of damage.

  * `bitStep_xor`, `bitStep_injective`: a step of the register is linear and loses nothing;
  * `feed`: bits one after the other through the register, which is what a byte string
    does to it (`run_eq_feed`). At most 32 of them act as one word added to the register
    (`feed_eq_bitSteps`), so the register tells them apart (`feed_short_inj`);
  * `Bytes.Burst`: two byte strings differ, and only within 32 bits in a row. They never
    lead to the same register (`Bytes.Burst.run_ne`);
  * `crc32_eq_iff`: a byte string followed by its checksum always leads to the same
    register, so that no burst can keep the two in agreement (`crc32_ne_of_burst`), even
    one that reaches from the byte string into the checksum.
-/
import BootSeal.Hash.Crc32
import BootSeal.Proofs.Bytes
import Mathlib.Tactic.ByContra
import Mathlib.Tactic.SplitIfs

namespace BootSeal

namespace Crc32

/-! ## Steps of the register -/

/-- What a bit that leaves the register adds to it. -/
def feedback (b : Bool) : UInt32 := if b then polynomial else 0

theorem feedback_xor (a b : Bool) : feedback (a ^^ b) = feedback a ^^^ feedback b := by
  cases a <;> cases b <;> rfl

theorem bitStep_eq (r : UInt32) : bitStep r = (r >>> 1) ^^^ feedback (r.toNat.testBit 0) := by
  have hlow : r &&& 1 = 1 ↔ r.toNat.testBit 0 = true := by
    rw [← UInt32.toNat_inj, UInt32.toNat_and, Nat.testBit_zero, decide_eq_true_eq]
    show r.toNat &&& 1 = 1 ↔ _
    rw [Nat.and_one_is_mod]
  rw [bitStep, feedback]
  by_cases h : r.toNat.testBit 0 = true
  · rw [if_pos (hlow.2 h), if_pos h]
  · rw [if_neg (mt hlow.1 h), if_neg h, UInt32.xor_zero]

/-- **A step of the register is linear.** -/
theorem bitStep_xor (a b : UInt32) : bitStep (a ^^^ b) = bitStep a ^^^ bitStep b := by
  rw [bitStep_eq, bitStep_eq, bitStep_eq, UInt32.toNat_xor, Nat.testBit_xor, UInt32.shiftRight_xor,
    feedback_xor]
  ac_rfl

theorem toNat_shiftRight_one (r : UInt32) : (r >>> 1).toNat = r.toNat / 2 := by
  rw [UInt32.toNat_shiftRight]
  exact Nat.shiftRight_eq_div_pow _ 1

/-- Only the zero register steps to zero: the polynomial has the bit that a shift clears. -/
theorem bitStep_eq_zero {r : UInt32} (h : bitStep r = 0) : r = 0 := by
  have hr := r.toNat_lt
  have hshift := toNat_shiftRight_one r
  rw [bitStep_eq, UInt32.xor_eq_zero_iff] at h
  cases hlow : r.toNat.testBit 0 with
  | true =>
    have hp : (feedback true).toNat = 0xedb88320 := rfl
    rw [h, hlow] at hshift
    omega
  | false =>
    have hzero : (feedback false).toNat = 0 := rfl
    rw [h, hlow] at hshift
    rw [Nat.testBit_zero, decide_eq_false_iff_not] at hlow
    rw [← UInt32.toNat_inj]
    show r.toNat = 0
    omega

theorem bitStep_injective : Function.Injective bitStep := by
  intro a b hab
  rw [← UInt32.xor_eq_zero_iff]
  apply bitStep_eq_zero
  rw [bitStep_xor, hab, UInt32.xor_self]

theorem bitSteps_injective (n : Nat) : Function.Injective (bitSteps n) := by
  induction n with
  | zero => intro a b hab; exact hab
  | succ n ih => intro a b hab; exact bitStep_injective (ih hab)

/-! ## Bits one after the other -/

/-- Bits through the register, each added to its lowest place first. -/
def feed (r : UInt32) (bits : List Bool) : UInt32 :=
  bits.foldl (fun r b => bitStep (r ^^^ b.toUInt32)) r

theorem feed_cons (r : UInt32) (b : Bool) (rest : List Bool) :
    feed r (b :: rest) = feed (bitStep (r ^^^ b.toUInt32)) rest := rfl

theorem feed_append (r : UInt32) (a b : List Bool) : feed r (a ++ b) = feed (feed r a) b :=
  List.foldl_append

/-- The word of the bits, the first of them lowest. -/
def wordOf (bits : List Bool) : UInt32 := UInt32.ofNat (Bytes.natOfBits bits)

theorem toNat_wordOf {bits : List Bool} (h : bits.length ≤ 32) :
    (wordOf bits).toNat = Bytes.natOfBits bits := by
  have hpow : Nat.pow 2 bits.length ≤ Nat.pow 2 32 := Nat.pow_le_pow_right (by decide) h
  exact UInt32.toNat_ofNat_of_lt' (Nat.lt_of_lt_of_le (Bytes.natOfBits_lt bits) hpow)

/-- The first bit leaves the register, and the others take its place. -/
theorem bitStep_wordOf {b : Bool} {rest : List Bool} (h : rest.length < 32) :
    bitStep (wordOf (b :: rest)) = bitStep b.toUInt32 ^^^ wordOf rest := by
  have hb := b.toNat_le
  have hall : (wordOf (b :: rest)).toNat = b.toNat + 2 * Bytes.natOfBits rest := toNat_wordOf h
  have hrest := toNat_wordOf (Nat.le_of_lt h)
  have hshift : wordOf (b :: rest) >>> 1 = wordOf rest := by
    rw [← UInt32.toNat_inj, toNat_shiftRight_one, hall, hrest]
    omega
  have hlow : (wordOf (b :: rest)).toNat.testBit 0 = b := by
    rw [hall, Nat.testBit_zero, Nat.add_mul_mod_self_left]
    cases b <;> rfl
  have hfirst : bitStep b.toUInt32 = feedback b := by
    cases b <;> rfl
  rw [bitStep_eq, hshift, hlow, hfirst, UInt32.xor_comm]

/-- **At most 32 bits** go through the register as if they were added to it at once. -/
theorem feed_eq_bitSteps (r : UInt32) {bits : List Bool} (h : bits.length ≤ 32) :
    feed r bits = bitSteps bits.length (r ^^^ wordOf bits) := by
  induction bits generalizing r with
  | nil => exact UInt32.xor_zero.symm
  | cons b rest ih =>
    rw [feed_cons, ih _ (Nat.le_of_lt h), List.length_cons, bitSteps, bitStep_xor r (wordOf _),
      bitStep_wordOf h, bitStep_xor, UInt32.xor_assoc]

theorem feed_injective (bits : List Bool) : Function.Injective fun r => feed r bits := by
  induction bits with
  | nil => intro a b hab; exact hab
  | cons bit rest ih =>
    intro a b hab
    exact (UInt32.xor_left_inj _).1 (bitStep_injective (ih hab))

/-- **A register tells apart what was fed**, up to 32 bits. -/
theorem feed_short_inj {r : UInt32} {a b : List Bool} (hlen : a.length = b.length)
    (h32 : a.length ≤ 32) (h : feed r a = feed r b) : a = b := by
  rw [feed_eq_bitSteps r h32, feed_eq_bitSteps r (hlen ▸ h32), hlen] at h
  have hword := (UInt32.xor_right_inj _).1 (bitSteps_injective _ h)
  refine Bytes.natOfBits_inj hlen ?_
  rw [← toNat_wordOf h32, hword, toNat_wordOf (hlen ▸ h32)]

/-! ## Byte strings -/

theorem wordOf_bitsOfNat {width n : Nat} {w : UInt32} (hn : n < Nat.pow 2 width)
    (hw : w.toNat = n) : wordOf (Bytes.bitsOfNat width n) = w := by
  rw [wordOf, Bytes.natOfBits_bitsOfNat hn, ← hw, UInt32.ofNat_toNat]

/-- **A byte string acts on the register bit by bit.** -/
theorem run_eq_feed (r : UInt32) (b : Bytes) : run r b = feed r b.bits := by
  induction b generalizing r with
  | nil => rfl
  | cons x rest ih =>
    have hx : wordOf (Bytes.bitsOfNat 8 x.toNat) = x.toUInt32 :=
      wordOf_bitsOfNat x.toNat_lt x.toNat_toUInt32
    have hbyte : feed r (Bytes.bitsOfNat 8 x.toNat) = byteStep r x := by
      rw [feed_eq_bitSteps r (by rw [Bytes.length_bitsOfNat]; decide), Bytes.length_bitsOfNat, hx,
        byteStep]
    rw [Bytes.bits_cons, feed_append, hbyte, ← ih]
    rfl

theorem run_append (r : UInt32) (a b : Bytes) : run r (a ++ b) = run (run r a) b :=
  List.foldl_append

/-- A word in four bytes acts on the register as if it were added at once. -/
theorem run_ofWord (r w : UInt32) : run r (Bytes.ofWord w) = bitSteps 32 (r ^^^ w) := by
  have hw : wordOf (Bytes.bitsOfNat 32 w.toNat) = w := wordOf_bitsOfNat w.toNat_lt rfl
  rw [run_eq_feed, Bytes.ofWord, Bytes.bits_ofNatLE,
    feed_eq_bitSteps r (Nat.le_of_eq (Bytes.length_bitsOfNat 32 _)), Bytes.length_bitsOfNat, hw]

/-- What the register holds after a byte string and its checksum. -/
def residue : UInt32 := bitSteps 32 0xffffffff

end Crc32

open Crc32

/-- **A word is the checksum of a byte string** exactly if the two of them leave the
    residue in the register. -/
theorem crc32_eq_iff {b : Bytes} {w : UInt32} :
    crc32 b = w ↔ run 0xffffffff (b ++ Bytes.ofWord w) = residue := by
  have hones : (0xffffffff : UInt32) = -1 := rfl
  have hsum (r : UInt32) : r ^^^ w = 0xffffffff ↔ ~~~r = w := by
    rw [← UInt32.xor_right_inj r, ← UInt32.xor_assoc, UInt32.xor_self, UInt32.zero_xor, hones,
      UInt32.xor_neg_one]
    exact eq_comm
  rw [run_append, run_ofWord, residue, (bitSteps_injective 32).eq_iff, hsum, crc32]

/-- The published check value. -/
example : crc32 [0x31, 0x32, 0x33, 0x34, 0x35, 0x36, 0x37, 0x38, 0x39] = 0xcbf43926 := by
  decide +kernel

/-! ## Bursts -/

/-- Byte strings of one length differ, and all bits in which they do lie among the 32 from
    `first` on. -/
structure Bytes.Burst (a b : Bytes) (first : Nat) : Prop where
  length_eq : a.length = b.length
  ne : a ≠ b
  within : ∀ i, a.bits[i]? ≠ b.bits[i]? → first ≤ i ∧ i < first + 32

namespace Bytes.Burst

variable {a b : Bytes} {first : Nat} (h : Burst a b first)
include h

theorem getElem?_eq {i : Nat} (hi : i < first ∨ first + 32 ≤ i) : a.bits[i]? = b.bits[i]? := by
  by_contra hne
  have := h.within i hne
  omega

theorem take_eq : a.bits.take first = b.bits.take first := by
  refine List.ext_getElem? ?_
  intro i
  rw [List.getElem?_take, List.getElem?_take]
  split_ifs with hi
  · exact h.getElem?_eq (Or.inl hi)
  · rfl

theorem drop_eq : a.bits.drop (first + 32) = b.bits.drop (first + 32) := by
  refine List.ext_getElem? ?_
  intro i
  rw [List.getElem?_drop, List.getElem?_drop]
  exact h.getElem?_eq (Or.inr (Nat.le_add_right ..))

/-- **A burst changes the register.** What comes before it leads to the same register, the
    burst itself to different ones, and what comes after it keeps these apart. -/
theorem run_ne (r : UInt32) : run r a ≠ run r b := by
  have hsplit (l : List Bool) :
      l.take first ++ ((l.drop first).take 32 ++ l.drop (first + 32)) = l := by
    rw [← List.drop_drop, List.take_append_drop, List.take_append_drop]
  have hlen := h.length_eq
  intro heq
  rw [run_eq_feed, run_eq_feed, ← hsplit a.bits, ← hsplit b.bits] at heq
  simp only [feed_append, h.take_eq, h.drop_eq] at heq
  have hwindow := feed_injective _ heq
  have hmiddle : (a.bits.drop first).take 32 = (b.bits.drop first).take 32 := by
    refine feed_short_inj ?_ (List.length_take_le ..) hwindow
    rw [List.length_take, List.length_take, List.length_drop, List.length_drop, length_bits,
      length_bits, hlen]
  refine h.ne (bits_inj ?_)
  rw [← hsplit a.bits, ← hsplit b.bits, h.take_eq, hmiddle, h.drop_eq]

omit h in
/-- Bytes before both byte strings move a burst behind them. -/
theorem append_left (h : Burst a b first) (before : Bytes) :
    Burst (before ++ a) (before ++ b) (8 * before.length + first) := by
  refine ⟨?_, mt List.append_cancel_left h.ne, ?_⟩
  · rw [List.length_append, List.length_append, h.length_eq]
  · intro i hi
    rw [bits_append, bits_append] at hi
    by_cases hbefore : i < before.bits.length
    · rw [List.getElem?_append_left hbefore, List.getElem?_append_left hbefore] at hi
      exact absurd rfl hi
    · rw [Nat.not_lt] at hbefore
      rw [List.getElem?_append_right hbefore, List.getElem?_append_right hbefore] at hi
      have hwithin := h.within _ hi
      rw [length_bits] at hbefore hwithin
      omega

end Bytes.Burst

/-- **No burst goes unnoticed**: a byte string with its checksum and one that differs from
    it by a burst do not both agree. -/
theorem crc32_ne_of_burst {b b' : Bytes} {w : UInt32} {first : Nat}
    (h : Bytes.Burst (b' ++ Bytes.ofWord w) (b ++ Bytes.ofWord (crc32 b)) first) :
    crc32 b' ≠ w := by
  intro heq
  refine h.run_ne 0xffffffff ?_
  rw [crc32_eq_iff.1 heq, crc32_eq_iff.1 rfl]

end BootSeal
