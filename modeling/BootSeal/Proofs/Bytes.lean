/-
  BootSeal — numbers in a fixed number of bytes are read back: the readers of
  either byte order invert the writers on numbers that fit. What stands at an offset
  of a byte string is the slice there, and pieces of one size are taken apart again.

  * `Bytes.bits`: the bits of a byte string, least significant first in each byte. They
    tell the byte string (`bits_inj`), and those of a number in bytes are the low bits of
    the number (`bits_ofNatLE`).
-/
import BootSeal.Bytes

namespace BootSeal.Bytes

theorem toNatBE_reverse (b : Bytes) : toNatBE b.reverse = toNatLE b := by
  simp only [toNatBE, toNatLE, List.foldl_reverse, Nat.add_comm]

theorem toNatBE_ofNatBE {width n : Nat} (h : n < Nat.pow 256 width) :
    toNatBE (ofNatBE width n) = n := by
  rw [ofNatBE, toNatBE_reverse, toNatLE_ofNatLE, Nat.mod_eq_of_lt h]

theorem toNatBE_concat (b : Bytes) (x : UInt8) :
    toNatBE (b ++ [x]) = 256 * toNatBE b + x.toNat := by
  rw [toNatBE, List.foldl_append, ← toNatBE]
  rfl

theorem ofNatBE_succ (width n : Nat) :
    ofNatBE (width + 1) n = ofNatBE width (n / 256) ++ [UInt8.ofNat n] := by
  rw [ofNatBE, ofNatLE, List.reverse_cons, ← ofNatBE]

/-- A number that takes all of its bytes begins with one that is not zero. -/
theorem head?_ofNatBE {width n : Nat} (hlow : Nat.pow 256 width ≤ n)
    (hhigh : n < Nat.pow 256 (width + 1)) : (ofNatBE (width + 1) n).head? ≠ some 0 := by
  induction width generalizing n with
  | zero =>
    have hlow : 1 ≤ n := hlow
    have hn : (UInt8.ofNat n).toNat = n := UInt8.toNat_ofNat_of_lt' hhigh
    intro h
    have hzero : UInt8.ofNat n = 0 := Option.some_inj.1 h
    rw [hzero] at hn
    exact absurd hn (Nat.ne_of_lt hlow)
  | succ width ih =>
    have hlow : Nat.pow 256 width * 256 ≤ n := hlow
    have hhigh : n < Nat.pow 256 (width + 1) * 256 := hhigh
    have hsome : (ofNatBE (width + 1) (n / 256)).head?.isSome := by
      rw [List.isSome_head?]
      exact List.ne_nil_of_length_pos (by rw [length_ofNatBE]; omega)
    rw [ofNatBE_succ, List.head?_append, Option.or_of_isSome hsome]
    exact ih ((Nat.le_div_iff_mul_le (by decide)).2 hlow) (Nat.div_lt_of_lt_mul (by omega))

theorem toWord_ofWord_append (w : UInt32) (rest : Bytes) : toWord (ofWord w ++ rest) = w := by
  have h : (ofWord w ++ rest).take 4 = ofWord w := by
    rw [List.take_append_of_le_length (by simp), List.take_of_length_le (by simp)]
  have hw := toWord_ofWord w
  rw [toWord, List.take_of_length_le (by simp)] at hw
  rw [toWord, h, hw]

theorem toNatLE_cons (x : UInt8) (b : Bytes) : toNatLE (x :: b) = x.toNat + 256 * toNatLE b := rfl

/-- A byte string is written back from the number it denotes. -/
theorem ofNatLE_toNatLE (b : Bytes) : ofNatLE b.length (toNatLE b) = b := by
  induction b with
  | nil => rfl
  | cons x rest ih =>
    have hx := x.toNat_lt
    have hhead : UInt8.ofNat (x.toNat + 256 * toNatLE rest) = x := by
      rw [← UInt8.toNat_inj, UInt8.toNat_ofNat']
      omega
    have htail : (x.toNat + 256 * toNatLE rest) / 256 = toNatLE rest := by omega
    rw [toNatLE_cons, List.length_cons, ofNatLE, hhead, htail, ih]

theorem ofNatBE_toNatBE (b : Bytes) : ofNatBE b.length (toNatBE b) = b := by
  have hback := ofNatLE_toNatLE b.reverse
  rw [List.length_reverse, ← toNatBE_reverse, List.reverse_reverse] at hback
  rw [ofNatBE, hback, List.reverse_reverse]

theorem toNatLE_lt (b : Bytes) : toNatLE b < Nat.pow 256 b.length := by
  have h := toNatLE_ofNatLE b.length (toNatLE b)
  rw [ofNatLE_toNatLE] at h
  rw [h]
  exact Nat.mod_lt _ (Nat.pow_pos (by decide))

/-- Four bytes are written back from the word they denote. -/
theorem ofWord_toWord {b : Bytes} (h : 4 ≤ b.length) : ofWord (toWord b) = b.take 4 := by
  have hlen : (b.take 4).length = 4 := List.length_take_of_le h
  have hlt := toNatLE_lt (b.take 4)
  have hback := ofNatLE_toNatLE (b.take 4)
  rw [hlen] at hlt hback
  rw [ofWord, toWord, UInt32.toNat_ofNat_of_lt' hlt, hback]

theorem headD_take {b : Bytes} {n : Nat} (hn : 0 < n) : (b.take n).headD 0 = b.headD 0 := by
  rw [List.headD_eq_head?_getD, List.head?_take, if_neg (Nat.ne_of_gt hn), List.headD_eq_head?_getD]

theorem slice?_eq_some_iff {b d : Bytes} {offset length : Nat} :
    b.slice? offset length = some d ↔
      offset + length ≤ b.length ∧ (b.drop offset).take length = d := by
  rw [slice?]
  split
  · next hfit => rw [Option.some_inj]; exact ⟨fun h => ⟨hfit, h⟩, And.right⟩
  · next hfit => exact ⟨nofun, fun h => absurd h.1 hfit⟩

theorem slice?_eq_some {b d : Bytes} {offset : Nat} (hlen : offset + d.length ≤ b.length)
    (h : ∀ i < d.length, b[offset + i]? = d[i]?) : b.slice? offset d.length = some d := by
  rw [slice?, if_pos hlen, Option.some_inj]
  refine List.ext_getElem? fun i => ?_
  by_cases hi : i < d.length
  · rw [List.getElem?_take_of_lt hi, List.getElem?_drop, h i hi]
  · rw [List.getElem?_eq_none (by rw [List.length_take]; omega), List.getElem?_eq_none (by omega)]

theorem slice?_zero_append (b rest : Bytes) : (b ++ rest).slice? 0 b.length = some b := by
  rw [slice?, if_pos (by rw [List.length_append]; omega), List.drop_zero, List.take_left]

/-! ## Pieces of one size -/

section
variable {α : Type} {f : α → Bytes} {size : Nat} (hf : ∀ x, (f x).length = size)
include hf

theorem length_flatMap (l : List α) : (l.flatMap f).length = size * l.length := by
  induction l with
  | nil => rfl
  | cons x rest ih =>
    rw [List.flatMap_cons, List.length_append, hf, ih, List.length_cons, Nat.mul_succ, Nat.add_comm]

theorem chunks_flatMap (l : List α) (rest : Bytes) :
    chunks size l.length (l.flatMap f ++ rest) = l.map f := by
  induction l with
  | nil => rfl
  | cons x l ih =>
    rw [List.length_cons, chunks, List.flatMap_cons, List.append_assoc, List.take_left' (hf x),
      List.drop_left' (hf x), ih, List.map_cons]

end

theorem length_chunks (size count : Nat) (b : Bytes) : (chunks size count b).length = count := by
  induction count generalizing b with
  | zero => rfl
  | succ count ih => rw [chunks, List.length_cons, ih]

theorem flatten_chunks (size count : Nat) (b : Bytes) :
    (chunks size count b).flatten = b.take (size * count) := by
  induction count generalizing b with
  | zero => simp [chunks]
  | succ count ih => rw [chunks, List.flatten_cons, ih, Nat.mul_succ, Nat.add_comm, List.take_add]

theorem length_of_mem_chunks {size count : Nat} {b piece : Bytes}
    (h : size * count ≤ b.length) (hp : piece ∈ chunks size count b) : piece.length = size := by
  induction count generalizing b with
  | zero => cases hp
  | succ count ih =>
    rw [Nat.mul_succ] at h
    rw [chunks] at hp
    rcases List.mem_cons.1 hp with rfl | hp
    · rw [List.length_take]
      omega
    · exact ih (by rw [List.length_drop]; omega) hp

/-! ## Bits -/

/-- The `width` low bits of a number, least significant first. -/
def bitsOfNat (width n : Nat) : List Bool := (List.range width).map n.testBit

/-- The number that bits denote, least significant first. -/
def natOfBits (bits : List Bool) : Nat := bits.foldr (fun b n => b.toNat + 2 * n) 0

/-- The bits of a byte string, least significant first in each byte. -/
def bits (b : Bytes) : List Bool := b.flatMap fun x => bitsOfNat 8 x.toNat

@[simp] theorem length_bitsOfNat (width n : Nat) : (bitsOfNat width n).length = width := by
  simp [bitsOfNat]

theorem bitsOfNat_succ (width n : Nat) :
    bitsOfNat (width + 1) n = n.testBit 0 :: bitsOfNat width (n / 2) := by
  rw [bitsOfNat, List.range_succ_eq_map, List.map_cons, List.map_map, bitsOfNat]
  congr 1
  refine List.map_congr_left ?_
  intro i _
  exact Nat.testBit_succ n i

theorem bitsOfNat_add (width more n : Nat) :
    bitsOfNat (width + more) n = bitsOfNat width n ++ bitsOfNat more (n >>> width) := by
  rw [bitsOfNat, List.range_add, List.map_append, List.map_map, ← bitsOfNat, bitsOfNat]
  congr 1
  refine List.map_congr_left ?_
  intro i _
  rw [Nat.testBit_shiftRight, Function.comp_apply]

/-- The bits of a number modulo 256 are its first eight. -/
theorem bitsOfNat_toNat_ofNat (n : Nat) : bitsOfNat 8 (UInt8.ofNat n).toNat = bitsOfNat 8 n := by
  refine List.map_congr_left ?_
  intro i hi
  have hmod : (n % 256).testBit i = (decide (i < 8) && n.testBit i) :=
    Nat.testBit_mod_two_pow n 8 i
  rw [UInt8.toNat_ofNat', hmod, decide_eq_true (List.mem_range.1 hi), Bool.true_and]

theorem natOfBits_cons (b : Bool) (rest : List Bool) :
    natOfBits (b :: rest) = b.toNat + 2 * natOfBits rest := rfl

theorem natOfBits_bitsOfNat {width n : Nat} (h : n < Nat.pow 2 width) :
    natOfBits (bitsOfNat width n) = n := by
  induction width generalizing n with
  | zero => exact (Nat.lt_one_iff.1 h).symm
  | succ width ih =>
    have hhalf : n / 2 < Nat.pow 2 width := Nat.div_lt_of_lt_mul (Nat.mul_comm 2 _ ▸ h)
    have hlow : (n.testBit 0).toNat = n % 2 := by
      rw [Nat.testBit_zero]
      rcases Nat.mod_two_eq_zero_or_one n with h0 | h0 <;> simp [h0]
    rw [bitsOfNat_succ, natOfBits_cons, ih hhalf, hlow, Nat.mod_add_div]

theorem natOfBits_lt (bits : List Bool) : natOfBits bits < Nat.pow 2 bits.length := by
  induction bits with
  | nil => exact Nat.one_pos
  | cons b rest ih =>
    have hb := b.toNat_le
    have hpow : Nat.pow 2 (rest.length + 1) = Nat.pow 2 rest.length * 2 := rfl
    rw [natOfBits_cons, List.length_cons, hpow]
    omega

theorem natOfBits_inj {a b : List Bool} (hlen : a.length = b.length)
    (h : natOfBits a = natOfBits b) : a = b := by
  induction a generalizing b with
  | nil => exact (List.length_eq_zero_iff.1 hlen.symm).symm
  | cons x a ih =>
    cases b with
    | nil => cases hlen
    | cons y b =>
      rw [natOfBits_cons, natOfBits_cons] at h
      have hx := x.toNat_le
      have hy := y.toNat_le
      have hlow : x.toNat = y.toNat := by omega
      have hxy : x = y := by
        revert hlow
        cases x <;> cases y <;> decide
      rw [hxy, ih (Nat.succ.inj hlen) (by omega)]

@[simp] theorem bits_nil : bits [] = [] := rfl

theorem bits_cons (x : UInt8) (b : Bytes) : bits (x :: b) = bitsOfNat 8 x.toNat ++ bits b := rfl

theorem bits_append (a b : Bytes) : bits (a ++ b) = bits a ++ bits b := List.flatMap_append

theorem length_bits (b : Bytes) : (bits b).length = 8 * b.length := by
  induction b with
  | nil => rfl
  | cons x rest ih =>
    rw [bits_cons, List.length_append, length_bitsOfNat, ih, List.length_cons]
    omega

theorem bits_inj {a b : Bytes} (h : bits a = bits b) : a = b := by
  induction a generalizing b with
  | nil =>
    have hlen := length_bits b
    rw [← h, bits_nil, List.length_nil] at hlen
    exact (List.length_eq_zero_iff.1 (by omega)).symm
  | cons x a ih =>
    cases b with
    | nil =>
      rw [bits_cons, bits_nil] at h
      cases (List.append_eq_nil_iff.1 h).1
    | cons y b =>
      rw [bits_cons, bits_cons] at h
      obtain ⟨hx, hrest⟩ := List.append_inj h (by rw [length_bitsOfNat, length_bitsOfNat])
      have hbyte (z : UInt8) : natOfBits (bitsOfNat 8 z.toNat) = z.toNat :=
        natOfBits_bitsOfNat z.toNat_lt
      have hxy : x.toNat = y.toNat := by rw [← hbyte x, hx, hbyte y]
      rw [UInt8.toNat_inj.1 hxy, ih hrest]

/-- The bits of a number in bytes are its own. -/
theorem bits_ofNatLE (width n : Nat) : bits (ofNatLE width n) = bitsOfNat (8 * width) n := by
  induction width generalizing n with
  | zero => rfl
  | succ width ih =>
    have hwidth : 8 * (width + 1) = 8 + 8 * width := by omega
    have hrest : n >>> 8 = n / 256 := by omega
    rw [ofNatLE, bits_cons, bitsOfNat_toNat_ofNat, ih, hwidth, bitsOfNat_add, hrest]

end BootSeal.Bytes
