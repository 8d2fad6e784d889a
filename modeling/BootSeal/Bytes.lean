/-
  BootSeal — byte strings, the raw material of images, tables, keys and
  signatures.

  * `Bytes.ofNatLE`, `Bytes.ofNatBE`: a number in a fixed number of bytes,
    in either byte order, with the readers `toNatLE` and `toNatBE`;
  * `Bytes.ofWord`, `Bytes.toWord`: 32-bit words, least significant byte first,
    the order of every multi-byte field on flash;
  * `Bytes.slice?`: a run of bytes, if all of it is there.
-/

namespace BootSeal

/-- A byte string. -/
abbrev Bytes := List UInt8

namespace Bytes

/-! ## Numbers -/

/-- The `width` low bytes of a number, least significant first. -/
def ofNatLE : (width : Nat) → Nat → Bytes
  | 0, _ => []
  | width + 1, n => UInt8.ofNat n :: ofNatLE width (n / 256)

/-- The `width` low bytes of a number, most significant first. -/
def ofNatBE (width n : Nat) : Bytes := (ofNatLE width n).reverse

/-- The number a byte string denotes, least significant byte first. -/
def toNatLE (b : Bytes) : Nat := b.foldr (fun x n => x.toNat + 256 * n) 0

/-- The number a byte string denotes, most significant byte first. -/
def toNatBE (b : Bytes) : Nat := b.foldl (fun n x => 256 * n + x.toNat) 0

@[simp] theorem length_ofNatLE (width n : Nat) : (ofNatLE width n).length = width := by
  induction width generalizing n with
  | zero => rfl
  | succ width ih => simp [ofNatLE, ih]

@[simp] theorem length_ofNatBE (width n : Nat) : (ofNatBE width n).length = width := by
  simp [ofNatBE]

/-- Reading back the low bytes of a number gives the number modulo their
    range. -/
theorem toNatLE_ofNatLE (width n : Nat) : toNatLE (ofNatLE width n) = n % Nat.pow 256 width := by
  induction width generalizing n with
  | zero => simp [ofNatLE, toNatLE, Nat.mod_one]
  | succ width ih =>
    have ih := ih (n / 256)
    simp only [toNatLE] at ih
    simp only [ofNatLE, toNatLE, List.foldr_cons, ih, UInt8.toNat_ofNat']
    have h : n % Nat.pow 256 (width + 1) = n % 256 + 256 * (n / 256 % Nat.pow 256 width) := by
      rw [Nat.pow_eq, Nat.pow_eq, Nat.pow_succ, Nat.mul_comm _ 256, Nat.mod_mul]
    exact h.symm

/-- A 32-bit word in four bytes, least significant first. -/
def ofWord (w : UInt32) : Bytes := ofNatLE 4 w.toNat

/-- The 32-bit word in the first four bytes, least significant first. -/
def toWord (b : Bytes) : UInt32 := UInt32.ofNat (toNatLE (b.take 4))

@[simp] theorem length_ofWord (w : UInt32) : (ofWord w).length = 4 := by simp [ofWord]

theorem toWord_ofWord (w : UInt32) : toWord (ofWord w) = w := by
  have h : (ofWord w).take 4 = ofWord w := List.take_of_length_le (by simp)
  have hw := w.toNat_lt
  rw [toWord, h, ofWord, toNatLE_ofNatLE, Nat.mod_eq_of_lt (by simpa using hw), UInt32.ofNat_toNat]

/-! ## Slices -/

/-- The `length` bytes from `offset` on, if the byte string has them all. -/
def slice? (b : Bytes) (offset length : Nat) : Option Bytes :=
  if offset + length ≤ b.length then some ((b.drop offset).take length) else none

/-- The first `count` pieces of `size` bytes each. -/
def chunks (size : Nat) : (count : Nat) → Bytes → List Bytes
  | 0, _ => []
  | count + 1, b => b.take size :: chunks size count (b.drop size)

/-! ## Hexadecimal -/

/-- The two hexadecimal digits of a byte, in the given digit alphabet. -/
def hexPair (alphabet : Nat → Char) (x : UInt8) : List Char :=
  [alphabet (x.toNat / 16), alphabet (x.toNat % 16)]

/-- Lower-case hexadecimal text, two digits a byte. -/
def toHex (b : Bytes) : String := String.ofList (b.flatMap (hexPair Nat.digitChar))

end Bytes

end BootSeal
