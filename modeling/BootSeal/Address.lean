/-
  BootSeal — addresses: 32-bit words with arithmetic that reports a result
  outside their range instead of wrapping.
-/

namespace BootSeal

/-- The number of addresses: one past the last one. -/
def addressSpace : Nat := 0x100000000

namespace Address

/-- The word of a number, if it is in range. -/
def ofNat? (n : Nat) : Option UInt32 := if n < addressSpace then some (UInt32.ofNat n) else none

/-- The sum of two words, if it is in range. -/
def add? (a b : UInt32) : Option UInt32 := ofNat? (a.toNat + b.toNat)

/-- The difference of two words, if it is in range. -/
def sub? (a b : UInt32) : Option UInt32 := if b ≤ a then some (a - b) else none

/-- The product of two words, if it is in range. -/
def mul? (a b : UInt32) : Option UInt32 := ofNat? (a.toNat * b.toNat)

theorem ofNat?_eq_some_iff {n : Nat} {a : UInt32} : ofNat? n = some a ↔ a.toNat = n := by
  unfold ofNat? addressSpace
  constructor
  · intro h
    split at h
    · rename_i hn
      cases h
      exact UInt32.toNat_ofNat_of_lt' hn
    · cases h
  · rintro rfl
    rw [if_pos a.toNat_lt, UInt32.ofNat_toNat]

theorem add?_eq_some_iff {a b c : UInt32} : add? a b = some c ↔ c.toNat = a.toNat + b.toNat :=
  ofNat?_eq_some_iff

theorem sub?_eq_some_iff {a b c : UInt32} : sub? a b = some c ↔ c.toNat + b.toNat = a.toNat := by
  unfold sub?
  constructor
  · intro h
    split at h
    · rename_i hab
      cases h
      rw [UInt32.toNat_sub_of_le a b hab]
      exact Nat.sub_add_cancel (UInt32.le_iff_toNat_le.mp hab)
    · cases h
  · intro h
    have hab : b ≤ a := UInt32.le_iff_toNat_le.mpr (h ▸ Nat.le_add_left _ _)
    rw [if_pos hab, Option.some_inj, ← UInt32.toNat_inj, UInt32.toNat_sub_of_le a b hab, ← h,
      Nat.add_sub_cancel]

theorem mul?_eq_some_iff {a b c : UInt32} : mul? a b = some c ↔ c.toNat = a.toNat * b.toNat :=
  ofNat?_eq_some_iff

end Address

/-- A step of 32-bit arithmetic left its range where the computation has no
    answer for that. -/
inductive ArithmeticOverflow where
  | overflow
  deriving DecidableEq, Repr

end BootSeal
