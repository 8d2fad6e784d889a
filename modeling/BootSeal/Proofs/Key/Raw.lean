/-
  BootSeal — the encoding of public keys inside validation blocks: it has the size
  of its algorithm (`PublicKey.length_toRaw`), it is read back as the same key
  (`PublicKey.ofRaw_toRaw`), and no other byte string is (`PublicKey.toRaw_ofRaw`).
-/
import BootSeal.Key.Basic
import BootSeal.Proofs.Bytes
import BootSeal.Proofs.Result
import Mathlib.Tactic.ByContra
import Mathlib.Tactic.SplitIfs

namespace BootSeal

/-! ## P-256 -/

namespace P256

theorem Field.ofBytes?_toBytes (x : Field) : Field.ofBytes? (Field.toBytes x) = some x := by
  have hx : (Field.toBytes x).toNatBE = x.val :=
    Bytes.toNatBE_ofNatBE (Nat.lt_trans x.isLt (by decide))
  rw [Field.ofBytes?, dif_pos (hx ▸ x.isLt)]
  simp only [hx]

@[simp] theorem Field.length_toBytes (x : Field) : (Field.toBytes x).length = width :=
  Bytes.length_ofNatBE ..

theorem Point.ofCoordinates?_eq_some (p : Point) : ofCoordinates? p.x p.y = some p :=
  dif_pos p.onCurve

@[simp] theorem Point.length_coordinates (p : Point) : p.coordinates.length = 2 * width := by
  rw [coordinates, List.length_append, Field.length_toBytes, Field.length_toBytes, Nat.two_mul]

/-- Both coordinates are read back as the point. -/
theorem Point.ofCoordinateBytes?_coordinates (p : Point) :
    ofCoordinateBytes? p.coordinates = some p := by
  have hx : p.coordinates.take width = Field.toBytes p.x := List.take_left' (Field.length_toBytes _)
  have hy : p.coordinates.drop width = Field.toBytes p.y := List.drop_left' (Field.length_toBytes _)
  rw [ofCoordinateBytes?, guard_of_pos p.length_coordinates, hx, hy, Field.ofBytes?_toBytes,
    Field.ofBytes?_toBytes]
  exact p.ofCoordinates?_eq_some

/-- A coordinate is written back as the bytes it was read from. -/
theorem Field.toBytes_ofBytes? {b : Bytes} (hb : b.length = width) {x : Field}
    (h : Field.ofBytes? b = some x) : Field.toBytes x = b := by
  rw [Field.ofBytes?] at h
  split_ifs at h
  cases h
  rw [Field.toBytes, ← hb, Bytes.ofNatBE_toNatBE]

theorem Point.eq_of_ofCoordinates? {x y : Field} {p : Point} (h : ofCoordinates? x y = some p) :
    p.x = x ∧ p.y = y := by
  rw [ofCoordinates?] at h
  split_ifs at h
  cases h
  exact ⟨rfl, rfl⟩

/-- Both coordinates are written back as the bytes that they were read from. -/
theorem Point.coordinates_ofCoordinateBytes? {b : Bytes} {p : Point}
    (h : ofCoordinateBytes? b = some p) : p.coordinates = b := by
  obtain ⟨⟨⟩, hguard, h⟩ := Option.bind_eq_some_iff.1 h
  obtain ⟨x, hx, h⟩ := Option.bind_eq_some_iff.1 h
  obtain ⟨y, hy, hp⟩ := Option.bind_eq_some_iff.1 h
  have hlen : b.length = 2 * width := by
    by_contra hne
    rw [guard_of_neg hne] at hguard
    cases hguard
  have hxlen : (b.take width).length = width := List.length_take_of_le (by omega)
  have hylen : (b.drop width).length = width := by
    rw [List.length_drop]
    omega
  obtain ⟨rfl, rfl⟩ := eq_of_ofCoordinates? hp
  rw [coordinates, Field.toBytes_ofBytes? hxlen hx, Field.toBytes_ofBytes? hylen hy,
    List.take_append_drop]

theorem Point.length_of_ofCoordinateBytes? {b : Bytes} {p : Point}
    (h : ofCoordinateBytes? b = some p) : b.length = 2 * width := by
  rw [← coordinates_ofCoordinateBytes? h, p.length_coordinates]

/-- A point is read back from its encoding with a tag. -/
theorem Point.decode?_encode (p : Point) : decode? p.encode = some p := by
  rw [encode, decode?, if_pos rfl, p.ofCoordinateBytes?_coordinates]

/-- No encoding of a point is shorter than a coordinate. -/
theorem Point.length_of_decode? {b : Bytes} {p : Point} (h : decode? b = some p) :
    width < b.length := by
  cases b with
  | nil => cases h
  | cons tag b =>
    rw [decode?] at h
    rw [List.length_cons]
    split at h
    · rw [length_of_ofCoordinateBytes? h, width]
      omega
    · split at h
      · next hlen => rw [hlen]; exact Nat.lt_succ_self _
      · cases h

end P256

/-! ## Ed25519 -/

namespace Ed25519.PublicKey

theorem length_bytes (k : PublicKey) : k.bytes.length = Edwards25519.Point.compressedSize := by
  have h := k.isPoint
  rw [Edwards25519.Point.decompress?] at h
  by_cases hlen : k.bytes.length = Edwards25519.Point.compressedSize
  · exact hlen
  · rw [guard_of_neg hlen] at h
    cases h

theorem ofBytes?_bytes (k : PublicKey) : ofBytes? k.bytes = some k := dif_pos k.isPoint

theorem bytes_ofBytes? {b : Bytes} {k : PublicKey} (h : ofBytes? b = some k) : k.bytes = b := by
  rw [ofBytes?] at h
  split_ifs at h
  cases h
  rfl

end Ed25519.PublicKey

/-! ## Keys of either algorithm -/

namespace PublicKey

theorem length_toRaw (k : PublicKey) : k.toRaw.length = k.algorithm.publicKeySize := by
  cases k with
  | ecdsaP256 point => exact point.length_coordinates
  | ed25519 key => exact key.length_bytes

/-- **The encoding of a key is read back as that key.** -/
theorem ofRaw_toRaw (k : PublicKey) : ofRaw k.algorithm k.toRaw = .ok k := by
  rw [ofRaw.eq_def, if_neg (not_not_intro k.length_toRaw)]
  cases k with
  | ecdsaP256 point => simp only [algorithm, toRaw, point.ofCoordinateBytes?_coordinates]
  | ed25519 key => simp only [algorithm, toRaw, key.ofBytes?_bytes]

theorem publicKeySize_injective {a a' : SignatureAlgorithm}
    (h : a.publicKeySize = a'.publicKeySize) : a = a' := by
  cases a <;> cases a'
  · rfl
  · cases h
  · cases h
  · rfl

/-- The encoding of a key is none of the other algorithm, which has another size. -/
theorem ofRaw_other {k : PublicKey} {other : SignatureAlgorithm} (h : other ≠ k.algorithm) :
    ofRaw other k.toRaw = .error (.invalidKey (.publicSize other k.toRaw.length)) :=
  if_pos fun hlen => h (publicKeySize_injective (hlen.symm.trans k.length_toRaw))

/-- **A key that was read is of the algorithm asked for, and is written back** as the bytes
    that it was read from, be they the shortest form of its point or not. -/
theorem toRaw_ofRaw {algorithm : SignatureAlgorithm} {b : Bytes} {k : PublicKey}
    (h : ofRaw algorithm b = .ok k) : k.algorithm = algorithm ∧ k.toRaw = b := by
  rw [ofRaw.eq_def] at h
  split_ifs at h
  cases algorithm with
  | ecdsaP256 =>
    cases hpoint : P256.Point.ofCoordinateBytes? b with
    | some point =>
      simp only [hpoint] at h
      cases h
      exact ⟨rfl, P256.Point.coordinates_ofCoordinateBytes? hpoint⟩
    | none =>
      simp only [hpoint] at h
      cases h
  | ed25519 =>
    cases hkey : Ed25519.PublicKey.ofBytes? b with
    | some key =>
      simp only [hkey] at h
      cases h
      exact ⟨rfl, Ed25519.PublicKey.bytes_ofBytes? hkey⟩
    | none =>
      simp only [hkey] at h
      cases h

end PublicKey

end BootSeal
