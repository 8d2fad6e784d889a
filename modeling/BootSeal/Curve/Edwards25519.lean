/-
  BootSeal — the curve edwards25519: points `-x² + y² = 1 + d x² y²` over the
  field of `2 ^ 255 - 19` elements, with a base point of prime order.

  * `Edwards25519.Point`: points with a common denominator and the product of
    their coordinates, with an addition without exceptions;
  * `Edwards25519.Point.compress`: the second coordinate and the parity of the
    first in 32 bytes;
  * `Edwards25519.Point.decompress?`: the point of 32 bytes. The second
    coordinate may be written with an excess of the field size, and the parity
    of a first coordinate of zero is not looked at.
-/
import BootSeal.Bytes
import BootSeal.Curve.Multiple

namespace BootSeal.Edwards25519

/-! ## Parameters -/

/-- The size of the prime field. -/
def fieldSize : Nat := 0x7fffffffffffffffffffffffffffffffffffffffffffffffffffffffffffffed

/-- The order of the base point. -/
def order : Nat := 0x1000000000000000000000000000000014def9dea2f79cd65812631a5cf5d3ed

-- The zero is named, so that it is the same one whatever else is in scope.

/-- Coordinates have numerals. -/
instance : @NeZero Nat Zero.ofOfNat0 fieldSize := ⟨by decide⟩

/-- Scalars have numerals. -/
instance : @NeZero Nat Zero.ofOfNat0 order := ⟨by decide⟩

abbrev Field := Fin fieldSize

/-- The constant of the curve. -/
def d : Field :=
  Fin.ofNat _ 37095705934669439343138083508754565189542113879843219016388785533085940283555

/-- A square root of minus one. -/
def rootOfMinusOne : Field := Residue.power 2 ((fieldSize - 1) / 4)

/-! ## Group -/

/-- A point as `x / z` and `y / z`, with `t / z` their product. -/
structure Point where
  x : Field
  y : Field
  z : Field
  t : Field
  deriving DecidableEq

namespace Point

/-- The point with these coordinates. -/
def ofCoordinates (x y : Field) : Point := ⟨x, y, 1, x * y⟩

def neutral : Point := ⟨0, 1, 1, 0⟩

/-- The sum of two points. The constant of the curve is no square, so the
    formulas hold for all pairs. -/
def add (p q : Point) : Point :=
  let a := (p.y - p.x) * (q.y - q.x)
  let b := (p.y + p.x) * (q.y + q.x)
  let c := 2 * d * p.t * q.t
  let e := 2 * p.z * q.z
  ⟨(b - a) * (e - c), (e + c) * (b + a), (e - c) * (e + c), (b - a) * (b + a)⟩

def neg (p : Point) : Point := ⟨-p.x, p.y, p.z, -p.t⟩

/-- The sum of `n` copies of a point. -/
def scale (n : Nat) (p : Point) : Point := multiple add neutral n p

/-- The base point. -/
def base : Point :=
  ofCoordinates
    (Fin.ofNat _ 15112221349535400772501151409588531511454012693041857206046113283949847762202)
    (Fin.ofNat _ 46316835694926478169428394003475163141307993866256225615783033603165251855960)

/-! ## Points as bytes -/

/-- Bytes in a compressed point. -/
def compressedSize : Nat := 32

/-- What the highest bit of a compressed point counts. -/
def parityWeight : Nat := 1 <<< 255

/-- The parity of a coordinate. -/
def isOdd (x : Field) : Bool := x.val % 2 == 1

/-- The second coordinate, and in the highest bit the parity of the first. -/
def compress (p : Point) : Bytes :=
  let scale := Residue.inverse p.z
  let x := p.x * scale
  let y := p.y * scale
  Bytes.ofNatLE compressedSize (y.val + if isOdd x then parityWeight else 0)

/-- A root of `u / v`, if there is one. The candidate's square is `u / v` up to a
    fourth root of one. -/
def rootOfRatio? (u v : Field) : Option Field :=
  let r := u * Residue.power v 3 * Residue.power (u * Residue.power v 7) ((fieldSize - 5) / 8)
  if v * (r * r) = u then some r
  else
    let r := r * rootOfMinusOne
    if v * (r * r) = u then some r else none

/-- The point of a compressed point, if it is one. -/
def decompress? (bytes : Bytes) : Option Point := do
  guard (bytes.length = compressedSize)
  let n := bytes.toNatLE
  let y : Field := Fin.ofNat _ (n % parityWeight)
  let x ← rootOfRatio? (y * y - 1) (d * (y * y) + 1)
  return ofCoordinates (if isOdd x = decide (parityWeight ≤ n) then x else -x) y

end Point

end BootSeal.Edwards25519
