/-
  BootSeal — the curve P-256: points `y² = x³ - 3x + b` over a prime field, a
  group of prime order.

  * `P256.Point`: a pair of coordinates on the curve;
  * `P256.Projective`: points with a common denominator, among them the neutral
    element, and an addition without exceptions;
  * `P256.Point.encode`, `P256.Point.decode?`: points as bytes, uncompressed, or
    compressed to one coordinate.
-/
import BootSeal.Bytes
import BootSeal.Curve.Multiple

namespace BootSeal.P256

/-! ## Parameters -/

/-- The size of the prime field. -/
def fieldSize : Nat := 0xffffffff00000001000000000000000000000000ffffffffffffffffffffffff

/-- The order of the group. -/
def order : Nat := 0xffffffff00000000ffffffffffffffffbce6faada7179e84f3b9cac2fc632551

-- The zero is named, so that it is the same one whatever else is in scope.

/-- Coordinates have numerals. -/
instance : @NeZero Nat Zero.ofOfNat0 fieldSize := ⟨by decide⟩

/-- Scalars have numerals. -/
instance : @NeZero Nat Zero.ofOfNat0 order := ⟨by decide⟩

/-- The coordinates of points. -/
abbrev Field := Fin fieldSize

/-- Multiples of the generator are counted modulo the order. -/
abbrev Scalar := Fin order

/-- Bytes in a coordinate and in a scalar. -/
def width : Nat := 32

/-- The constant of the curve. -/
def b : Field :=
  Fin.ofNat _ 0x5ac635d8aa3a93e7b3ebbd55769886bc651d06b0cc53b0f63bce3c3e27d2604b

/-- The right-hand side of the equation. -/
def cubic (x : Field) : Field := x * x * x - (x + x + x) + b

/-- A point other than the neutral element. -/
structure Point where
  x : Field
  y : Field
  onCurve : y * y = cubic x
  deriving DecidableEq

/-- The point with these coordinates, if the curve has it. -/
def Point.ofCoordinates? (x y : Field) : Option Point :=
  if h : y * y = cubic x then some ⟨x, y, h⟩ else none

/-- The generator. -/
def generator : Point where
  x := Fin.ofNat _ 0x6b17d1f2e12c4247f8bce6e563a440f277037d812deb33a0f4a13945d898c296
  y := Fin.ofNat _ 0x4fe342e2fe1a7f9b8ee7eb4a7c0f9e162bce33576b315ececbb6406837bf51f5
  onCurve := by decide +kernel

/-! ## Group -/

/-- A point as `x / z` and `y / z`; the neutral element has no denominator. -/
structure Projective where
  x : Field
  y : Field
  z : Field
  deriving DecidableEq

namespace Projective

def neutral : Projective := ⟨0, 1, 0⟩

def ofPoint (p : Point) : Projective := ⟨p.x, p.y, 1⟩

/-- The sum of two points. The formulas hold for all pairs of points of a group
    of odd order, equal and opposite ones included. -/
def add (p q : Projective) : Projective :=
  let xx := p.x * q.x
  let yy := p.y * q.y
  let zz := p.z * q.z
  let xy := p.x * q.y + p.y * q.x
  let yz := p.y * q.z + p.z * q.y
  let xz := p.x * q.z + p.z * q.x
  let u := 3 * (xz - b * zz)
  let s := 3 * (b * xz - 3 * zz - xx)
  let t := 3 * (xx - zz)
  ⟨xy * (yy + u) - yz * s, (yy + u) * (yy - u) + t * s, yz * (yy - u) + xy * t⟩

/-- The sum of `n` copies of a point. -/
def scale (n : Nat) (p : Projective) : Projective := multiple add neutral n p

/-- The point with coordinates, if it is not the neutral element. -/
def toPoint? (p : Projective) : Option Point :=
  if p.z = 0 then none
  else
    let scale := Residue.inverse p.z
    Point.ofCoordinates? (p.x * scale) (p.y * scale)

end Projective

/-! ## Points as bytes -/

/-- A coordinate in `width` bytes, if they denote one. -/
def Field.ofBytes? (bytes : Bytes) : Option Field :=
  if h : bytes.toNatBE < fieldSize then some ⟨bytes.toNatBE, h⟩ else none

/-- A coordinate in `width` bytes, most significant first. -/
def Field.toBytes (x : Field) : Bytes := Bytes.ofNatBE width x.val

/-- The parity of a coordinate. -/
def Field.isOdd (x : Field) : Bool := x.val % 2 == 1

/-- A square root of a residue that has one: the field size leaves 3 modulo 4, so
    it is a power. -/
def Field.root (x : Field) : Field := Residue.power x ((fieldSize + 1) / 4)

namespace Point

/-- The point with a given first coordinate, and a second one of given parity. -/
def ofCompressed? (x : Field) (isOdd : Bool) : Option Point :=
  let y := Field.root (cubic x)
  ofCoordinates? x (if Field.isOdd y = isOdd then y else -y)

/-- Both coordinates, without a tag. -/
def coordinates (p : Point) : Bytes := Field.toBytes p.x ++ Field.toBytes p.y

/-- The point of both coordinates, without a tag. -/
def ofCoordinateBytes? (bytes : Bytes) : Option Point := do
  guard (bytes.length = 2 * width)
  let x ← Field.ofBytes? (bytes.take width)
  let y ← Field.ofBytes? (bytes.drop width)
  ofCoordinates? x y

/-- Tag of both coordinates. -/
def uncompressedTag : UInt8 := 4

/-- Tag of the first coordinate, when the second one is even or odd. -/
def compressedTag (isOdd : Bool) : UInt8 := if isOdd then 3 else 2

/-- Tag of the first coordinate alone; the second one is even. -/
def compactTag : UInt8 := 5

/-- The point in bytes: a tag and both coordinates. -/
def encode (p : Point) : Bytes := uncompressedTag :: p.coordinates

/-- The point in bytes: a tag that tells the parity of the second coordinate, and
    the first coordinate. -/
def encodeCompressed (p : Point) : Bytes :=
  compressedTag (Field.isOdd p.y) :: Field.toBytes p.x

/-- The point of any encoding. -/
def decode? : Bytes → Option Point
  | [] => none
  | tag :: bytes =>
    if tag = uncompressedTag then ofCoordinateBytes? bytes
    else if bytes.length = width then do
      let x ← Field.ofBytes? bytes
      if tag = compressedTag true then ofCompressed? x true
      else if tag = compressedTag false ∨ tag = compactTag then ofCompressed? x false
      else none
    else none

end Point

end BootSeal.P256
