/-
  BootSeal — base64 with padding: three bytes in four characters. Every byte
  string has one encoding, and nothing else is read.

  * `Base64.encode`, `Base64.decode?`: bytes as characters, and back.
-/
import BootSeal.Bytes

namespace BootSeal.Base64

/-- The characters of the values below 64. -/
def alphabet : List Char :=
  "ABCDEFGHIJKLMNOPQRSTUVWXYZabcdefghijklmnopqrstuvwxyz0123456789+/".toList

/-- The character of a value below 64. -/
def charOf (n : Nat) : Char := alphabet.getD n '='

/-- The value of a character of the alphabet. -/
def value? (c : Char) : Option Nat :=
  if 'A' ≤ c ∧ c ≤ 'Z' then some (c.toNat - 'A'.toNat)
  else if 'a' ≤ c ∧ c ≤ 'z' then some (c.toNat - 'a'.toNat + 26)
  else if '0' ≤ c ∧ c ≤ '9' then some (c.toNat - '0'.toNat + 52)
  else if c = '+' then some 62
  else if c = '/' then some 63
  else none

/-- The characters of a byte string. -/
def encode : Bytes → List Char
  | [] => []
  | [a] => [charOf (a.toNat / 4), charOf (16 * (a.toNat % 4)), '=', '=']
  | [a, b] =>
    [charOf (a.toNat / 4), charOf (16 * (a.toNat % 4) + b.toNat / 16),
      charOf (4 * (b.toNat % 16)), '=']
  | a :: b :: c :: rest =>
    charOf (a.toNat / 4) :: charOf (16 * (a.toNat % 4) + b.toNat / 16) ::
      charOf (4 * (b.toNat % 16) + c.toNat / 64) :: charOf (c.toNat % 64) :: encode rest

/-- The bytes of characters. The padding stands at the end, and the bits that it
    leaves over are zero. -/
def decode? : List Char → Option Bytes
  | [] => some []
  | [w, x, '=', '='] => do
    let w ← value? w
    let x ← value? x
    guard (x % 16 = 0)
    return [UInt8.ofNat (4 * w + x / 16)]
  | [w, x, y, '='] => do
    let w ← value? w
    let x ← value? x
    let y ← value? y
    guard (y % 4 = 0)
    return [UInt8.ofNat (4 * w + x / 16), UInt8.ofNat (16 * (x % 16) + y / 4)]
  | w :: x :: y :: z :: rest => do
    let w ← value? w
    let x ← value? x
    let y ← value? y
    let z ← value? z
    let bytes ← decode? rest
    return UInt8.ofNat (4 * w + x / 16) :: UInt8.ofNat (16 * (x % 16) + y / 4) ::
      UInt8.ofNat (64 * (y % 4) + z) :: bytes
  | _ => none

end BootSeal.Base64
