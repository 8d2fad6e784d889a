/-
  BootSeal — CRC-32, the checksum of partition tables: the IEEE polynomial with
  the bits of each byte taken least significant first, register and result
  inverted.

  * `Crc32.bitStep`: one bit through the register;
  * `Crc32.byteStep`: one byte, eight bit steps after adding it to the register;
  * `crc32`: the checksum of a byte string.
-/
import BootSeal.Bytes

namespace BootSeal

namespace Crc32

/-- The IEEE polynomial with its bits reversed. -/
def polynomial : UInt32 := 0xedb88320

/-- One bit through the register: a one that leaves it adds the polynomial. -/
def bitStep (r : UInt32) : UInt32 :=
  if r &&& 1 = 1 then (r >>> 1) ^^^ polynomial else r >>> 1

/-- `n` bits through the register. -/
def bitSteps : (n : Nat) → UInt32 → UInt32
  | 0, r => r
  | n + 1, r => bitSteps n (bitStep r)

/-- One byte through the register. -/
def byteStep (r : UInt32) (x : UInt8) : UInt32 := bitSteps 8 (r ^^^ x.toUInt32)

/-- A byte string through the register. -/
def run (r : UInt32) (b : Bytes) : UInt32 := b.foldl byteStep r

end Crc32

/-- The CRC-32 of a byte string. -/
def crc32 (b : Bytes) : UInt32 := ~~~ Crc32.run 0xffffffff b

end BootSeal
