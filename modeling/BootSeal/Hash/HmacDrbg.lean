/-
  BootSeal — hashes under a key, and a stream of blocks from them.

  * `hmacSha256`: HMAC with SHA-256, a hash of a message under a key;
  * `HmacDrbg`: the blocks that a seed determines, which deterministic signatures
    draw their nonces from.
-/
import BootSeal.Hash.Sha2

namespace BootSeal

/-- The HMAC-SHA-256 of a message. A key longer than a block is hashed first; a
    shorter one is filled with zeros. -/
def hmacSha256 (key message : Bytes) : Bytes :=
  let size := sha256Scheme.blockBytes
  let key := if size < key.length then sha256 key else key
  let block := key ++ List.replicate (size - key.length) 0
  let inner := sha256 (block.map (· ^^^ 0x36) ++ message)
  sha256 (block.map (· ^^^ 0x5c) ++ inner)

/-- The state of the generator. -/
structure HmacDrbg where
  key : Bytes
  value : Bytes
  deriving DecidableEq, Repr

namespace HmacDrbg

/-- A new key from the current one, a mark and some data, and the next value. -/
def rekey (g : HmacDrbg) (mark : UInt8) (data : Bytes) : HmacDrbg :=
  let key := hmacSha256 g.key (g.value ++ mark :: data)
  ⟨key, hmacSha256 key g.value⟩

/-- The generator of a seed. -/
def ofSeed (seed : Bytes) : HmacDrbg :=
  let start : HmacDrbg := ⟨List.replicate 32 0, List.replicate 32 1⟩
  (start.rekey 0 seed).rekey 1 seed

/-- One block of 32 bytes, and the generator after it. -/
def next (g : HmacDrbg) : Bytes × HmacDrbg :=
  let block := hmacSha256 g.key g.value
  (block, rekey ⟨g.key, block⟩ 0 [])

/-- The first `count` blocks. -/
def blocks : (count : Nat) → HmacDrbg → List Bytes
  | 0, _ => []
  | count + 1, g => g.next.1 :: blocks count g.next.2

end HmacDrbg

end BootSeal
