/-
  BootSeal — the SHA-2 hash functions. SHA-256 and SHA-512 are one compression
  scheme on words of 32 and 64 bits, with their own rotations, constants and
  initial state.

  * `Sha2 W`: what a member of the family fixes;
  * `Sha2.digest`: padding, compression block by block, and the final state as
    bytes, most significant byte of each word first;
  * `sha256`, `sha512`: the two members used here;
  * `HashAlgorithm`: these two by name.
-/
import BootSeal.Bytes

namespace BootSeal

/-- A member of the SHA-2 family over words `W`. -/
structure Sha2 (W : Type) where
  /-- Bytes in a word. -/
  wordBytes : Nat
  ofNat : Nat → W
  toNat : W → Nat
  /-- Mixing of the working variables `a` and `e`. -/
  bigSigma : (W → W) × (W → W)
  /-- Mixing in the message schedule. -/
  smallSigma : (W → W) × (W → W)
  /-- One constant for each round. -/
  constants : List W
  /-- The eight words that compression starts from. -/
  initial : Vector W 8

namespace Sha2

variable {W : Type} [Inhabited W] [Add W] [XorOp W] [AndOp W] [Complement W]

/-- Bytes in a block: sixteen words. -/
def blockBytes (s : Sha2 W) : Nat := 16 * s.wordBytes

/-- The message schedule, newest word first: each new word mixes the ones 2, 7,
    15 and 16 places back. -/
def extend (s : Sha2 W) : (rounds : Nat) → List W → List W
  | 0, ws => ws
  | rounds + 1, ws =>
    extend s rounds
      ((s.smallSigma.2 (ws.getD 1 default) + ws.getD 6 default +
        s.smallSigma.1 (ws.getD 14 default) + ws.getD 15 default) :: ws)

/-- One round with a constant and a word of the schedule. -/
def round (s : Sha2 W) (v : Vector W 8) (kw : W × W) : Vector W 8 :=
  let a := v[0]; let b := v[1]; let c := v[2]; let d := v[3]
  let e := v[4]; let f := v[5]; let g := v[6]; let h := v[7]
  let choice := (e &&& f) ^^^ (~~~e &&& g)
  let majority := (a &&& b) ^^^ (a &&& c) ^^^ (b &&& c)
  let t := h + s.bigSigma.2 e + choice + kw.1 + kw.2
  #v[t + s.bigSigma.1 a + majority, a, b, c, d + t, e, f, g]

/-- The state after one block. -/
def compress (s : Sha2 W) (v : Vector W 8) (block : Bytes) : Vector W 8 :=
  let words := (block.chunks s.wordBytes 16).map fun b => s.ofNat b.toNatBE
  let schedule := (s.extend (s.constants.length - 16) words.reverse).reverse
  v.zipWith (· + ·) ((s.constants.zip schedule).foldl s.round v)

/-- The message with a one bit, zeros, and its length in bits, up to a whole
    number of blocks. -/
def pad (s : Sha2 W) (message : Bytes) : Bytes :=
  let lengthBytes := 2 * s.wordBytes
  let used := message.length + 1 + lengthBytes
  let zeros := (s.blockBytes - used % s.blockBytes) % s.blockBytes
  message ++ 0x80 :: (List.replicate zeros 0 ++ Bytes.ofNatBE lengthBytes (8 * message.length))

/-- The digest of a message. -/
def digest (s : Sha2 W) (message : Bytes) : Bytes :=
  let padded := s.pad message
  let blocks := padded.chunks s.blockBytes (padded.length / s.blockBytes)
  (blocks.foldl s.compress s.initial).toList.flatMap fun w =>
    Bytes.ofNatBE s.wordBytes (s.toNat w)

end Sha2

/-! ## SHA-256 -/

/-- Rotation of a 32-bit word to the right. -/
def rotateRight32 (n : UInt32) (x : UInt32) : UInt32 := (x >>> n) ||| (x <<< (32 - n))

/-- SHA-256: words of 32 bits, 64 rounds, digests of 32 bytes. -/
def sha256Scheme : Sha2 UInt32 where
  wordBytes := 4
  ofNat := UInt32.ofNat
  toNat := UInt32.toNat
  bigSigma :=
    (fun x => rotateRight32 2 x ^^^ rotateRight32 13 x ^^^ rotateRight32 22 x,
     fun x => rotateRight32 6 x ^^^ rotateRight32 11 x ^^^ rotateRight32 25 x)
  smallSigma :=
    (fun x => rotateRight32 7 x ^^^ rotateRight32 18 x ^^^ (x >>> 3),
     fun x => rotateRight32 17 x ^^^ rotateRight32 19 x ^^^ (x >>> 10))
  constants := [
    0x428a2f98, 0x71374491, 0xb5c0fbcf, 0xe9b5dba5, 0x3956c25b, 0x59f111f1, 0x923f82a4, 0xab1c5ed5,
    0xd807aa98, 0x12835b01, 0x243185be, 0x550c7dc3, 0x72be5d74, 0x80deb1fe, 0x9bdc06a7, 0xc19bf174,
    0xe49b69c1, 0xefbe4786, 0x0fc19dc6, 0x240ca1cc, 0x2de92c6f, 0x4a7484aa, 0x5cb0a9dc, 0x76f988da,
    0x983e5152, 0xa831c66d, 0xb00327c8, 0xbf597fc7, 0xc6e00bf3, 0xd5a79147, 0x06ca6351, 0x14292967,
    0x27b70a85, 0x2e1b2138, 0x4d2c6dfc, 0x53380d13, 0x650a7354, 0x766a0abb, 0x81c2c92e, 0x92722c85,
    0xa2bfe8a1, 0xa81a664b, 0xc24b8b70, 0xc76c51a3, 0xd192e819, 0xd6990624, 0xf40e3585, 0x106aa070,
    0x19a4c116, 0x1e376c08, 0x2748774c, 0x34b0bcb5, 0x391c0cb3, 0x4ed8aa4a, 0x5b9cca4f, 0x682e6ff3,
    0x748f82ee, 0x78a5636f, 0x84c87814, 0x8cc70208, 0x90befffa, 0xa4506ceb, 0xbef9a3f7, 0xc67178f2]
  initial := #v[
    0x6a09e667, 0xbb67ae85, 0x3c6ef372, 0xa54ff53a, 0x510e527f, 0x9b05688c, 0x1f83d9ab, 0x5be0cd19]

/-- The SHA-256 digest of a message. -/
def sha256 (message : Bytes) : Bytes := sha256Scheme.digest message

/-! ## SHA-512 -/

/-- Rotation of a 64-bit word to the right. -/
def rotateRight64 (n : UInt64) (x : UInt64) : UInt64 := (x >>> n) ||| (x <<< (64 - n))

/-- SHA-512: words of 64 bits, 80 rounds, digests of 64 bytes. -/
def sha512Scheme : Sha2 UInt64 where
  wordBytes := 8
  ofNat := UInt64.ofNat
  toNat := UInt64.toNat
  bigSigma :=
    (fun x => rotateRight64 28 x ^^^ rotateRight64 34 x ^^^ rotateRight64 39 x,
     fun x => rotateRight64 14 x ^^^ rotateRight64 18 x ^^^ rotateRight64 41 x)
  smallSigma :=
    (fun x => rotateRight64 1 x ^^^ rotateRight64 8 x ^^^ (x >>> 7),
     fun x => rotateRight64 19 x ^^^ rotateRight64 61 x ^^^ (x >>> 6))
  constants := [
    0x428a2f98d728ae22, 0x7137449123ef65cd, 0xb5c0fbcfec4d3b2f, 0xe9b5dba58189dbbc,
    0x3956c25bf348b538, 0x59f111f1b605d019, 0x923f82a4af194f9b, 0xab1c5ed5da6d8118,
    0xd807aa98a3030242, 0x12835b0145706fbe, 0x243185be4ee4b28c, 0x550c7dc3d5ffb4e2,
    0x72be5d74f27b896f, 0x80deb1fe3b1696b1, 0x9bdc06a725c71235, 0xc19bf174cf692694,
    0xe49b69c19ef14ad2, 0xefbe4786384f25e3, 0x0fc19dc68b8cd5b5, 0x240ca1cc77ac9c65,
    0x2de92c6f592b0275, 0x4a7484aa6ea6e483, 0x5cb0a9dcbd41fbd4, 0x76f988da831153b5,
    0x983e5152ee66dfab, 0xa831c66d2db43210, 0xb00327c898fb213f, 0xbf597fc7beef0ee4,
    0xc6e00bf33da88fc2, 0xd5a79147930aa725, 0x06ca6351e003826f, 0x142929670a0e6e70,
    0x27b70a8546d22ffc, 0x2e1b21385c26c926, 0x4d2c6dfc5ac42aed, 0x53380d139d95b3df,
    0x650a73548baf63de, 0x766a0abb3c77b2a8, 0x81c2c92e47edaee6, 0x92722c851482353b,
    0xa2bfe8a14cf10364, 0xa81a664bbc423001, 0xc24b8b70d0f89791, 0xc76c51a30654be30,
    0xd192e819d6ef5218, 0xd69906245565a910, 0xf40e35855771202a, 0x106aa07032bbd1b8,
    0x19a4c116b8d2d0c8, 0x1e376c085141ab53, 0x2748774cdf8eeb99, 0x34b0bcb5e19b48a8,
    0x391c0cb3c5c95a63, 0x4ed8aa4ae3418acb, 0x5b9cca4f7763e373, 0x682e6ff3d6b2b8a3,
    0x748f82ee5defb2fc, 0x78a5636f43172f60, 0x84c87814a1f0ab72, 0x8cc702081a6439ec,
    0x90befffa23631e28, 0xa4506cebde82bde9, 0xbef9a3f7b2c67915, 0xc67178f2e372532b,
    0xca273eceea26619c, 0xd186b8c721c0c207, 0xeada7dd6cde0eb1e, 0xf57d4f7fee6ed178,
    0x06f067aa72176fba, 0x0a637dc5a2c898a6, 0x113f9804bef90dae, 0x1b710b35131c471b,
    0x28db77f523047d84, 0x32caab7b40c72493, 0x3c9ebe0a15c9bebc, 0x431d67c49c100d4c,
    0x4cc5d4becb3e42b6, 0x597f299cfc657e2a, 0x5fcb6fab3ad6faec, 0x6c44198c4a475817]
  initial := #v[
    0x6a09e667f3bcc908, 0xbb67ae8584caa73b, 0x3c6ef372fe94f82b, 0xa54ff53a5f1d36f1,
    0x510e527fade682d1, 0x9b05688c2b3e6c1f, 0x1f83d9abfb41bd6b, 0x5be0cd19137e2179]

/-- The SHA-512 digest of a message. -/
def sha512 (message : Bytes) : Bytes := sha512Scheme.digest message

/-! ## By name -/

/-- The hash algorithms an image can be hashed with. -/
inductive HashAlgorithm where
  | sha256
  | sha512
  deriving DecidableEq, Repr

namespace HashAlgorithm

/-- The name that messages and reports use. -/
def name : HashAlgorithm → String
  | sha256 => "sha256"
  | sha512 => "sha512"

/-- Bytes in a digest. -/
def digestLength : HashAlgorithm → Nat
  | sha256 => 32
  | sha512 => 64

/-- The algorithm of a name in lower case. -/
def ofName? : String → Option HashAlgorithm
  | "sha256" | "sha-256" => some sha256
  | "sha512" | "sha-512" => some sha512
  | _ => none

/-- The digest of a message. -/
def digest : HashAlgorithm → Bytes → Bytes
  | sha256, message => BootSeal.sha256 message
  | sha512, message => BootSeal.sha512 message

end HashAlgorithm

end BootSeal
