import Missive.Bytes.Basic

/-!
# SHA-512

The 512-bit hash of the SHA-2 family: blocks of 128 bytes, eight words of 64 bits, eighty rounds.
-/

namespace Missive.Sha512

/-- The eight words that are carried from block to block. -/
structure Words where
  a : UInt64
  b : UInt64
  c : UInt64
  d : UInt64
  e : UInt64
  f : UInt64
  g : UInt64
  h : UInt64
  deriving DecidableEq, Repr

/-- The words before the first block. -/
def initial : Words :=
  ⟨0x6a09e667f3bcc908, 0xbb67ae8584caa73b, 0x3c6ef372fe94f82b, 0xa54ff53a5f1d36f1,
    0x510e527fade682d1, 0x9b05688c2b3e6c1f, 0x1f83d9abfb41bd6b, 0x5be0cd19137e2179⟩

/-- The constants of the eighty rounds. -/
def constants : List UInt64 :=
  [0x428a2f98d728ae22, 0x7137449123ef65cd, 0xb5c0fbcfec4d3b2f, 0xe9b5dba58189dbbc,
    0x3956c25bf348b538, 0x59f111f1b605d019, 0x923f82a4af194f9b, 0xab1c5ed5da6d8118,
    0xd807aa98a3030242, 0x12835b0145706fbe, 0x243185be4ee4b28c, 0x550c7dc3d5ffb4e2,
    0x72be5d74f27b896f, 0x80deb1fe3b1696b1, 0x9bdc06a725c71235, 0xc19bf174cf692694,
    0xe49b69c19ef14ad2, 0xefbe4786384f25e3, 0x0fc19dc68b8cd5b5, 0x240ca1cc77ac9c65,
    0x2de92c6f592b0275, 0x4a7484aa6ea6e483, 0x5cb0a9dcbd41fbd4, 0x76f988da831153b5,
    0x983e5152ee66dfab, 0xa831c66d2db43210, 0xb00327c898fb213f, 0xbf597fc7beef0ee4,
    0xc6e00bf33da88fc2, 0xd5a79147930aa725, 0x06ca6351e003826f, 0x142929670a0e6e70,
    0x27b70a8546d22ffc, 0x2e1b21385c26c926, 0x4d2c6dfc5ac42aed, 0x53380d139d95b3df,
    0x650a73548baf63de, 0x766a0abb3c77b2a8, 0x81c2c92e47edaee6, 0x92722c851482353b,
    0xa2bfe8a14cf10364, 0xa81a664bbc423001, 0xc24b8b70d0f89791, 0xc76c51a30654be30,
    0xd192e819d6ef5218, 0xd69906245565a910, 0xf40e35855771202a, 0x106aa07032bbd1b8,
    0x19a4c116b8d2d0c8, 0x1e376c085141ab53, 0x2748774cdf8eeb99, 0x34b0bcb5e19b48a8,
    0x391c0cb3c5c95a63, 0x4ed8aa4ae3418acb, 0x5b9cca4f7763e373, 0x682e6ff3d6b2b8a3,
    0x748f82ee5defb2fc, 0x78a5636f43172f60, 0x84c87814a1f0ab72, 0x8cc702081a6439ec,
    0x90befffa23631e28, 0xa4506cebde82bde9, 0xbef9a3f7b2c67915, 0xc67178f2e372532b,
    0xca273eceea26619c, 0xd186b8c721c0c207, 0xeada7dd6cde0eb1e, 0xf57d4f7fee6ed178,
    0x06f067aa72176fba, 0x0a637dc5a2c898a6, 0x113f9804bef90dae, 0x1b710b35131c471b,
    0x28db77f523047d84, 0x32caab7b40c72493, 0x3c9ebe0a15c9bebc, 0x431d67c49c100d4c,
    0x4cc5d4becb3e42b6, 0x597f299cfc657e2a, 0x5fcb6fab3ad6faec, 0x6c44198c4a475817]

/-- Rotates a word to the right. -/
def rotateRight (word amount : UInt64) : UInt64 :=
  (word >>> amount) ||| (word <<< (64 - amount))

/-- The word of the schedule that follows a window of sixteen words. -/
def nextWord (window : List UInt64) : UInt64 :=
  let early := window.getD 1 0
  let late := window.getD 14 0
  window.getD 0 0 + (rotateRight early 1 ^^^ rotateRight early 8 ^^^ (early >>> 7)) +
    window.getD 9 0 + (rotateRight late 19 ^^^ rotateRight late 61 ^^^ (late >>> 6))

/-- One round, with its constant and its word of the schedule. -/
def Words.round (words : Words) (constant word : UInt64) : Words :=
  let ⟨a, b, c, d, e, f, g, h⟩ := words
  let first := h + (rotateRight e 14 ^^^ rotateRight e 18 ^^^ rotateRight e 41) +
    ((e &&& f) ^^^ (~~~e &&& g)) + constant + word
  let second := (rotateRight a 28 ^^^ rotateRight a 34 ^^^ rotateRight a 39) +
    ((a &&& b) ^^^ (a &&& c) ^^^ (b &&& c))
  ⟨first + second, a, b, c, d + first, e, f, g⟩

/-- Wordwise sum. -/
def Words.add (left right : Words) : Words :=
  ⟨left.a + right.a, left.b + right.b, left.c + right.c, left.d + right.d, left.e + right.e,
    left.f + right.f, left.g + right.g, left.h + right.h⟩

/-- The rounds with the given constants; `window` holds the next sixteen words. -/
def rounds : (constants : List UInt64) → (window : List UInt64) → Words → Words
  | [], _, words => words
  | constant :: constants, window, words =>
    rounds constants (window.drop 1 ++ [nextWord window])
      (words.round constant (window.getD 0 0))

/-- The big-endian words of a block. -/
def blockWords (block : Bytes) : List UInt64 :=
  (List.range 16).map fun index =>
    UInt64.ofNat (Bytes.ofBigEndian (block.slice (8 * index) 8))

/-- Takes one block into the words. -/
def compress (words : Words) (block : Bytes) : Words :=
  words.add (rounds constants (blockWords block) words)

/-- Takes `count` blocks from the front of a byte string. -/
def compressBlocks : (count : Nat) → Words → Bytes → Words
  | 0, words, _ => words
  | count + 1, words, bytes =>
    compressBlocks count (compress words (bytes.take 128)) (bytes.drop 128)

/-- Fills up a message to whole blocks, with its length in bits at the end. -/
def pad (bytes : Bytes) : Bytes :=
  let zeros := (239 - bytes.length % 128) % 128
  bytes ++ [0x80] ++ List.replicate zeros 0 ++ Bytes.bigEndian 16 (8 * bytes.length)

/-- The digest of a byte string. -/
def digest (bytes : Bytes) : Bytes :=
  let padded := pad bytes
  let ⟨a, b, c, d, e, f, g, h⟩ := compressBlocks (padded.length / 128) initial padded
  [a, b, c, d, e, f, g, h].flatMap fun word => Bytes.bigEndian 8 word.toNat

end Missive.Sha512
