import Missive.Cipher.Block

/-!
# AES-256

The Rijndael block cipher with a 256-bit key: a block is a grid of four columns of four bytes,
and each of fourteen rounds substitutes bytes, shifts rows, mixes columns and adds a round key.
Decryption runs the inverse steps in the opposite order.
-/

namespace Missive.Aes256

/-- A column of the grid, or a word of the key schedule. -/
structure Column where
  a : UInt8
  b : UInt8
  c : UInt8
  d : UInt8
  deriving DecidableEq, Repr

/-- The four columns of a block. -/
structure Grid where
  first : Column
  second : Column
  third : Column
  fourth : Column
  deriving DecidableEq, Repr

set_option maxRecDepth 4096 in
/-- The substitution of bytes. -/
def substitutions : Vector UInt8 256 :=
  #v[
    0x63, 0x7c, 0x77, 0x7b, 0xf2, 0x6b, 0x6f, 0xc5, 0x30, 0x01, 0x67, 0x2b, 0xfe, 0xd7, 0xab, 0x76,
    0xca, 0x82, 0xc9, 0x7d, 0xfa, 0x59, 0x47, 0xf0, 0xad, 0xd4, 0xa2, 0xaf, 0x9c, 0xa4, 0x72, 0xc0,
    0xb7, 0xfd, 0x93, 0x26, 0x36, 0x3f, 0xf7, 0xcc, 0x34, 0xa5, 0xe5, 0xf1, 0x71, 0xd8, 0x31, 0x15,
    0x04, 0xc7, 0x23, 0xc3, 0x18, 0x96, 0x05, 0x9a, 0x07, 0x12, 0x80, 0xe2, 0xeb, 0x27, 0xb2, 0x75,
    0x09, 0x83, 0x2c, 0x1a, 0x1b, 0x6e, 0x5a, 0xa0, 0x52, 0x3b, 0xd6, 0xb3, 0x29, 0xe3, 0x2f, 0x84,
    0x53, 0xd1, 0x00, 0xed, 0x20, 0xfc, 0xb1, 0x5b, 0x6a, 0xcb, 0xbe, 0x39, 0x4a, 0x4c, 0x58, 0xcf,
    0xd0, 0xef, 0xaa, 0xfb, 0x43, 0x4d, 0x33, 0x85, 0x45, 0xf9, 0x02, 0x7f, 0x50, 0x3c, 0x9f, 0xa8,
    0x51, 0xa3, 0x40, 0x8f, 0x92, 0x9d, 0x38, 0xf5, 0xbc, 0xb6, 0xda, 0x21, 0x10, 0xff, 0xf3, 0xd2,
    0xcd, 0x0c, 0x13, 0xec, 0x5f, 0x97, 0x44, 0x17, 0xc4, 0xa7, 0x7e, 0x3d, 0x64, 0x5d, 0x19, 0x73,
    0x60, 0x81, 0x4f, 0xdc, 0x22, 0x2a, 0x90, 0x88, 0x46, 0xee, 0xb8, 0x14, 0xde, 0x5e, 0x0b, 0xdb,
    0xe0, 0x32, 0x3a, 0x0a, 0x49, 0x06, 0x24, 0x5c, 0xc2, 0xd3, 0xac, 0x62, 0x91, 0x95, 0xe4, 0x79,
    0xe7, 0xc8, 0x37, 0x6d, 0x8d, 0xd5, 0x4e, 0xa9, 0x6c, 0x56, 0xf4, 0xea, 0x65, 0x7a, 0xae, 0x08,
    0xba, 0x78, 0x25, 0x2e, 0x1c, 0xa6, 0xb4, 0xc6, 0xe8, 0xdd, 0x74, 0x1f, 0x4b, 0xbd, 0x8b, 0x8a,
    0x70, 0x3e, 0xb5, 0x66, 0x48, 0x03, 0xf6, 0x0e, 0x61, 0x35, 0x57, 0xb9, 0x86, 0xc1, 0x1d, 0x9e,
    0xe1, 0xf8, 0x98, 0x11, 0x69, 0xd9, 0x8e, 0x94, 0x9b, 0x1e, 0x87, 0xe9, 0xce, 0x55, 0x28, 0xdf,
    0x8c, 0xa1, 0x89, 0x0d, 0xbf, 0xe6, 0x42, 0x68, 0x41, 0x99, 0x2d, 0x0f, 0xb0, 0x54, 0xbb, 0x16]

set_option maxRecDepth 4096 in
/-- The inverse of the substitution. -/
def inverseSubstitutions : Vector UInt8 256 :=
  #v[
    0x52, 0x09, 0x6a, 0xd5, 0x30, 0x36, 0xa5, 0x38, 0xbf, 0x40, 0xa3, 0x9e, 0x81, 0xf3, 0xd7, 0xfb,
    0x7c, 0xe3, 0x39, 0x82, 0x9b, 0x2f, 0xff, 0x87, 0x34, 0x8e, 0x43, 0x44, 0xc4, 0xde, 0xe9, 0xcb,
    0x54, 0x7b, 0x94, 0x32, 0xa6, 0xc2, 0x23, 0x3d, 0xee, 0x4c, 0x95, 0x0b, 0x42, 0xfa, 0xc3, 0x4e,
    0x08, 0x2e, 0xa1, 0x66, 0x28, 0xd9, 0x24, 0xb2, 0x76, 0x5b, 0xa2, 0x49, 0x6d, 0x8b, 0xd1, 0x25,
    0x72, 0xf8, 0xf6, 0x64, 0x86, 0x68, 0x98, 0x16, 0xd4, 0xa4, 0x5c, 0xcc, 0x5d, 0x65, 0xb6, 0x92,
    0x6c, 0x70, 0x48, 0x50, 0xfd, 0xed, 0xb9, 0xda, 0x5e, 0x15, 0x46, 0x57, 0xa7, 0x8d, 0x9d, 0x84,
    0x90, 0xd8, 0xab, 0x00, 0x8c, 0xbc, 0xd3, 0x0a, 0xf7, 0xe4, 0x58, 0x05, 0xb8, 0xb3, 0x45, 0x06,
    0xd0, 0x2c, 0x1e, 0x8f, 0xca, 0x3f, 0x0f, 0x02, 0xc1, 0xaf, 0xbd, 0x03, 0x01, 0x13, 0x8a, 0x6b,
    0x3a, 0x91, 0x11, 0x41, 0x4f, 0x67, 0xdc, 0xea, 0x97, 0xf2, 0xcf, 0xce, 0xf0, 0xb4, 0xe6, 0x73,
    0x96, 0xac, 0x74, 0x22, 0xe7, 0xad, 0x35, 0x85, 0xe2, 0xf9, 0x37, 0xe8, 0x1c, 0x75, 0xdf, 0x6e,
    0x47, 0xf1, 0x1a, 0x71, 0x1d, 0x29, 0xc5, 0x89, 0x6f, 0xb7, 0x62, 0x0e, 0xaa, 0x18, 0xbe, 0x1b,
    0xfc, 0x56, 0x3e, 0x4b, 0xc6, 0xd2, 0x79, 0x20, 0x9a, 0xdb, 0xc0, 0xfe, 0x78, 0xcd, 0x5a, 0xf4,
    0x1f, 0xdd, 0xa8, 0x33, 0x88, 0x07, 0xc7, 0x31, 0xb1, 0x12, 0x10, 0x59, 0x27, 0x80, 0xec, 0x5f,
    0x60, 0x51, 0x7f, 0xa9, 0x19, 0xb5, 0x4a, 0x0d, 0x2d, 0xe5, 0x7a, 0x9f, 0x93, 0xc9, 0x9c, 0xef,
    0xa0, 0xe0, 0x3b, 0x4d, 0xae, 0x2a, 0xf5, 0xb0, 0xc8, 0xeb, 0xbb, 0x3c, 0x83, 0x53, 0x99, 0x61,
    0x17, 0x2b, 0x04, 0x7e, 0xba, 0x77, 0xd6, 0x26, 0xe1, 0x69, 0x14, 0x63, 0x55, 0x21, 0x0c, 0x7d]

/-- The substitute of a byte. -/
def substitute (byte : UInt8) : UInt8 :=
  substitutions.get ⟨byte.toNat, byte.toNat_lt⟩

/-- The byte with the given substitute. -/
def unsubstitute (byte : UInt8) : UInt8 :=
  inverseSubstitutions.get ⟨byte.toNat, byte.toNat_lt⟩

/-- Twice a byte, as a polynomial over the two-element field modulo x⁸ + x⁴ + x³ + x + 1. -/
def double (byte : UInt8) : UInt8 :=
  if byte < 0x80 then byte <<< 1 else (byte <<< 1) ^^^ 0x1b

/-- Three times a byte. -/
def triple (byte : UInt8) : UInt8 :=
  double byte ^^^ byte

/-- Nine times a byte. -/
def times9 (byte : UInt8) : UInt8 :=
  double (double (double byte)) ^^^ byte

/-- Eleven times a byte. -/
def times11 (byte : UInt8) : UInt8 :=
  double (double (double byte)) ^^^ double byte ^^^ byte

/-- Thirteen times a byte. -/
def times13 (byte : UInt8) : UInt8 :=
  double (double (double byte)) ^^^ double (double byte) ^^^ byte

/-- Fourteen times a byte. -/
def times14 (byte : UInt8) : UInt8 :=
  double (double (double byte)) ^^^ double (double byte) ^^^ double byte

namespace Column

/-- The four bytes of a block from `start` on. -/
def ofBlock (block : Block) (start : Nat) : Column :=
  ⟨block.getD start 0, block.getD (start + 1) 0, block.getD (start + 2) 0,
    block.getD (start + 3) 0⟩

/-- Applies a function to every byte. -/
def map (f : UInt8 → UInt8) (column : Column) : Column :=
  ⟨f column.a, f column.b, f column.c, f column.d⟩

/-- Pointwise exclusive or. -/
def xor (left right : Column) : Column :=
  ⟨left.a ^^^ right.a, left.b ^^^ right.b, left.c ^^^ right.c, left.d ^^^ right.d⟩

/-- Moves the first byte to the end. -/
def rotate (column : Column) : Column :=
  ⟨column.b, column.c, column.d, column.a⟩

/-- Multiplies the column by the mixing matrix. -/
def mix (column : Column) : Column :=
  let ⟨a, b, c, d⟩ := column
  ⟨double a ^^^ triple b ^^^ c ^^^ d, a ^^^ double b ^^^ triple c ^^^ d,
    a ^^^ b ^^^ double c ^^^ triple d, triple a ^^^ b ^^^ c ^^^ double d⟩

/-- Multiplies the column by the inverse of the mixing matrix. -/
def unmix (column : Column) : Column :=
  let ⟨a, b, c, d⟩ := column
  ⟨times14 a ^^^ times11 b ^^^ times13 c ^^^ times9 d,
    times9 a ^^^ times14 b ^^^ times11 c ^^^ times13 d,
    times13 a ^^^ times9 b ^^^ times14 c ^^^ times11 d,
    times11 a ^^^ times13 b ^^^ times9 c ^^^ times14 d⟩

end Column

namespace Grid

/-- Applies a function to every column. -/
def map (f : Column → Column) (grid : Grid) : Grid :=
  ⟨f grid.first, f grid.second, f grid.third, f grid.fourth⟩

/-- Pointwise exclusive or. -/
def xor (left right : Grid) : Grid :=
  ⟨left.first.xor right.first, left.second.xor right.second, left.third.xor right.third,
    left.fourth.xor right.fourth⟩

/-- Shifts row number `n` by `n` columns to the left. -/
def shiftRows (grid : Grid) : Grid :=
  let ⟨first, second, third, fourth⟩ := grid
  ⟨⟨first.a, second.b, third.c, fourth.d⟩, ⟨second.a, third.b, fourth.c, first.d⟩,
    ⟨third.a, fourth.b, first.c, second.d⟩, ⟨fourth.a, first.b, second.c, third.d⟩⟩

/-- Shifts row number `n` by `n` columns to the right. -/
def unshiftRows (grid : Grid) : Grid :=
  let ⟨first, second, third, fourth⟩ := grid
  ⟨⟨first.a, fourth.b, third.c, second.d⟩, ⟨second.a, first.b, fourth.c, third.d⟩,
    ⟨third.a, second.b, first.c, fourth.d⟩, ⟨fourth.a, third.b, second.c, first.d⟩⟩

/-- Substitutes every byte. -/
def substitute (grid : Grid) : Grid :=
  grid.map (Column.map Aes256.substitute)

/-- Undoes the substitution of every byte. -/
def unsubstitute (grid : Grid) : Grid :=
  grid.map (Column.map Aes256.unsubstitute)

/-- The grid of a block, column by column. -/
def ofBlock (block : Block) : Grid :=
  ⟨.ofBlock block 0, .ofBlock block 4, .ofBlock block 8, .ofBlock block 12⟩

/-- The block of a grid. -/
def toBlock (grid : Grid) : Block :=
  let ⟨first, second, third, fourth⟩ := grid
  #v[first.a, first.b, first.c, first.d, second.a, second.b, second.c, second.d,
    third.a, third.b, third.c, third.d, fourth.a, fourth.b, fourth.c, fourth.d]

end Grid

/-- The keys of the rounds: one before the first, one after each, and the last apart. -/
structure RoundKeys where
  first : Grid
  middle : List Grid
  last : Grid
  deriving Repr

/-- The next four words of the schedule: `seed` is added to the first of them. -/
def nextGrid (seed : Column) (before : Grid) : Grid :=
  let first := before.first.xor seed
  let second := before.second.xor first
  let third := before.third.xor second
  ⟨first, second, third, before.fourth.xor third⟩

/-- The round keys after the first, two for every round constant. -/
def laterKeys : (constants : List UInt8) → (low high : Grid) → List Grid
  | [], _, _ => []
  | constant :: constants, low, high =>
    let seed := (high.fourth.rotate.map substitute).xor ⟨constant, 0, 0, 0⟩
    let nextLow := nextGrid seed low
    let nextHigh := nextGrid (nextLow.fourth.map substitute) high
    high :: nextLow :: laterKeys constants nextLow nextHigh

/-- The keys of the rounds for a 256-bit key. -/
def RoundKeys.ofKey (key : Vector UInt8 32) : RoundKeys :=
  let low := Grid.ofBlock ((key.take 16).cast (by decide))
  let high := Grid.ofBlock ((key.drop 16).cast (by decide))
  let later := laterKeys [0x01, 0x02, 0x04, 0x08, 0x10, 0x20, 0x40] low high
  ⟨low, later.dropLast, later.getLastD low⟩

/-- Encrypts a grid. -/
def RoundKeys.encrypt (keys : RoundKeys) (grid : Grid) : Grid :=
  let mixed := keys.middle.foldl
    (fun grid key => (grid.substitute.shiftRows.map Column.mix).xor key)
    (grid.xor keys.first)
  mixed.substitute.shiftRows.xor keys.last

/-- Decrypts a grid. -/
def RoundKeys.decrypt (keys : RoundKeys) (grid : Grid) : Grid :=
  let mixed := (grid.xor keys.last).unshiftRows.unsubstitute
  (keys.middle.foldr
    (fun key grid => ((grid.xor key).map Column.unmix).unshiftRows.unsubstitute)
    mixed).xor keys.first

/-- AES under a 256-bit key. -/
def cipher (key : Vector UInt8 32) : BlockCipher :=
  let keys := RoundKeys.ofKey key
  ⟨fun block => (keys.encrypt (Grid.ofBlock block)).toBlock,
    fun block => (keys.decrypt (Grid.ofBlock block)).toBlock⟩

end Missive.Aes256
