import Missive.Bytes.Basic

/-!
# Blocks and block ciphers

A block is sixteen bytes. A block cipher under a fixed key is a pair of functions on blocks; the
modes of operation need nothing else of it, and so they are stated for any such pair.
-/

namespace Missive

/-- Sixteen bytes. -/
abbrev Block := Vector UInt8 16

namespace Block

/-- The number of bytes in a block. -/
def size : Nat := 16

/-- A byte string of the right length as a block. -/
def ofBytes (bytes : Bytes) (whole : bytes.length = size) : Block :=
  ⟨bytes.toArray, by simpa [size] using whole⟩

/-- The bytes of a block. -/
def toBytes (block : Block) : Bytes :=
  block.toList

@[simp]
theorem length_toBytes (block : Block) : block.toBytes.length = size := by
  simp [toBytes, size]

@[simp]
theorem toBytes_ofBytes (bytes : Bytes) (whole : bytes.length = size) :
    (ofBytes bytes whole).toBytes = bytes := by
  simp [ofBytes, toBytes, Vector.toList]

@[simp]
theorem ofBytes_toBytes (block : Block) (whole : block.toBytes.length = size) :
    ofBytes block.toBytes whole = block := by
  simp [ofBytes, toBytes, Vector.toList]

/-- Pointwise exclusive or. -/
def xor (left right : Block) : Block :=
  left.zipWith (· ^^^ ·) right

/-- Masking twice with the same block changes nothing. -/
@[simp]
theorem xor_xor_cancel (left right : Block) : (left.xor right).xor right = left := by
  apply Vector.ext
  intro index bounded
  simp only [xor, Vector.getElem_zipWith, UInt8.xor_assoc, UInt8.xor_self, UInt8.xor_zero]

/-- The bytes of consecutive blocks. -/
def join (blocks : List Block) : Bytes :=
  blocks.flatMap toBytes

/-- The whole blocks at the front of a byte string. -/
def split (bytes : Bytes) : List Block :=
  if whole : (bytes.take size).length = size then
    ofBytes (bytes.take size) whole :: split (bytes.drop size)
  else []
  termination_by bytes.length
  decreasing_by
    simp only [List.length_take, List.length_drop, size] at whole ⊢
    omega

/-- The bytes that are left after the whole blocks, fewer than a block. -/
def remainder (bytes : Bytes) : Bytes :=
  bytes.drop (bytes.length / size * size)

end Block

/-- A block cipher under a fixed key. -/
structure BlockCipher where
  encrypt : Block → Block
  decrypt : Block → Block

/-- Decryption undoes encryption. -/
def BlockCipher.Inverts (cipher : BlockCipher) : Prop :=
  ∀ block, cipher.decrypt (cipher.encrypt block) = block

end Missive
