import Missive.Cipher.Block
import Missive.Stream

/-!
# Counter mode

The keystream is the encryption of successive counter blocks, taken as 128-bit big-endian
numbers that wrap at 2¹²⁸. Masking a text with the keystream encrypts it, and masking it again
decrypts it; the mask of a byte depends on its position alone, so any part of a text can be
masked by itself.
-/

namespace Missive.Counter

/-- The counter block number `index` after `start`. -/
def counterBlock (start : Block) (index : Nat) : Block :=
  Block.ofBytes (Bytes.bigEndian Block.size (Bytes.ofBigEndian start.toBytes + index))
    (Bytes.length_bigEndian _ _)

/-- The keystream block number `index`. -/
def keystreamBlock (cipher : BlockCipher) (start : Block) (index : Nat) : Block :=
  cipher.encrypt (counterBlock start index)

/-- The `length` bytes of the keystream from `position` on. -/
def keystream (cipher : BlockCipher) (start : Block) (position length : Nat) : Bytes :=
  let first := position / Block.size
  let count := (position % Block.size + length + Block.size - 1) / Block.size
  Bytes.slice (Block.join ((List.range' first count).map (keystreamBlock cipher start)))
    (position % Block.size) length

/-- Masks a part of a text that starts at `position`. -/
def mask (cipher : BlockCipher) (start : Block) (position : Nat) (bytes : Bytes) : Bytes :=
  bytes.xor (keystream cipher start position bytes.length)

/-- Masks consecutive pieces of a text, the first of which starts at `position`. -/
def maskPieces (cipher : BlockCipher) (start : Block) : (position : Nat) → List Bytes →
    List Bytes
  | _, [] => []
  | position, piece :: pieces =>
    mask cipher start position piece ::
      maskPieces cipher start (position + piece.length) pieces

/-- The masked view of a stream whose first byte stands at `position` of the text. -/
def view (cipher : BlockCipher) (start : Block) (position : Nat) (stream : ByteStream) :
    ByteStream :=
  ⟨maskPieces cipher start position stream.pieces, stream.ending⟩

end Missive.Counter
