import Missive.Cipher.Block
import Missive.Stream

/-!
# Cipher block chaining

Every block is masked with the ciphertext block before it, the first one with a given start
block, and then encrypted. A text is filled up to whole blocks by between one and sixteen bytes,
each of which holds their number (PKCS #7), and so the last block of every text is marked.

Beside the definitions on lists of blocks stand the views of a stream. Decrypting a stream, the
last complete block is held back until either another one shows that it was an inner block, or
the end shows that it carries the padding.
-/

namespace Missive.Chaining

/-- Encrypts blocks, the first of which is masked with `chain`. -/
def encryptBlocks (cipher : BlockCipher) : (chain : Block) → List Block → List Block
  | _, [] => []
  | chain, block :: blocks =>
    let encrypted := cipher.encrypt (block.xor chain)
    encrypted :: encryptBlocks cipher encrypted blocks

/-- Decrypts blocks, the first of which was masked with `chain`. -/
def decryptBlocks (cipher : BlockCipher) : (chain : Block) → List Block → List Block
  | _, [] => []
  | chain, block :: blocks =>
    (cipher.decrypt block).xor chain :: decryptBlocks cipher block blocks

/-- Fills up a text to whole blocks. -/
def pad (bytes : Bytes) : Bytes :=
  let count := Block.size - bytes.length % Block.size
  bytes ++ List.replicate count (UInt8.ofNat count)

/-- The text in a last block, if its padding is right. -/
def unpad? (block : Block) : Option Bytes :=
  let last := block.toBytes.getLastD 0
  let count := last.toNat
  if 0 < count ∧ count ≤ Block.size then
    let kept := Block.size - count
    if (block.toBytes.drop kept).all (· = last) then some (block.toBytes.take kept)
    else none
  else none

/-- Encrypts a whole text. -/
def encrypt (cipher : BlockCipher) (start : Block) (bytes : Bytes) : Bytes :=
  Block.join (encryptBlocks cipher start (Block.split (pad bytes)))

/--
The encrypted view of consecutive pieces. `pending` are the bytes, fewer than a block, that came
after the last whole block.
-/
def encryptPieces (cipher : BlockCipher) (ending : Ending) :
    (chain : Block) → (pending : Bytes) → List Bytes → ByteStream
  | chain, pending, [] =>
    match ending with
    | .finished => ⟨[encrypt cipher chain pending], .finished⟩
    | other => ⟨[], other⟩
  | chain, pending, piece :: pieces =>
    let bytes := pending ++ piece
    let encrypted := encryptBlocks cipher chain (Block.split bytes)
    let rest :=
      encryptPieces cipher ending (encrypted.getLastD chain) (Block.remainder bytes) pieces
    ⟨ByteStream.consPiece (Block.join encrypted) rest.pieces, rest.ending⟩

/-- The encrypted view of a stream. -/
def encryptView (cipher : BlockCipher) (start : Block) (stream : ByteStream) : ByteStream :=
  encryptPieces cipher stream.ending start [] stream.pieces

/-- How a decrypting view treats an end that a complete ciphertext cannot have. -/
structure Strictness where
  /-- Bytes after the last whole block, and a last block without padding, are let pass. -/
  allowPartial : Bool
  /-- The error for an input without a single block, if it is one. -/
  onEmpty : Option Error

/-- What the end of the input releases, for the block held back and the bytes after it. -/
def finish (strictness : Strictness) (held : Option Block) (pending : Bytes) :
    Except Error Bytes :=
  if pending ≠ [] ∧ strictness.allowPartial = false then
    .error (.decrypt (.incompleteBlock pending.length))
  else
    match held with
    | some block =>
      if pending ≠ [] then .ok block.toBytes
      else
        match unpad? block with
        | some bytes => .ok bytes
        | none =>
          if strictness.allowPartial then .ok block.toBytes
          else .error (.decrypt .invalidPadding)
    | none =>
      match strictness.onEmpty with
      | some error => .error error
      | none => .ok []

/--
The decrypted view of consecutive pieces. `held` is the last decrypted block, not yet released,
and `pending` are the bytes that came after it.
-/
def decryptPieces (cipher : BlockCipher) (strictness : Strictness) (ending : Ending) :
    (chain : Block) → (held : Option Block) → (pending : Bytes) → List Bytes → ByteStream
  | _, held, pending, [] =>
    match ending with
    | .finished =>
      match finish strictness held pending with
      | .ok bytes => ⟨ByteStream.consPiece bytes [], .finished⟩
      | .error error => ⟨[], .rejected (.ofError error)⟩
    | other => ⟨[], other⟩
  | chain, held, pending, piece :: pieces =>
    let bytes := pending ++ piece
    let blocks := Block.split bytes
    let decrypted := held.toList ++ decryptBlocks cipher chain blocks
    let rest := decryptPieces cipher strictness ending (blocks.getLastD chain)
      decrypted.getLast? (Block.remainder bytes) pieces
    ⟨ByteStream.consPiece (Block.join decrypted.dropLast) rest.pieces, rest.ending⟩

/-- The decrypted view of a stream whose first block was masked with `start`. -/
def decryptView (cipher : BlockCipher) (start : Block) (strictness : Strictness)
    (stream : ByteStream) : ByteStream :=
  decryptPieces cipher strictness stream.ending start none [] stream.pieces

/-- Where in the ciphertext the decryption of the byte at `offset` begins. -/
def seekOrigin (offset : Nat) : Nat :=
  (offset / Block.size - 1) * Block.size

/--
A stream from byte `skipped` on. Where it ends before, the first read is rejected with a range
error for `offset`, whose limit is the position reached from `base`.
-/
def skipWithin (offset : UInt64) (base skipped : Nat) (stream : ByteStream) : ByteStream :=
  if stream.ending = .finished ∧ stream.content.length < skipped then
    ⟨[], .rejected (.ofError (.range offset 0 (base + stream.content.length)))⟩
  else stream.skip skipped

/-- Reports an error that stands before the first byte of a stream. -/
def primed (stream : ByteStream) : Except Error ByteStream :=
  match stream.pieces, stream.ending.error? with
  | [], some error => .error error.toError
  | _, _ => .ok stream

/--
The decrypted view from the byte at `offset` on, of a ciphertext that is given from
`seekOrigin offset` on. An offset after the first block needs the block before its own, and an
offset other than zero must lie within the text or at its end.
-/
def openAt (cipher : BlockCipher) (start : Block) (offset : UInt64) (stream : ByteStream) :
    Except Error ByteStream := do
  let block := offset.toNat / Block.size
  let base := block * Block.size
  let skipped := offset.toNat % Block.size
  let text ←
    if block = 0 then
      pure (decryptView cipher start ⟨false, some (.decrypt .emptyCiphertext)⟩ stream)
    else
      let beyond := Error.range offset 0 (base - 1)
      match whole : stream.splitExactly Block.size with
      | .ok (chain, rest) =>
        pure (decryptView cipher (Block.ofBytes chain (stream.length_of_splitExactly whole))
          ⟨false, some beyond⟩ rest)
      | .error error =>
        if error.kind = .unexpectedEnd then throw beyond else throw error.toError
  let text := skipWithin offset base skipped text
  if offset = 0 then pure text else primed text

end Missive.Chaining
