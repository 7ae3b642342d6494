import Missive.Engines
import Missive.Record.Section
import Missive.Store.Memory

/-!
# Reading sections

A section is read from the body of its message: as a whole, with its checksum verified if
wanted, or in a range, for which no more is read than the blocks that cover it. A checksum covers
the whole stored section, so none is verified for a range.

The stored bytes of a whole section are read once. While the cipher takes them, they are counted
and given to the checksum (`Tally`).
-/

namespace Missive

/-- What is noted of the stored bytes of a section as they are read. -/
structure Tally where
  /-- The state of the checksum to verify. -/
  checksum : Option Checksum.State
  /-- The number of bytes. -/
  count : Nat

namespace Tally

/-- Before the first byte. -/
def start (checksum : Option Checksum) : Tally :=
  ⟨checksum.map Checksum.start, 0⟩

/-- Takes the bytes of one read. -/
def update (tally : Tally) (piece : Bytes) : Tally :=
  ⟨tally.checksum.map (·.update piece), tally.count + piece.length⟩

/-- Takes all reads of a stream. -/
def observe (tally : Tally) (stream : ByteStream) : Tally :=
  stream.pieces.foldl update tally

end Tally

/-- What sections of one message are read with. -/
structure BodyReader where
  source : Source
  engines : Engines
  number : UInt64

namespace BodyReader

/-- The stored bytes of a section from `origin` on. -/
def stored (reader : BodyReader) (described : Section) (origin : Nat) :
    Except Error ByteStream := do
  let body ← reader.source.openBody reader.number (described.offset.toNat + origin)
  return body.limited (described.length.toNat - origin)

/-- The checksum to verify for a section, if there is one. -/
def checksumFor (reader : BodyReader) (verify : Bool) (described : Section) :
    Except Error (Option Checksum) :=
  match verify, described.checksum with
  | true, some name => return some (← reader.engines.checksums.get name)
  | _, _ => return none

/-- Compares the checksum of what was read with the one that is recorded for a section. -/
def checkSum (label : String) (described : Section) (checksum : Option Checksum.State) :
    Except Error Unit :=
  match checksum, described.checksumValue with
  | some checksum, some expected =>
    let computed := checksum.value
    if computed = expected then .ok ()
    else .error (.checksumMismatch label (Hex.text expected) (Hex.text computed))
  | _, _ => .ok ()

/-- The plaintext of a whole section, which `label` names in errors. -/
def readAll (reader : BodyReader) (verify : Bool) (label : String) (described : Section) :
    Except Error Bytes := do
  let cipher ← reader.engines.cipherFor described.cipher
  let checksum ← reader.checksumFor verify described
  let stored ← reader.stored described 0
  let plaintext ← cipher.reader described.key stored
  let bytes ← plaintext.reading
  let tally := (Tally.start checksum).observe stored
  if tally.count ≠ described.length.toNat then
    throw (.format (.bodyEnded label tally.count described.length))
  checkSum label described tally.checksum
  return bytes

/-- The part of the plaintext of a section at `offset`, `length` bytes long. -/
def readRange (reader : BodyReader) (described : Section) (offset length : UInt64) :
    Except Error Bytes := do
  described.checkRange offset length
  let cipher ← reader.engines.cipherFor described.cipher
  let stored ← reader.stored described (cipher.seekOrigin offset)
  let transfer := cipher.randomAccessStream described.key offset length stored
  if let some error := transfer.failure then throw error
  if transfer.written < length.toNat then
    throw (.range offset length (offset.toNat + transfer.written))
  return transfer.output

/-- The plaintext of a section as a stream. -/
def openSection (reader : BodyReader) (described : Section) : Except Error ByteStream := do
  let cipher ← reader.engines.cipherFor described.cipher
  cipher.reader described.key (← reader.stored described 0)

end BodyReader

end Missive
