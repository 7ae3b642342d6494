import Missive.Checksum.Adler32
import Missive.Checksum.Blake3
import Missive.Checksum.Crc32
import Missive.Stream

/-!
# Section checksums

A section may carry a checksum of its stored bytes. Whatever the native width of the algorithm,
a checksum is four bytes. It can be taken of a whole byte string (`Checksum.compute`), or piece
by piece, with a value to be read at any point (`Checksum.State`).
-/

namespace Missive

/-- The checksum algorithms. -/
inductive Checksum where
  | crc32
  | adler32
  | blake3
  deriving DecidableEq, Repr

namespace Checksum

/-- The name under which records refer to the algorithm. -/
def name : Checksum → String
  | crc32 => "CRC32"
  | adler32 => "ADLER32"
  | blake3 => "BLAKE3-32"

/-- The length of every checksum. -/
def width : Nat := 4

/-- The checksum of a whole byte string. -/
def compute : Checksum → Bytes → Bytes
  | crc32, bytes => Bytes.bigEndian width (Crc32.checksum bytes).toNat
  | adler32, bytes => Bytes.bigEndian width (Adler32.checksum bytes).toNat
  | blake3, bytes => (Blake3.digest bytes).take width

/-- What an algorithm keeps between two pieces of its input. -/
inductive State where
  | crc32 (register : UInt32)
  | adler32 (sums : Adler32.Sums)
  | blake3 (state : Blake3.State)

/-- The state before the first byte. -/
def start : Checksum → State
  | crc32 => .crc32 Crc32.initial
  | adler32 => .adler32 Adler32.initial
  | blake3 => .blake3 Blake3.State.initial

namespace State

/-- Takes a piece of input. -/
def update : State → Bytes → State
  | crc32 register, bytes => crc32 (Crc32.update register bytes)
  | adler32 sums, bytes => adler32 (Adler32.update sums bytes)
  | blake3 state, bytes => blake3 (state.update bytes)

/-- Takes a single byte. -/
def push (state : State) (byte : UInt8) : State :=
  state.update [byte]

/-- The checksum of everything taken so far. -/
def value : State → Bytes
  | crc32 register => Bytes.bigEndian width (Crc32.value register).toNat
  | adler32 sums => Bytes.bigEndian width (Adler32.value sums).toNat
  | blake3 state => state.digest.take width

end State

/-- Takes all pieces of a stream. -/
def State.observe (state : State) (stream : ByteStream) : State :=
  stream.pieces.foldl update state

/-- The checksum of everything a stream holds, or the error met at its end. -/
def ofStream (checksum : Checksum) (stream : ByteStream) : Except Error Bytes :=
  match stream.ending.error? with
  | none => .ok (checksum.start.observe stream).value
  | some error => .error error.toError

end Checksum

end Missive
