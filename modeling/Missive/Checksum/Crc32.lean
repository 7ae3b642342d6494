import Missive.Bytes.Basic

/-!
# CRC-32

The IEEE cyclic redundancy check: a 32-bit register, least significant bit first, that
starts with all bits set and is inverted at the end.
-/

namespace Missive.Crc32

/-- The generator polynomial, with the coefficients in reflected order. -/
def polynomial : UInt32 := 0xEDB88320

/-- Divides the register by one power of the indeterminate. -/
def shiftBit (register : UInt32) : UInt32 :=
  if register &&& 1 = 1 then (register >>> 1) ^^^ polynomial else register >>> 1

/-- Takes one byte into the register. -/
def feed (register : UInt32) (byte : UInt8) : UInt32 :=
  Nat.repeat shiftBit 8 (register ^^^ byte.toUInt32)

/-- The register before the first byte. -/
def initial : UInt32 := 0xFFFFFFFF

/-- Takes a byte string into the register. -/
def update (register : UInt32) (bytes : Bytes) : UInt32 :=
  bytes.foldl feed register

/-- The checksum that a register stands for. -/
def value (register : UInt32) : UInt32 :=
  register ^^^ 0xFFFFFFFF

/-- The checksum of a whole byte string. -/
def checksum (bytes : Bytes) : UInt32 :=
  value (update initial bytes)

end Missive.Crc32
