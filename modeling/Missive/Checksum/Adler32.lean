import Missive.Bytes.Basic

/-!
# Adler-32

Two sums modulo the largest prime below 2¹⁶: one of the bytes, starting at one, and one of the
successive values of the first.
-/

namespace Missive.Adler32

/-- The largest prime below 2¹⁶. -/
def modulus : Nat := 65521

/-- The two running sums, each below the modulus. -/
structure Sums where
  low : Nat
  high : Nat
  deriving DecidableEq, Repr

/-- The sums before the first byte. -/
def initial : Sums := ⟨1, 0⟩

/-- Takes one byte into the sums. -/
def feed (sums : Sums) (byte : UInt8) : Sums :=
  let low := (sums.low + byte.toNat) % modulus
  ⟨low, (sums.high + low) % modulus⟩

/-- Takes a byte string into the sums. -/
def update (sums : Sums) (bytes : Bytes) : Sums :=
  bytes.foldl feed sums

/-- The checksum that the sums stand for. -/
def value (sums : Sums) : UInt32 :=
  UInt32.ofNat (sums.high * 65536 + sums.low)

/-- The checksum of a whole byte string. -/
def checksum (bytes : Bytes) : UInt32 :=
  value (update initial bytes)

end Missive.Adler32
