import Missive.Cipher.Aes256

/-!
# AES-256 decryption undoes encryption

Every step of a round has an inverse. For the substitution of bytes this is a matter of its two
tables. Mixing a column is linear over the two-element field, so that its inverse needs to be
checked only for columns with a single byte that is not zero. The rounds are then undone one by
one, the last one first (`RoundKeys.decrypt_encrypt`).
-/

namespace Missive.Aes256

theorem forall_byte {motive : UInt8 → Prop}
    (below : ∀ value < 256, motive (UInt8.ofNat value)) (byte : UInt8) : motive byte := by
  have holds := below byte.toNat byte.toNat_lt
  rwa [UInt8.ofNat_toNat] at holds

@[simp]
theorem unsubstitute_substitute (byte : UInt8) : unsubstitute (substitute byte) = byte := by
  revert byte
  apply forall_byte
  decide +kernel

/-! ### Multiples of a byte -/

theorem lt_xor_iff (left right : UInt8) :
    left ^^^ right < 0x80 ↔ (left < 0x80 ↔ right < 0x80) := by
  have top : ∀ byte : UInt8, byte < 0x80 ↔ byte.toNat.testBit 7 = false := by
    intro byte
    have bound := byte.toNat_lt
    rw [UInt8.lt_iff_toNat_lt, Nat.testBit_eq_decide_div_mod_eq, decide_eq_false_iff_not]
    change byte.toNat < 128 ↔ ¬byte.toNat / 128 % 2 = 1
    omega
  rw [top, top, top, UInt8.toNat_xor, Nat.testBit_xor]
  cases left.toNat.testBit 7 <;> cases right.toNat.testBit 7 <;> simp

theorem double_xor (left right : UInt8) :
    double (left ^^^ right) = double left ^^^ double right := by
  have reduced : ∀ a b : UInt8, a ^^^ b = (a ^^^ 0x1b) ^^^ (b ^^^ 0x1b) := by
    intro a b
    have same : (0x1b : UInt8) ^^^ 0x1b = 0 := by decide
    calc a ^^^ b
        = a ^^^ b ^^^ (0x1b ^^^ 0x1b) := by rw [same, UInt8.xor_zero]
      _ = (a ^^^ 0x1b) ^^^ (b ^^^ 0x1b) := by ac_rfl
  by_cases lowLeft : left < 0x80 <;> by_cases lowRight : right < 0x80 <;>
    simp only [double, lt_xor_iff, lowLeft, lowRight, iff_self, iff_true, iff_false,
      not_true_eq_false, if_true, if_false, UInt8.shiftLeft_xor]
  · ac_rfl
  · ac_rfl
  · exact reduced _ _

theorem triple_xor (left right : UInt8) :
    triple (left ^^^ right) = triple left ^^^ triple right := by
  simp only [triple, double_xor]
  ac_rfl

theorem times9_xor (left right : UInt8) :
    times9 (left ^^^ right) = times9 left ^^^ times9 right := by
  simp only [times9, double_xor]
  ac_rfl

theorem times11_xor (left right : UInt8) :
    times11 (left ^^^ right) = times11 left ^^^ times11 right := by
  simp only [times11, double_xor]
  ac_rfl

theorem times13_xor (left right : UInt8) :
    times13 (left ^^^ right) = times13 left ^^^ times13 right := by
  simp only [times13, double_xor]
  ac_rfl

theorem times14_xor (left right : UInt8) :
    times14 (left ^^^ right) = times14 left ^^^ times14 right := by
  simp only [times14, double_xor]
  ac_rfl

/-! ### Mixing columns -/

namespace Column

theorem mix_xor (left right : Column) : (left.xor right).mix = left.mix.xor right.mix := by
  simp only [mix, xor, double_xor, triple_xor, mk.injEq]
  refine ⟨?_, ?_, ?_, ?_⟩ <;> ac_rfl

theorem unmix_xor (left right : Column) :
    (left.xor right).unmix = left.unmix.xor right.unmix := by
  simp only [unmix, xor, times9_xor, times11_xor, times13_xor, times14_xor, mk.injEq]
  refine ⟨?_, ?_, ?_, ?_⟩ <;> ac_rfl

theorem unmix_mix_first (byte : UInt8) : (mix ⟨byte, 0, 0, 0⟩).unmix = ⟨byte, 0, 0, 0⟩ := by
  revert byte
  apply forall_byte
  decide +kernel

theorem unmix_mix_second (byte : UInt8) : (mix ⟨0, byte, 0, 0⟩).unmix = ⟨0, byte, 0, 0⟩ := by
  revert byte
  apply forall_byte
  decide +kernel

theorem unmix_mix_third (byte : UInt8) : (mix ⟨0, 0, byte, 0⟩).unmix = ⟨0, 0, byte, 0⟩ := by
  revert byte
  apply forall_byte
  decide +kernel

theorem unmix_mix_fourth (byte : UInt8) : (mix ⟨0, 0, 0, byte⟩).unmix = ⟨0, 0, 0, byte⟩ := by
  revert byte
  apply forall_byte
  decide +kernel

@[simp]
theorem unmix_mix (column : Column) : column.mix.unmix = column := by
  rcases column with ⟨a, b, c, d⟩
  have parts : (⟨a, b, c, d⟩ : Column) =
      xor (xor ⟨a, 0, 0, 0⟩ ⟨0, b, 0, 0⟩) (xor ⟨0, 0, c, 0⟩ ⟨0, 0, 0, d⟩) := by
    simp [xor]
  rw [parts]
  simp only [mix_xor, unmix_xor, unmix_mix_first, unmix_mix_second, unmix_mix_third,
    unmix_mix_fourth]

@[simp]
theorem xor_xor_cancel (left right : Column) : (left.xor right).xor right = left := by
  simp only [xor, UInt8.xor_assoc, UInt8.xor_self, UInt8.xor_zero]

end Column

/-! ### Rounds -/

namespace Grid

@[simp]
theorem xor_xor_cancel (left right : Grid) : (left.xor right).xor right = left := by
  simp [xor]

@[simp]
theorem unshiftRows_shiftRows (grid : Grid) : grid.shiftRows.unshiftRows = grid := rfl

@[simp]
theorem unsubstitute_substitute (grid : Grid) : grid.substitute.unsubstitute = grid := by
  simp [substitute, unsubstitute, map, Column.map]

@[simp]
theorem map_unmix_map_mix (grid : Grid) : (grid.map Column.mix).map Column.unmix = grid := by
  simp [map]

theorem ofBlock_toBlock (grid : Grid) : ofBlock grid.toBlock = grid := rfl

theorem toBlock_ofBlock (block : Block) : (ofBlock block).toBlock = block := by
  apply Vector.ext
  intro index bound
  have cases : index = 0 ∨ index = 1 ∨ index = 2 ∨ index = 3 ∨ index = 4 ∨ index = 5 ∨
      index = 6 ∨ index = 7 ∨ index = 8 ∨ index = 9 ∨ index = 10 ∨ index = 11 ∨ index = 12 ∨
      index = 13 ∨ index = 14 ∨ index = 15 := by
    omega
  rcases cases with rfl | rfl | rfl | rfl | rfl | rfl | rfl | rfl | rfl | rfl | rfl | rfl |
    rfl | rfl | rfl | rfl <;>
    simp [ofBlock, toBlock, Column.ofBlock, Vector.getD]

end Grid

namespace RoundKeys

/-- The middle rounds are undone in the opposite order. -/
theorem foldr_foldl (middle : List Grid) (grid : Grid) :
    middle.foldr
        (fun key grid => ((grid.xor key).map Column.unmix).unshiftRows.unsubstitute)
        (middle.foldl
          (fun grid key => (grid.substitute.shiftRows.map Column.mix).xor key) grid) =
      grid := by
  induction middle generalizing grid with
  | nil => rfl
  | cons key middle ih =>
      rw [List.foldl_cons, List.foldr_cons, ih]
      simp

@[simp]
theorem decrypt_encrypt (keys : RoundKeys) (grid : Grid) :
    keys.decrypt (keys.encrypt grid) = grid := by
  simp only [decrypt, encrypt, Grid.xor_xor_cancel, Grid.unshiftRows_shiftRows,
    Grid.unsubstitute_substitute, foldr_foldl]

end RoundKeys

theorem inverts_cipher (key : Vector UInt8 32) : (cipher key).Inverts := by
  intro block
  simp only [cipher, Grid.ofBlock_toBlock, RoundKeys.decrypt_encrypt, Grid.toBlock_ofBlock]

end Missive.Aes256
