import Missive.Bytes.Decimal

/-!
# Texts and their bytes

The UTF-8 form of a text is taken character by character, and an ASCII character is one byte.
Numbers in names are texts of this kind: they are read as they were written, and a number of 64
bits has at most twenty digits.
-/

namespace Missive

namespace Bytes

theorem ofString_append (first second : String) :
    ofString (first ++ second) = ofString first ++ ofString second := by
  simp [ofString]

theorem ofString_ofList (characters : List Char) :
    ofString (String.ofList characters) = characters.flatMap String.utf8EncodeChar := by
  simp [ofString, List.utf8Encode]

theorem ofString_ascii {bytes : Bytes} (ascii : ∀ byte ∈ bytes, byte.toNat < 128) :
    ofString (String.ofList (bytes.map fun byte => Char.ofNat byte.toNat)) = bytes := by
  have all : ∀ value < 128, String.utf8EncodeChar (Char.ofNat value) = [UInt8.ofNat value] := by
    decide
  rw [ofString_ofList, List.flatMap_map]
  induction bytes with
  | nil => rfl
  | cons byte bytes ih =>
      rw [List.forall_mem_cons] at ascii
      rw [List.flatMap_cons, ih ascii.2, all _ ascii.1, UInt8.ofNat_toNat, List.singleton_append]

theorem isSome_toString?_of_ascii {bytes : Bytes} (ascii : ∀ byte ∈ bytes, byte.toNat < 128) :
    (toString? bytes).isSome = true := by
  rw [← ofString_ascii ascii, toString?_ofString]
  rfl

end Bytes

namespace Decimal

theorem isDigit_of_mem_digits {value : Nat} {byte : UInt8} (member : byte ∈ digits value) :
    isDigit byte = true :=
  List.all_eq_true.mp (all_isDigit_digits value) byte member

theorem length_digits_le {value : Nat} (small : value < UInt64.size) :
    (digits value).length ≤ 20 := by
  have bound : ∀ width value, value < 10 ^ (width + 1) → (digits value).length ≤ width + 1 := by
    intro width
    induction width with
    | zero =>
        intro value small
        rw [digits, if_pos (by omega)]
        exact Nat.le_refl 1
    | succ width ih =>
        intro value small
        rw [digits]
        split
        · exact Nat.succ_le_succ (Nat.zero_le _)
        · have rest := ih (value / 10) (by omega)
          rw [List.length_append]
          exact Nat.succ_le_succ rest
  exact bound 19 value (Nat.lt_trans small (by decide))

end Decimal

namespace Text

theorem append_left_cancel {front first second : String} (same : front ++ first = front ++ second) :
    first = second := by
  have letters := congrArg String.toList same
  rw [String.toList_append, String.toList_append] at letters
  exact String.toList_inj.mp (List.append_cancel_left letters)

theorem ofString_ofNatural (value : Nat) :
    Bytes.ofString (ofNatural value) = Decimal.digits value := by
  apply Bytes.ofString_ascii
  intro byte member
  have digit := Decimal.isDigit_of_mem_digits member
  simp only [Decimal.isDigit, Bool.and_eq_true, decide_eq_true_eq, UInt8.le_iff_toNat_le] at digit
  exact Nat.lt_of_le_of_lt digit.2 (by decide)

/-- A number is read as it was written. -/
theorem natural?_ofNatural (number : UInt64) : natural? (ofNatural number.toNat) = some number := by
  rw [natural?, ofString_ofNatural]
  split
  · rename_i digits shape
    have digit : Decimal.isDigit 43 = true :=
      Decimal.isDigit_of_mem_digits (shape ▸ List.mem_cons_self)
    exact absurd digit (by decide)
  · simp [number.toNat_lt_size]

theorem isDigit_of_mem_ofNatural {value : Nat} {character : Char}
    (member : character ∈ (ofNatural value).toList) : character.isDigit = true := by
  rw [ofNatural, String.toList_ofList] at member
  rcases List.mem_map.mp member with ⟨byte, listed, rfl⟩
  have all : ∀ value < 58, 48 ≤ value → (Char.ofNat value).isDigit = true := by decide
  have digit := Decimal.isDigit_of_mem_digits listed
  simp only [Decimal.isDigit, Bool.and_eq_true, decide_eq_true_eq, UInt8.le_iff_toNat_le] at digit
  exact all _ (Nat.lt_succ_of_le digit.2) digit.1

end Text

end Missive
