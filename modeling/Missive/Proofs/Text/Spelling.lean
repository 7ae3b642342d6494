import Mathlib.Data.List.Induction
import Missive.Proofs.Text

/-!
# Spellings of a number

A number in a name is read with a plus sign and zeros in front of it, and so it has many
spellings. These are all (`Text.natural?_eq_some_iff`), and the plain one is that which is written.
-/

namespace Missive

namespace Decimal

theorem digit_digitValue {byte : UInt8} (digit : isDigit byte = true) :
    Decimal.digit (digitValue byte) = byte ∧ digitValue byte < 10 := by
  simp only [isDigit, Bool.and_eq_true, decide_eq_true_eq, UInt8.le_iff_toNat_le] at digit
  have low : 48 ≤ byte.toNat := digit.1
  have high : byte.toNat ≤ 57 := digit.2
  constructor
  · apply UInt8.toNat_inj.mp
    simp only [Decimal.digit, digitValue, UInt8.toNat_ofNat']
    omega
  · simp only [digitValue]
    omega

theorem ofDigits_append (front : Bytes) (last : UInt8) :
    ofDigits (front ++ [last]) = 10 * ofDigits front + digitValue last := by
  simp [ofDigits]

/-- A row of digits is the written form of its value, with zeros in front. -/
theorem exists_zeros {bytes : Bytes} (filled : bytes ≠ []) (plain : bytes.all isDigit = true) :
    ∃ zeros, bytes = List.replicate zeros 48 ++ digits (ofDigits bytes) := by
  induction bytes using List.reverseRecOn with
  | nil => exact absurd rfl filled
  | append_singleton front last ih =>
      rw [List.all_append, Bool.and_eq_true] at plain
      rcases plain with ⟨earlier, single⟩
      have single : isDigit last = true := by simpa using single
      rcases digit_digitValue single with ⟨back, small⟩
      by_cases empty : front = []
      · subst empty
        refine ⟨0, ?_⟩
        have value : ofDigits [last] = digitValue last := by simp [ofDigits]
        rw [List.nil_append, value, digits, if_pos small, back]
        rfl
      · rcases ih empty earlier with ⟨zeros, shape⟩
        by_cases zero : ofDigits front = 0
        · refine ⟨zeros + 1, ?_⟩
          have written : digits 0 = [48] := by
            rw [digits]
            rfl
          rw [zero, written] at shape
          rw [ofDigits_append, zero, Nat.mul_zero, Nat.zero_add, digits, if_pos small, back]
          rw [shape, List.replicate_succ']
        · refine ⟨zeros, ?_⟩
          have large : ¬10 * ofDigits front + digitValue last < 10 := by omega
          have quotient : (10 * ofDigits front + digitValue last) / 10 = ofDigits front := by omega
          have remainder : (10 * ofDigits front + digitValue last) % 10 = digitValue last := by
            omega
          rw [ofDigits_append, digits, if_neg large, quotient, remainder, back,
            ← List.append_assoc, ← shape]

theorem ofDigits_zeros (zeros : Nat) (bytes : Bytes) :
    ofDigits (List.replicate zeros 48 ++ bytes) = ofDigits bytes := by
  induction zeros with
  | zero => rfl
  | succ zeros ih =>
      rw [← ih]
      simp [ofDigits, List.replicate_succ, digitValue]

theorem value?_eq_some_iff {bytes : Bytes} {value : Nat} :
    value? bytes = some value ↔ ∃ zeros, bytes = List.replicate zeros 48 ++ digits value := by
  constructor
  · intro known
    rw [value?] at known
    split at known
    · rename_i shape
      cases known
      exact exists_zeros shape.1 shape.2
    · cases known
  · rintro ⟨zeros, rfl⟩
    have filled : List.replicate zeros 48 ++ digits value ≠ [] := by
      simp [digits_ne_nil]
    have plain : (List.replicate zeros 48 ++ digits value).all isDigit = true := by
      rw [List.all_append, all_isDigit_digits, Bool.and_true, List.all_replicate]
      split <;> decide
    rw [value?, if_pos ⟨filled, plain⟩, ofDigits_zeros, ofDigits_digits]

end Decimal

namespace Text

/-- The texts that are read as a number: a plus sign or none, any zeros, and its digits. -/
def Spells (text : String) (number : UInt64) : Prop :=
  ∃ (sign : String) (zeros : Nat), (sign = "" ∨ sign = "+") ∧
    text = sign ++ String.ofList (List.replicate zeros '0') ++ ofNatural number.toNat

theorem ofString_injective {first second : String}
    (same : Bytes.ofString first = Bytes.ofString second) : first = second := by
  apply Option.some.inj
  rw [← Bytes.toString?_ofString first, same, Bytes.toString?_ofString]

theorem ofString_zeros (zeros : Nat) :
    Bytes.ofString (String.ofList (List.replicate zeros '0')) = List.replicate zeros 48 := by
  have ascii : ∀ byte ∈ List.replicate zeros (48 : UInt8), byte.toNat < 128 := by
    intro byte member
    rw [List.eq_of_mem_replicate member]
    decide
  have same := Bytes.ofString_ascii ascii
  rw [List.map_replicate] at same
  exact same

theorem ofString_spelling (sign : String) (zeros : Nat) (number : UInt64) :
    Bytes.ofString (sign ++ String.ofList (List.replicate zeros '0') ++ ofNatural number.toNat) =
      Bytes.ofString sign ++ (List.replicate zeros 48 ++ Decimal.digits number.toNat) := by
  simp only [Bytes.ofString_append, ofString_zeros, ofString_ofNatural, List.append_assoc]

theorem exists_value_of_natural? {digits : Bytes} {number : UInt64}
    (known : (do
      let value ← Decimal.value? digits
      if value < UInt64.size then return UInt64.ofNat value else none) = some number) :
    Decimal.value? digits = some number.toNat := by
  rcases Option.bind_eq_some_iff.mp known with ⟨value, read, known⟩
  split at known
  · rename_i small
    cases known
    rw [read, UInt64.toNat_ofNat_of_lt' small]
  · cases known

/-- A text is read as a number if and only if it is a spelling of it. -/
theorem natural?_eq_some_iff {text : String} {number : UInt64} :
    natural? text = some number ↔ Spells text number := by
  have plus : Bytes.ofString "+" = [43] := by decide
  have empty : Bytes.ofString "" = [] := by decide
  constructor
  · intro known
    rw [natural?] at known
    split at known
    · rename_i digits signed
      rcases Decimal.value?_eq_some_iff.mp (exists_value_of_natural? known) with ⟨zeros, shape⟩
      refine ⟨"+", zeros, .inr rfl, ofString_injective ?_⟩
      rw [ofString_spelling, signed, shape, plus]
      rfl
    · rcases Decimal.value?_eq_some_iff.mp (exists_value_of_natural? known) with ⟨zeros, shape⟩
      refine ⟨"", zeros, .inl rfl, ofString_injective ?_⟩
      rw [ofString_spelling, shape, empty]
      rfl
  · rintro ⟨sign, zeros, chosen, rfl⟩
    have read : Decimal.value? (List.replicate zeros 48 ++ Decimal.digits number.toNat) =
        some number.toNat := Decimal.value?_eq_some_iff.mpr ⟨zeros, rfl⟩
    rw [natural?, ofString_spelling]
    rcases chosen with rfl | rfl
    · rw [empty, List.nil_append]
      split
      · -- A row of digits does not begin with a sign.
        rename_i digits shape
        rw [shape] at read
        have refused : Decimal.value? (43 :: digits) = none := by
          simp [Decimal.value?, Decimal.isDigit]
        rw [refused] at read
        cases read
      · simp [read, number.toNat_lt_size]
    · rw [plus, List.singleton_append]
      simp [read, number.toNat_lt_size]

end Text

end Missive
