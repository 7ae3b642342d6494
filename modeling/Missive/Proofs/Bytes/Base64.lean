import Missive.Bytes.Base64

/-!
# Base64 without loss

Reading gives back what was written. A group of three bytes is read by itself, whatever comes
after it, and only the last group can be padded. All symbols are ASCII signs, and so the written
form is always the UTF-8 form of a text.
-/

namespace Missive

namespace Base64

theorem symbol_ne_pad {value : Nat} (small : value < 64) : symbol value ≠ pad := by
  intro same
  have known := value?_symbol value small
  rw [same, value?_pad] at known
  cases known

/-- The symbols of three bytes hold the bytes. -/
theorem values_of_group (first second third : UInt8) :
    value? (symbol (first.toNat / 4)) = some (first.toNat / 4) ∧
    value? (symbol (first.toNat % 4 * 16 + second.toNat / 16)) =
      some (first.toNat % 4 * 16 + second.toNat / 16) ∧
    value? (symbol (second.toNat % 16 * 4 + third.toNat / 64)) =
      some (second.toNat % 16 * 4 + third.toNat / 64) ∧
    value? (symbol (third.toNat % 64)) = some (third.toNat % 64) := by
  have first_lt := first.toNat_lt
  have second_lt := second.toNat_lt
  have third_lt := third.toNat_lt
  exact ⟨value?_symbol _ (by omega), value?_symbol _ (by omega), value?_symbol _ (by omega),
    value?_symbol _ (by omega)⟩

theorem ofNat_eq {byte : UInt8} {value : Nat} (same : value = byte.toNat) :
    UInt8.ofNat value = byte := by
  rw [same, UInt8.ofNat_toNat]

/-- Reading gives back what was written. -/
@[simp]
theorem decode?_encode (bytes : Bytes) : decode? (encode bytes) = some bytes := by
  fun_induction encode bytes with
  | case1 first second third rest ih =>
      rcases values_of_group first second third with ⟨one, two, three, four⟩
      have third_lt := third.toNat_lt
      have last : symbol (third.toNat % 64) ≠ pad := symbol_ne_pad (by omega)
      have inner : symbol (second.toNat % 16 * 4 + third.toNat / 64) ≠ pad :=
        symbol_ne_pad (by omega)
      have low : UInt8.ofNat (first.toNat / 4 * 4 +
          (first.toNat % 4 * 16 + second.toNat / 16) / 16) = first := by
        have second_lt := second.toNat_lt
        exact ofNat_eq (by omega)
      have middle : UInt8.ofNat ((first.toNat % 4 * 16 + second.toNat / 16) % 16 * 16 +
          (second.toNat % 16 * 4 + third.toNat / 64) / 4) = second := by
        have second_lt := second.toNat_lt
        exact ofNat_eq (by omega)
      have high : UInt8.ofNat ((second.toNat % 16 * 4 + third.toNat / 64) % 4 * 64 +
          third.toNat % 64) = third := ofNat_eq (by omega)
      cases shape : encode rest with
      | nil =>
          rw [shape] at ih
          cases ih
          simp only [decode?, one, two, three, four, if_neg last, if_neg inner, low, middle, high,
            Option.bind_eq_bind, Option.bind_some, Option.pure_def]
      | cons byte later =>
          rw [shape] at ih
          simp only [decode?, one, two, three, four, ih, low, middle, high, Option.bind_eq_bind,
            Option.bind_some, Option.pure_def]
  | case2 first second =>
      have first_lt := first.toNat_lt
      have second_lt := second.toNat_lt
      rcases values_of_group first second 0 with ⟨one, two, three, _⟩
      simp only [UInt8.toNat_zero, Nat.zero_div, Nat.add_zero] at three
      have last : symbol (second.toNat % 16 * 4) ≠ pad := symbol_ne_pad (by omega)
      have spare : second.toNat % 16 * 4 % 4 = 0 := by omega
      have low : UInt8.ofNat (first.toNat / 4 * 4 +
          (first.toNat % 4 * 16 + second.toNat / 16) / 16) = first := ofNat_eq (by omega)
      have high : UInt8.ofNat ((first.toNat % 4 * 16 + second.toNat / 16) % 16 * 16 +
          second.toNat % 16 * 4 / 4) = second := ofNat_eq (by omega)
      simp only [decode?, one, two, three, if_neg last, if_true, spare, low, high,
        Option.bind_eq_bind, Option.bind_some, Option.pure_def]
  | case3 first =>
      have first_lt := first.toNat_lt
      rcases values_of_group first 0 0 with ⟨one, two, _, _⟩
      simp only [UInt8.toNat_zero, Nat.zero_div, Nat.add_zero] at two
      have spare : first.toNat % 4 * 16 % 16 = 0 := by omega
      have low : UInt8.ofNat (first.toNat / 4 * 4 + first.toNat % 4 * 16 / 16) = first :=
        ofNat_eq (by omega)
      simp only [decode?, one, two, if_true, spare, low, and_self, Option.bind_eq_bind,
        Option.bind_some, Option.pure_def]
  | case4 => rfl

theorem ascii_encode (bytes : Bytes) : ∀ byte ∈ encode bytes, byte.toNat < 128 := by
  have all : ∀ value < 64, (symbol value).toNat < 128 := by decide
  have last : pad.toNat < 128 := by decide
  fun_induction encode bytes with
  | case1 first second third rest ih =>
      have first_lt := first.toNat_lt
      have second_lt := second.toNat_lt
      have third_lt := third.toNat_lt
      simp only [List.forall_mem_cons]
      exact ⟨all _ (by omega), all _ (by omega), all _ (by omega), all _ (by omega), ih⟩
  | case2 first second =>
      have first_lt := first.toNat_lt
      have second_lt := second.toNat_lt
      simp only [List.forall_mem_cons]
      exact ⟨all _ (by omega), all _ (by omega), all _ (by omega), last, by simp⟩
  | case3 first =>
      have first_lt := first.toNat_lt
      simp only [List.forall_mem_cons]
      exact ⟨all _ (by omega), all _ (by omega), last, last, by simp⟩
  | case4 => simp

end Base64

end Missive
