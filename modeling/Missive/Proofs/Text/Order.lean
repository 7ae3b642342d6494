import Missive.Proofs.Text

/-!
# The order of texts

Texts are compared character by character, and their UTF-8 forms byte by byte. The two orders
are one: of two characters the higher one has the higher form, whatever follows.
-/

namespace Missive

theorem utf8EncodeChar_append_lt {first second : Char} (less : first < second)
    (rest other : Bytes) :
    String.utf8EncodeChar first ++ rest < String.utf8EncodeChar second ++ other := by
  have below : first.val.toNat < second.val.toNat := less
  have bound : second.val.toNat < 1114112 := by
    have valid := second.valid
    simp only [UInt32.isValidChar, Nat.isValidChar] at valid
    omega
  simp only [String.utf8EncodeChar]
  generalize first.val.toNat = low at below
  generalize second.val.toNat = high at below bound
  -- The digits of a number to the base 64 are compared from the highest one on.
  have middle : ∀ value, value / 64 / 64 = value / 4096 := fun value =>
    Nat.div_div_eq_div_mul value 64 64
  have upper : ∀ value, value / 4096 / 64 = value / 262144 := fun value =>
    Nat.div_div_eq_div_mul value 4096 64
  have tail : ∀ value, (value % 64 + 128) % 2 ^ 8 = value % 64 + 128 := fun value =>
    Nat.mod_eq_of_lt (by omega)
  have front : ∀ value < 1114112,
      (value / 262144 % 8 + 240) % 2 ^ 8 = value / 262144 + 240 := by
    intro value small
    rw [Nat.mod_eq_of_lt (show value / 262144 < 8 by omega)]
    exact Nat.mod_eq_of_lt (by omega)
  have := middle low
  have := middle high
  have := upper low
  have := upper high
  have bound' : low < 1114112 := by omega
  repeat' split
  all_goals
    simp only [List.cons_append, List.cons_lt_cons_iff, UInt8.lt_iff_toNat_lt,
      UInt8.toNat_ofNat', ← UInt8.toNat_inj, tail, front low bound', front high bound]
    omega

theorem flatMap_utf8EncodeChar_lt {first second : List Char} (less : first < second) :
    first.flatMap String.utf8EncodeChar < second.flatMap String.utf8EncodeChar := by
  induction less with
  | @nil character rest =>
      rcases List.exists_cons_of_ne_nil (String.utf8EncodeChar_ne_nil (c := character))
        with ⟨byte, bytes, shape⟩
      rw [List.flatMap_cons, shape]
      exact List.nil_lt_cons _ _
  | rel less => exact utf8EncodeChar_append_lt less _ _
  | cons _ ih => exact List.append_left_lt ih

/-- A lower text has the lower UTF-8 form. -/
theorem Bytes.ofString_lt {first second : String} (less : first < second) :
    ofString first < ofString second := by
  rw [← String.ofList_toList (s := first), ← String.ofList_toList (s := second), ofString_ofList,
    ofString_ofList]
  exact flatMap_utf8EncodeChar_lt less

end Missive
