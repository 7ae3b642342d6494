import Missive.Bytes.Basic

/-!
# Decimal numbers

Natural numbers as ASCII digits. Writing gives the digits without leading zeros, at least one of
them; reading takes any non-empty row of digits. Reading inverts writing (`value?_digits`).

In file names and arguments a plus sign and zeros may stand before the digits, so one number has
many spellings; the plain one is the shortest. In documents a number has a double-precision value
unless it is too large, so the bound and the rounding to the precision stand here too.
-/

namespace Missive.Decimal

/-- Whether a byte is an ASCII digit. -/
def isDigit (byte : UInt8) : Bool :=
  48 ≤ byte && byte ≤ 57

/-- The digit for a value below ten. -/
def digit (value : Nat) : UInt8 :=
  UInt8.ofNat (48 + value)

/-- The value of a digit. -/
def digitValue (byte : UInt8) : Nat :=
  byte.toNat - 48

/-- The digits of a number, without leading zeros. -/
def digits (value : Nat) : Bytes :=
  if value < 10 then [digit value] else digits (value / 10) ++ [digit (value % 10)]
  termination_by value
  decreasing_by omega

/-- The number that a row of digits stands for. -/
def ofDigits (bytes : Bytes) : Nat :=
  bytes.foldl (fun value byte => 10 * value + digitValue byte) 0

/-- The number with the given digits, if they are digits and there is one at all. -/
def value? (bytes : Bytes) : Option Nat :=
  if bytes ≠ [] ∧ bytes.all isDigit then some (ofDigits bytes) else none

/-- A digit written is a digit with its value. -/
theorem digit_spec : ∀ value < 10, isDigit (digit value) ∧ digitValue (digit value) = value := by
  decide

/-- A written number consists of digits. -/
theorem all_isDigit_digits (value : Nat) : (digits value).all isDigit := by
  fun_induction digits value with
  | case1 value small => simp [(digit_spec value small).1]
  | case2 value _ ih => simp [ih, (digit_spec (value % 10) (by omega)).1]

/-- A written number has a digit. -/
theorem digits_ne_nil (value : Nat) : digits value ≠ [] := by
  rw [digits]
  split <;> simp

/-- The digits of a number stand for it. -/
theorem ofDigits_digits (value : Nat) : ofDigits (digits value) = value := by
  fun_induction digits value with
  | case1 value small => simp [ofDigits, (digit_spec value small).2]
  | case2 value _ ih =>
    have last := (digit_spec (value % 10) (by omega)).2
    simp only [ofDigits] at ih
    simp only [ofDigits, List.foldl_append, ih, List.foldl_cons, List.foldl_nil, last]
    omega

/-- Reading inverts writing. -/
@[simp]
theorem value?_digits (value : Nat) : value? (digits value) = some value := by
  simp [value?, digits_ne_nil, all_isDigit_digits, ofDigits_digits]

end Missive.Decimal

/-! ### Natural numbers in names and arguments -/

namespace Missive.Text

/-- The digits of a number, without leading zeros. -/
def ofNatural (value : Nat) : String :=
  String.ofList ((Decimal.digits value).map fun digit => Char.ofNat digit.toNat)

/-- The number below 2⁶⁴ that a text spells. -/
def natural? (text : String) : Option UInt64 := do
  let digits :=
    match Bytes.ofString text with
    | 43 :: digits => digits
    | digits => digits
  let value ← Decimal.value? digits
  if value < UInt64.size then return UInt64.ofNat value else none

end Missive.Text

/-! ### The range of double precision -/

namespace Missive.Double

/-- The least number that is rounded to infinity. -/
def limit : Nat := (1 <<< 1024) - (1 <<< 970)

/-- Rounds a number to 53 significant bits, ties to even. -/
def round (value : Nat) : Nat :=
  let unit := 1 <<< (Nat.log2 value - 52)
  let quotient := value / unit
  let remainder := value % unit
  if 2 * remainder < unit ∨ (2 * remainder = unit ∧ quotient % 2 = 0) then quotient * unit
  else (quotient + 1) * unit

end Missive.Double
