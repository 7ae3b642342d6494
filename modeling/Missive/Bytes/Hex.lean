import Missive.Bytes.Basic

/-!
# Hexadecimal text

Bytes written as two digits each. Writing uses lower case; reading takes either case and names
the first place where the text goes wrong.
-/

namespace Missive.Hex

/-- Why a text is not hexadecimal. -/
inductive Fault where
  /-- The text cannot be cut into pairs of digits. -/
  | oddLength
  /-- The byte at this position is no hexadecimal digit. -/
  | invalidDigit (byte : UInt8) (position : Nat)
  deriving DecidableEq, Repr

/-- The lower-case digit for a value below sixteen, as an ASCII code. -/
def digit (value : Nat) : UInt8 :=
  UInt8.ofNat (if value < 10 then 48 + value else 87 + value)

/-- The value of a digit in either case. -/
def value? (byte : UInt8) : Option Nat :=
  let code := byte.toNat
  if 48 ≤ code ∧ code ≤ 57 then some (code - 48)
  else if 97 ≤ code ∧ code ≤ 102 then some (code - 87)
  else if 65 ≤ code ∧ code ≤ 70 then some (code - 55)
  else none

/-- A digit written is the digit read. -/
theorem value?_digit : ∀ value < 16, value? (digit value) = some value := by
  decide

/-- Two ASCII digits for every byte, the high half first. -/
def encode (bytes : Bytes) : Bytes :=
  bytes.flatMap fun byte => [digit (byte.toNat / 16), digit (byte.toNat % 16)]

/-- The hexadecimal form as a text. -/
def text (bytes : Bytes) : String :=
  String.ofList ((encode bytes).map fun code => Char.ofNat code.toNat)

/-- The value of the digit at `position`. -/
def valueAt (position : Nat) (byte : UInt8) : Except Fault Nat :=
  match value? byte with
  | some value => .ok value
  | none => .error (.invalidDigit byte position)

/-- Reads pairs of digits, the first of which stands at `position`. -/
def decodePairs (position : Nat) : Bytes → Except Fault Bytes
  | high :: low :: rest => do
    let highValue ← valueAt position high
    let lowValue ← valueAt (position + 1) low
    let tail ← decodePairs (position + 2) rest
    return UInt8.ofNat (16 * highValue + lowValue) :: tail
  | _ => .ok []

/-- The bytes with the given hexadecimal form. An odd length is reported before any bad digit. -/
def decode (encoded : Bytes) : Except Fault Bytes :=
  if encoded.length % 2 = 1 then .error .oddLength else decodePairs 0 encoded

@[simp]
theorem length_encode (bytes : Bytes) : (encode bytes).length = 2 * bytes.length := by
  induction bytes with
  | nil => rfl
  | cons byte rest ih =>
    simp only [encode, List.flatMap_cons, List.length_append, List.length_cons] at ih ⊢
    simp only [ih, List.length_nil]
    omega

/-- Pairs of digits written are the bytes read, wherever they stand. -/
theorem decodePairs_encode (position : Nat) (bytes : Bytes) :
    decodePairs position (encode bytes) = .ok bytes := by
  induction bytes generalizing position with
  | nil => rfl
  | cons byte rest ih =>
    have bound := byte.toNat_lt
    have high := value?_digit (byte.toNat / 16) (by omega)
    have low := value?_digit (byte.toNat % 16) (by omega)
    have whole : UInt8.ofNat (16 * (byte.toNat / 16) + byte.toNat % 16) = byte := by
      rw [Nat.div_add_mod, UInt8.ofNat_toNat]
    have step : encode (byte :: rest) =
        digit (byte.toNat / 16) :: digit (byte.toNat % 16) :: encode rest := by
      simp [encode]
    rw [step]
    simp only [decodePairs, valueAt, high, low, ih, bind, Except.bind, pure, Except.pure, whole]

/-- Reading inverts writing. -/
@[simp]
theorem decode_encode (bytes : Bytes) : decode (encode bytes) = .ok bytes := by
  have even : ¬ (encode bytes).length % 2 = 1 := by
    rw [length_encode]
    omega
  rw [decode, if_neg even, decodePairs_encode]

end Missive.Hex
