import Missive.Bytes.Basic

/-!
# Base64

The standard alphabet with padding: three bytes become four symbols, and a last group of one or
two bytes is filled up with `=`. Reading accepts exactly what writing produces, so the unused
low bits of a padded group must be zero and the padding must be there.
-/

namespace Missive.Base64

/-- The padding sign. -/
def pad : UInt8 := 61

/-- The symbol of a six-bit value. -/
def symbol (value : Nat) : UInt8 :=
  UInt8.ofNat <|
    if value < 26 then 65 + value
    else if value < 52 then 71 + value
    else if value < 62 then value - 4
    else if value = 62 then 43
    else 47

/-- The six-bit value of a symbol. -/
def value? (byte : UInt8) : Option Nat :=
  let code := byte.toNat
  if 65 ≤ code ∧ code ≤ 90 then some (code - 65)
  else if 97 ≤ code ∧ code ≤ 122 then some (code - 71)
  else if 48 ≤ code ∧ code ≤ 57 then some (code + 4)
  else if code = 43 then some 62
  else if code = 47 then some 63
  else none

/-- A symbol written is the value read. -/
theorem value?_symbol : ∀ value < 64, value? (symbol value) = some value := by
  decide

/-- No symbol is the padding sign. -/
theorem value?_pad : value? pad = none := by
  decide

/-- Four symbols for three bytes, the last group padded. -/
def encode : Bytes → Bytes
  | first :: second :: third :: rest =>
    symbol (first.toNat / 4) ::
    symbol (first.toNat % 4 * 16 + second.toNat / 16) ::
    symbol (second.toNat % 16 * 4 + third.toNat / 64) ::
    symbol (third.toNat % 64) :: encode rest
  | [first, second] =>
    [symbol (first.toNat / 4), symbol (first.toNat % 4 * 16 + second.toNat / 16),
      symbol (second.toNat % 16 * 4), pad]
  | [first] => [symbol (first.toNat / 4), symbol (first.toNat % 4 * 16), pad, pad]
  | [] => []

/-- The bytes with the given Base64 form, if it is one. -/
def decode? : Bytes → Option Bytes
  | [] => some []
  | [first, second, third, fourth] => do
    let a ← value? first
    let b ← value? second
    if third = pad then
      if fourth = pad ∧ b % 16 = 0 then return [UInt8.ofNat (a * 4 + b / 16)] else none
    else
      let c ← value? third
      if fourth = pad then
        if c % 4 = 0 then
          return [UInt8.ofNat (a * 4 + b / 16), UInt8.ofNat (b % 16 * 16 + c / 4)]
        else none
      else
        let d ← value? fourth
        return [UInt8.ofNat (a * 4 + b / 16), UInt8.ofNat (b % 16 * 16 + c / 4),
          UInt8.ofNat (c % 4 * 64 + d)]
  | first :: second :: third :: fourth :: rest => do
    let a ← value? first
    let b ← value? second
    let c ← value? third
    let d ← value? fourth
    let tail ← decode? rest
    return UInt8.ofNat (a * 4 + b / 16) :: UInt8.ofNat (b % 16 * 16 + c / 4) ::
      UInt8.ofNat (c % 4 * 64 + d) :: tail
  | _ => none

end Missive.Base64
