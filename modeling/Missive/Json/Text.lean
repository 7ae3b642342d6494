import Missive.Bytes.Hex

/-!
# Written texts

A text stands in a record between quotes, with escapes for the bytes that cannot stand there as
they are. `escape` writes a text and `unescape` reads it; writing is read back without loss
(`unescape_escape`). Reading knows more escapes than writing uses.
-/

namespace Missive.Json

/-- The sign that opens and closes a text. -/
abbrev quote : UInt8 := 34

/-- The sign that opens an escape. -/
abbrev backslash : UInt8 := 92

/-- The letter after the backslash of a numbered escape. -/
abbrev unitLetter : UInt8 := 117

/-- The letter after the backslash for a byte that has a short escape. -/
def shortEscape? (byte : UInt8) : Option UInt8 :=
  if byte = quote then some quote
  else if byte = backslash then some backslash
  else if byte = 8 then some 98
  else if byte = 9 then some 116
  else if byte = 10 then some 110
  else if byte = 12 then some 102
  else if byte = 13 then some 114
  else none

/-- A byte of a text as it is written. -/
def escapeByte (byte : UInt8) : Bytes :=
  match shortEscape? byte with
  | some letter => [backslash, letter]
  | none =>
    if byte < 32 then
      [backslash, unitLetter, 48, 48, Hex.digit (byte.toNat / 16), Hex.digit (byte.toNat % 16)]
    else [byte]

/-- The written form of a text: control characters, quotes and backslashes are escaped. -/
def escape (text : Bytes) : Bytes :=
  text.flatMap escapeByte

/-- The byte that a letter after the backslash stands for. -/
def unescapeLetter? (letter : UInt8) : Option UInt8 :=
  if letter = quote ∨ letter = backslash ∨ letter = 47 then some letter
  else if letter = 98 then some 8
  else if letter = 116 then some 9
  else if letter = 110 then some 10
  else if letter = 102 then some 12
  else if letter = 114 then some 13
  else none

/-- The number written in four hexadecimal digits of either case. -/
def codeUnit? (first second third fourth : UInt8) : Option Nat := do
  let a ← Hex.value? first
  let b ← Hex.value? second
  let c ← Hex.value? third
  let d ← Hex.value? fourth
  return ((a * 16 + b) * 16 + c) * 16 + d

/-- The UTF-8 form of a code point. -/
def utf8 (point : Nat) : Bytes :=
  if point < 0x80 then [UInt8.ofNat point]
  else if point < 0x800 then
    [UInt8.ofNat (0xC0 + point / 0x40), UInt8.ofNat (0x80 + point % 0x40)]
  else if point < 0x10000 then
    [UInt8.ofNat (0xE0 + point / 0x1000), UInt8.ofNat (0x80 + point / 0x40 % 0x40),
      UInt8.ofNat (0x80 + point % 0x40)]
  else
    [UInt8.ofNat (0xF0 + point / 0x40000), UInt8.ofNat (0x80 + point / 0x1000 % 0x40),
      UInt8.ofNat (0x80 + point / 0x40 % 0x40), UInt8.ofNat (0x80 + point % 0x40)]

/--
The text with the given written form. Numbered escapes are UTF-16 code units, and so a high
surrogate must be followed by the escape of a low one, and neither may stand alone.
-/
def unescape : Bytes → Option Bytes
  | [] => some []
  | byte :: rest =>
    if byte ≠ backslash then (unescape rest).map (byte :: ·)
    else
      match rest with
      | [] => none
      | letter :: rest =>
        if letter ≠ unitLetter then do
          let meant ← unescapeLetter? letter
          let tail ← unescape rest
          return meant :: tail
        else
          match rest with
          | a :: b :: c :: d :: rest => do
            let unit ← codeUnit? a b c d
            if unit < 0xD800 ∨ 0xDFFF < unit then
              let tail ← unescape rest
              return utf8 unit ++ tail
            else if 0xDC00 ≤ unit then none
            else
              match rest with
              | 92 :: 117 :: a :: b :: c :: d :: rest =>
                let low ← codeUnit? a b c d
                if low < 0xDC00 ∨ 0xDFFF < low then none
                else
                  let tail ← unescape rest
                  return utf8 (0x10000 + (unit - 0xD800) * 0x400 + (low - 0xDC00)) ++ tail
              | _ => none
          | _ => none

/-- A numbered escape of a control character is the character. -/
theorem codeUnit?_control (byte : UInt8) :
    codeUnit? 48 48 (Hex.digit (byte.toNat / 16)) (Hex.digit (byte.toNat % 16)) =
      some byte.toNat := by
  have bound := byte.toNat_lt
  have high := Hex.value?_digit (byte.toNat / 16) (by omega)
  have low := Hex.value?_digit (byte.toNat % 16) (by omega)
  have zero : Hex.value? 48 = some 0 := by decide
  simp only [codeUnit?, high, low, zero, Option.bind_eq_bind, Option.bind_some, Option.pure_def,
    Option.some.injEq]
  omega

/-- A short escape is read as the byte it was written for. -/
theorem unescapeLetter?_shortEscape? {byte letter : UInt8}
    (short : shortEscape? byte = some letter) :
    letter ≠ unitLetter ∧ unescapeLetter? letter = some byte := by
  simp only [shortEscape?] at short
  repeat' split at short
  all_goals cases short
  all_goals subst_vars; decide

/-- Every byte is read back from its written form, whatever comes after it. -/
theorem unescape_escapeByte (byte : UInt8) (rest : Bytes) :
    unescape (escapeByte byte ++ rest) = (unescape rest).map (byte :: ·) := by
  unfold escapeByte
  split
  · rename_i letter short
    obtain ⟨unnumbered, meant⟩ := unescapeLetter?_shortEscape? short
    rw [List.cons_append, unescape.eq_def]
    cases read : unescape rest <;> simp [unnumbered, meant, read]
  · rename_i long
    split
    · rename_i control
      have unit := codeUnit?_control byte
      have small : byte.toNat < 32 := by simpa [UInt8.lt_iff_toNat_lt] using control
      have single : utf8 byte.toNat = [byte] := by
        rw [utf8, if_pos (by omega), UInt8.ofNat_toNat]
      have below : byte.toNat < 0xD800 := by omega
      rw [List.cons_append, unescape.eq_def]
      cases read : unescape rest <;> simp [unit, below, single, read]
    · have plain : byte ≠ backslash := by
        intro equal
        subst equal
        exact absurd long (by decide)
      rw [List.cons_append, unescape.eq_def]
      simp [plain]

/-- Reading a written text gives the text. -/
@[simp]
theorem unescape_escape (text : Bytes) : unescape (escape text) = some text := by
  induction text with
  | nil => rfl
  | cons byte rest ih => simp [escape, unescape_escapeByte] at ih ⊢; simp [ih]

end Missive.Json
