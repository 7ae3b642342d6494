import Missive.Json.Basic

/-!
# Reading JSON

`Json.ofBytes?` reads one value from a byte string in which nothing but blanks may stand beside
it. There are no comments, and no comma may stand behind the last part of a value. Texts are checked
for the form of their escapes, and control characters must not stand in them; what they mean is left
to the one who asks.

Every reader takes something off the front of the bytes and gives back the rest. The readers of
nested values count down a bound that the length of the input provides.
-/

namespace Missive.Json

/-- Whether a byte is a blank between two parts of a value. -/
def isBlank (byte : UInt8) : Bool :=
  byte = 32 || byte = 9 || byte = 10 || byte = 13

/-- The bytes after the blanks at the front. -/
def skipBlanks (bytes : Bytes) : Bytes :=
  bytes.dropWhile isBlank

/-- Takes a fixed sign off the front. -/
def sign? (sign : UInt8) : Bytes → Option Bytes
  | [] => none
  | byte :: rest => if byte = sign then some rest else none

/-- Takes a fixed word off the front. -/
def word? (word : Bytes) (bytes : Bytes) : Option Bytes :=
  if word.isPrefixOf bytes then some (bytes.drop word.length) else none

/-- Takes a text up to its closing quote; the quote that opens it is already gone. -/
def readText : Bytes → Option (Bytes × Bytes)
  | [] => none
  | byte :: rest =>
    if byte = quote then some ([], rest)
    else if byte < 32 then none
    else if byte ≠ backslash then do
      let (body, rest) ← readText rest
      return (byte :: body, rest)
    else
      match rest with
      | [] => none
      | letter :: rest =>
        if letter ≠ unitLetter then do
          let _ ← unescapeLetter? letter
          let (body, rest) ← readText rest
          return (byte :: letter :: body, rest)
        else
          match rest with
          | a :: b :: c :: d :: rest => do
            let _ ← codeUnit? a b c d
            let (body, rest) ← readText rest
            return (byte :: letter :: a :: b :: c :: d :: body, rest)
          | _ => none

/-- Takes the digits at the front, of which there must be one. -/
def readDigits (bytes : Bytes) : Option (Bytes × Bytes) :=
  let (digits, rest) := bytes.span Decimal.isDigit
  if digits.isEmpty then none else some (digits, rest)

/-- Takes the digits before the point: a zero stands alone. -/
def readWhole (bytes : Bytes) : Option (Bytes × Bytes) := do
  let (digits, rest) ← readDigits bytes
  if digits.head? = some 48 ∧ digits.length ≠ 1 then none else return (digits, rest)

/-- Takes a point and the digits after it, if there is a point. -/
def readFraction (bytes : Bytes) : Option (Bytes × Bytes) :=
  match sign? point bytes with
  | none => some ([], bytes)
  | some rest => readDigits rest

/-- Takes an exponent, if there is one. -/
def readExponent : Bytes → Option (Option Int × Bytes)
  | [] => some (none, [])
  | letter :: rest =>
    if letter = 101 ∨ letter = 69 then
      let (negative, rest) :=
        match sign? minus rest with
        | some rest => (true, rest)
        | none => (false, (sign? 43 rest).getD rest)
      match readDigits rest with
      | some (digits, rest) =>
        let size : Int := Decimal.ofDigits digits
        some (some (if negative then -size else size), rest)
      | none => none
    else some (none, letter :: rest)

/-- Takes a number. -/
def readNumeral (bytes : Bytes) : Option (Numeral × Bytes) := do
  let (negative, rest) :=
    match sign? minus bytes with
    | some rest => (true, rest)
    | none => (false, bytes)
  let (whole, rest) ← readWhole rest
  let (fraction, rest) ← readFraction rest
  let (exponent, rest) ← readExponent rest
  return (⟨negative, whole, fraction, exponent⟩, rest)

/-- Takes a value that has no parts. -/
def readScalar (bytes : Bytes) : Option (Json × Bytes) :=
  match sign? quote bytes with
  | some rest => do
    let (body, rest) ← readText rest
    return (string body, rest)
  | none =>
    match word? (Bytes.ofString "null") bytes, word? (Bytes.ofString "true") bytes,
      word? (Bytes.ofString "false") bytes with
    | some rest, _, _ => some (null, rest)
    | none, some rest, _ => some (bool true, rest)
    | none, none, some rest => some (bool false, rest)
    | none, none, none => do
      let (numeral, rest) ← readNumeral bytes
      return (number numeral, rest)

mutual

/-- Takes a value and the blanks before it. -/
def readValue : (bound : Nat) → Bytes → Option (Json × Bytes)
  | 0, _ => none
  | bound + 1, bytes =>
    let bytes := skipBlanks bytes
    match sign? openBracket bytes, sign? openBrace bytes with
    | some rest, _ =>
      match sign? closeBracket (skipBlanks rest) with
      | some rest => some (array [], rest)
      | none => do
        let (items, rest) ← readItems bound rest
        return (array items, rest)
    | none, some rest =>
      match sign? closeBrace (skipBlanks rest) with
      | some rest => some (object [], rest)
      | none => do
        let (members, rest) ← readMembers bound rest
        return (object members, rest)
    | none, none => readScalar bytes

/-- Takes the items of an array, of which there is at least one, and the bracket after them. -/
def readItems : (bound : Nat) → Bytes → Option (List Json × Bytes)
  | 0, _ => none
  | bound + 1, bytes => do
    let (item, rest) ← readValue bound bytes
    let rest := skipBlanks rest
    match sign? comma rest with
    | some rest =>
      let (items, rest) ← readItems bound rest
      return (item :: items, rest)
    | none =>
      let rest ← sign? closeBracket rest
      return ([item], rest)

/-- Takes the members of an object, of which there is at least one, and the brace after them. -/
def readMembers : (bound : Nat) → Bytes → Option (List (Bytes × Json) × Bytes)
  | 0, _ => none
  | bound + 1, bytes => do
    let rest ← sign? quote (skipBlanks bytes)
    let (name, rest) ← readText rest
    let rest ← sign? colon (skipBlanks rest)
    let (value, rest) ← readValue bound rest
    let rest := skipBlanks rest
    match sign? comma rest with
    | some rest =>
      let (members, rest) ← readMembers bound rest
      return ((name, value) :: members, rest)
    | none =>
      let rest ← sign? closeBrace rest
      return ([(name, value)], rest)

end

/-- The value that a byte string holds, if it holds one and nothing else. -/
def ofBytes? (bytes : Bytes) : Option Json := do
  let (value, rest) ← readValue (2 * bytes.length + 1) bytes
  if (skipBlanks rest).isEmpty then return value else none

end Missive.Json
