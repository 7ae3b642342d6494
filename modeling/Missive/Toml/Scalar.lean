import Missive.Bytes.Decimal

/-!
# TOML values and their scalars

The configuration is a TOML document. A value keeps what the configuration can ask for; numbers
with a point, dates and times are recognised, but nothing reads them.

Readers for the values without parts: texts in four kinds of quotes, numbers, truth values, dates
and times. Every reader takes something off the front of the characters and gives back the rest;
what may follow is for the caller to check.
-/

namespace Missive

/-- A TOML value. -/
inductive Toml where
  | string (text : String)
  | integer (value : Int)
  | float
  | dateTime
  | bool (value : Bool)
  | array (items : List Toml)
  | table (entries : List (String × Toml))

namespace Toml

/-- Takes a fixed word off the front. -/
def word? (word : String) (input : List Char) : Option (List Char) :=
  if word.toList.isPrefixOf input then some (input.drop word.length) else none

/-- Takes the end of a line off the front. -/
def lineEnd? : List Char → Option (List Char)
  | '\n' :: rest | '\r' :: '\n' :: rest => some rest
  | _ => none

/-- Whether a character is a blank within a line. -/
def isBlank (character : Char) : Bool :=
  character = ' ' || character = '\t'

/-- The characters after the blanks at the front. -/
def skipBlanks (input : List Char) : List Char :=
  input.dropWhile isBlank

/-- Whether a character may stand in a comment or a text: no control characters but tabs. -/
def isPlain (character : Char) : Bool :=
  character = '\t' || (' ' ≤ character && character ≠ '\x7f')

/-- The characters after the blanks and line ends at the front. -/
def skipBlankLines : List Char → List Char
  | '\n' :: rest => skipBlankLines rest
  | '\r' :: '\n' :: rest => skipBlankLines rest
  | character :: rest =>
    if isBlank character then skipBlankLines rest else character :: rest
  | [] => []

/-- The value of a digit in the given base, which is at most sixteen. -/
def digitValue? (base : Nat) (character : Char) : Option Nat :=
  let code := character.toNat
  let value :=
    if '0' ≤ character ∧ character ≤ '9' then code - 48
    else if 'a' ≤ character ∧ character ≤ 'f' then code - 87
    else if 'A' ≤ character ∧ character ≤ 'F' then code - 55
    else base
  if value < base then some value else none

/-- Takes a fixed number of digits, and gives the number they stand for. -/
def readFixed (base : Nat) : (count : Nat) → (value : Nat) → List Char → Option (Nat × List Char)
  | 0, value, rest => some (value, rest)
  | _ + 1, _, [] => none
  | count + 1, value, character :: rest => do
    let digit ← digitValue? base character
    readFixed base count (value * base + digit) rest

/-- The character with the given number. -/
def scalar? (value : Nat) : Option Char :=
  if valid : value.isValidChar then some (Char.ofNatAux value valid) else none

/-- Takes an escape, whose backslash is already gone. -/
def readEscape : List Char → Option (Char × List Char)
  | 'b' :: rest => some ('\x08', rest)
  | 'f' :: rest => some ('\x0c', rest)
  | 'n' :: rest => some ('\n', rest)
  | 'r' :: rest => some ('\r', rest)
  | 't' :: rest => some ('\t', rest)
  | '"' :: rest => some ('"', rest)
  | '\\' :: rest => some ('\\', rest)
  | 'u' :: rest => do
    let (value, rest) ← readFixed 16 4 0 rest
    return (← scalar? value, rest)
  | 'U' :: rest => do
    let (value, rest) ← readFixed 16 8 0 rest
    return (← scalar? value, rest)
  | _ => none

/-- Takes a text on one line with escapes, up to its closing quote. -/
def readBasic : (bound : Nat) → List Char → Option (List Char × List Char)
  | 0, _ | _, [] => none
  | bound + 1, character :: rest =>
    if character = '"' then some ([], rest)
    else if character = '\\' then do
      let (meant, rest) ← readEscape rest
      let (text, rest) ← readBasic bound rest
      return (meant :: text, rest)
    else if isPlain character then do
      let (text, rest) ← readBasic bound rest
      return (character :: text, rest)
    else none

/-- Takes a text on one line without escapes, up to its closing apostrophe. -/
def readLiteral : List Char → Option (List Char × List Char)
  | [] => none
  | character :: rest =>
    if character = '\'' then some ([], rest)
    else if isPlain character then do
      let (text, rest) ← readLiteral rest
      return (character :: text, rest)
    else none

/--
Takes a text on several lines, up to three `delimiter`s. Up to two more of them right before the
closing ones belong to the text. A backslash is an escape if `escapes` says so; at the end of a
line it swallows all blanks and line ends after it.
-/
def readLines (delimiter : Char) (escapes : Bool) :
    (bound : Nat) → List Char → Option (List Char × List Char)
  | 0, _ | _, [] => none
  | bound + 1, character :: rest =>
    if character = delimiter then
      let run := (character :: rest).takeWhile (· = delimiter)
      let after := (character :: rest).dropWhile (· = delimiter)
      if 5 < run.length then none
      else if 3 ≤ run.length then some (run.drop 3, after)
      else do
        let (text, rest) ← readLines delimiter escapes bound after
        return (run ++ text, rest)
    else if escapes ∧ character = '\\' then
      match lineEnd? (skipBlanks rest) with
      | some rest => readLines delimiter escapes bound (skipBlankLines rest)
      | none => do
        let (meant, rest) ← readEscape rest
        let (text, rest) ← readLines delimiter escapes bound rest
        return (meant :: text, rest)
    else
      match lineEnd? (character :: rest) with
      | some rest => do
        let (text, rest) ← readLines delimiter escapes bound rest
        return ('\n' :: text, rest)
      | none =>
        if isPlain character then do
          let (text, rest) ← readLines delimiter escapes bound rest
          return (character :: text, rest)
        else none

/-- Takes a text in any kind of quotes. A line end right after three of them is dropped. -/
def readText (input : List Char) : Option (String × List Char) := do
  let lines (delimiter : Char) (escapes : Bool) (rest : List Char) :=
    readLines delimiter escapes (rest.length + 1) ((lineEnd? rest).getD rest)
  let (text, rest) ←
    match input with
    | '"' :: '"' :: '"' :: rest => lines '"' true rest
    | '"' :: rest => readBasic (rest.length + 1) rest
    | '\'' :: '\'' :: '\'' :: rest => lines '\'' false rest
    | '\'' :: rest => readLiteral rest
    | _ => none
  return (String.ofList text, rest)

/-- The digits at the front, each of which may have an underscore before it. -/
def takeDigits (base : Nat) : List Char → List Nat × List Char
  | [] => ([], [])
  | '_' :: character :: rest =>
    match digitValue? base character with
    | some digit =>
      let (digits, rest) := takeDigits base rest
      (digit :: digits, rest)
    | none => ([], '_' :: character :: rest)
  | character :: rest =>
    match digitValue? base character with
    | some digit =>
      let (digits, rest) := takeDigits base rest
      (digit :: digits, rest)
    | none => ([], character :: rest)

/-- Takes digits off the front; single underscores may stand between them. -/
def readDigits (base : Nat) (input : List Char) : Option (List Nat × List Char) :=
  match takeDigits base input with
  | ([], _) => none
  | found => if input.head? = some '_' then none else some found

/-- The number with the given digits. -/
def ofDigits (base : Nat) (digits : List Nat) : Nat :=
  digits.foldl (fun value digit => value * base + digit) 0

/-- Takes an optional sign; the first result says whether it is a minus. -/
def readSign : List Char → Bool × List Char
  | '-' :: rest => (true, rest)
  | '+' :: rest => (false, rest)
  | rest => (false, rest)

/-- Takes the digits of a decimal number: a zero in front stands alone. -/
def readDecimal (input : List Char) : Option (List Nat × List Char) :=
  match input with
  | '0' :: rest => some ([0], rest)
  | _ => readDigits 10 input

/-- Takes a point and the digits after it. -/
def readFraction : List Char → Option (List Nat × List Char)
  | '.' :: rest => readDigits 10 rest
  | _ => none

/-- Takes an exponent. -/
def readExponent : List Char → Option (Int × List Char)
  | letter :: rest =>
    if letter = 'e' ∨ letter = 'E' then do
      let (negative, rest) := readSign rest
      let (digits, rest) ← readDigits 10 rest
      let size : Int := ofDigits 10 digits
      return (if negative then -size else size, rest)
    else none
  | [] => none

/-- Whether digits, scaled by a power of ten, have a double-precision value. -/
def isFinite (digits : List Nat) (scale : Int) : Bool :=
  let digits := digits.dropWhile (· = 0)
  digits.isEmpty || digits.length + scale ≤ 308 ||
    (digits.length + scale ≤ 309 &&
      ofDigits 10 digits * Nat.pow 10 scale.toNat < Double.limit * Nat.pow 10 (-scale).toNat)

/-- Takes what makes a number one with a point or an exponent. -/
def readScale (input : List Char) : Option (List Nat × Int × List Char) :=
  match readFraction input with
  | some (fraction, rest) =>
    match readExponent rest with
    | some (exponent, rest) => some (fraction, exponent, rest)
    | none => some (fraction, 0, rest)
  | none => (readExponent input).map fun (exponent, rest) => ([], exponent, rest)

/-- Takes a number with a point or an exponent; a positive one must not be too large. -/
def readFloat (input : List Char) : Option (List Char) :=
  let (negative, rest) := readSign input
  match word? "inf" rest, word? "nan" rest with
  | some rest, _ | none, some rest => some rest
  | none, none => do
    let (whole, rest) ← readDecimal rest
    let (fraction, exponent, rest) ← readScale rest
    if negative ∨ isFinite (whole ++ fraction) (exponent - fraction.length) then return rest
    else none

/-- Takes a whole number without a sign, in the base that its first characters name. -/
def readMagnitude (input : List Char) : Option (Nat × List Char) :=
  match input with
  | '0' :: 'x' :: rest => (readDigits 16 rest).map fun (digits, rest) => (ofDigits 16 digits, rest)
  | '0' :: 'o' :: rest => (readDigits 8 rest).map fun (digits, rest) => (ofDigits 8 digits, rest)
  | '0' :: 'b' :: rest => (readDigits 2 rest).map fun (digits, rest) => (ofDigits 2 digits, rest)
  | _ => (readDecimal input).map fun (digits, rest) => (ofDigits 10 digits, rest)

/-- Takes a whole number of at most 64 bits with its sign; only a decimal one may have a sign. -/
def readInteger (input : List Char) : Option (Int × List Char) := do
  let (negative, unsigned) := readSign input
  let (magnitude, rest) ←
    if unsigned = input then readMagnitude input
    else (readDecimal unsigned).map fun (digits, rest) => (ofDigits 10 digits, rest)
  let value : Int := if negative then -magnitude else magnitude
  if Int64.minValue.toInt ≤ value ∧ value ≤ Int64.maxValue.toInt then return (value, rest)
  else none

/-- The number of days in a month. -/
def daysIn (year month : Nat) : Nat :=
  if month = 2 then
    if year % 4 = 0 ∧ (year % 100 ≠ 0 ∨ year % 400 = 0) then 29 else 28
  else if month = 4 ∨ month = 6 ∨ month = 9 ∨ month = 11 then 30
  else 31

/-- Takes a date. -/
def readDate (input : List Char) : Option (List Char) := do
  let (year, rest) ← readFixed 10 4 0 input
  let (month, rest) ← readFixed 10 2 0 (← word? "-" rest)
  let (day, rest) ← readFixed 10 2 0 (← word? "-" rest)
  if 1 ≤ month ∧ month ≤ 12 ∧ 1 ≤ day ∧ day ≤ daysIn year month then return rest else none

/-- Takes hours and minutes. -/
def readMinutes (input : List Char) : Option (List Char) := do
  let (hour, rest) ← readFixed 10 2 0 input
  let (minute, rest) ← readFixed 10 2 0 (← word? ":" rest)
  if hour ≤ 23 ∧ minute ≤ 59 then return rest else none

/-- Takes a time of day, whose seconds may have a fraction. -/
def readTime (input : List Char) : Option (List Char) := do
  let rest ← readMinutes input
  let (second, rest) ← readFixed 10 2 0 (← word? ":" rest)
  if 60 < second then none
  else
    match rest with
    | '.' :: after =>
      let digits := after.takeWhile fun character => (digitValue? 10 character).isSome
      return if digits.isEmpty then rest else after.drop digits.length
    | _ => return rest

/-- Takes an offset from universal time. -/
def readOffset : List Char → Option (List Char)
  | 'Z' :: rest | 'z' :: rest => some rest
  | '+' :: rest | '-' :: rest => readMinutes rest
  | _ => none

/-- Takes a time after a date, if there is one, and an offset after the time. -/
def readTimeOfDate (input : List Char) : List Char :=
  match input with
  | 'T' :: rest | 't' :: rest | ' ' :: rest =>
    match readTime rest with
    | some rest => (readOffset rest).getD rest
    | none => input
  | _ => input

/-- Takes a date, a time of day, or both. -/
def readDateTime (input : List Char) : Option (List Char) :=
  match readDate input with
  | some rest => some (readTimeOfDate rest)
  | none => readTime input

/-- Takes a value without parts. -/
def readScalar (input : List Char) : Option (Toml × List Char) :=
  match readText input with
  | some (text, rest) => some (.string text, rest)
  | none =>
    match word? "true" input, word? "false" input with
    | some rest, _ => some (.bool true, rest)
    | none, some rest => some (.bool false, rest)
    | none, none =>
      match readDateTime input, readFloat input with
      | some rest, _ => some (.dateTime, rest)
      | none, some rest => some (.float, rest)
      | none, none => do
        let (value, rest) ← readInteger input
        return (.integer value, rest)

end Toml

end Missive
