import Missive.Text.Printable

/-!
# Quoted text in diagnostics

Names and values that come from outside are shown between quotes in messages, so that blanks
and invisible characters can be told apart. The delimiter and the backslash are escaped, the
usual control characters have short forms, and every other character that is not printable is
shown by its number.
-/

namespace Missive.Text

/-- The number of a character in lower-case hexadecimal, between braces. -/
def numbered (character : Char) : List Char :=
  ['\\', 'u', '\x7b'] ++ Nat.toDigits 16 character.toNat ++ ['\x7d']

/-- A character as it stands between two `delimiter`s. -/
def escape (delimiter character : Char) : List Char :=
  if character = '\x00' then ['\\', '0']
  else if character = '\t' then ['\\', 't']
  else if character = '\r' then ['\\', 'r']
  else if character = '\n' then ['\\', 'n']
  else if character = '\\' ∨ character = delimiter then ['\\', character]
  else if isPrintable character then [character]
  else numbered character

/-- A text between double quotes. -/
def quoted (text : String) : String :=
  String.ofList (['"'] ++ text.toList.flatMap (escape '"') ++ ['"'])

/-- A single character between single quotes. -/
def quotedCharacter (character : Char) : String :=
  String.ofList (['\''] ++ escape '\'' character ++ ['\''])

/-- Quoted texts, separated by commas, between square brackets. -/
def quotedList (texts : List String) : String :=
  "[" ++ String.intercalate ", " (texts.map quoted) ++ "]"

end Missive.Text
