import Missive.Bytes.Decimal
import Missive.Toml.Scalar

/-!
# Writing TOML

A text is written in the first of four forms that shows it as it is: between double quotes,
between apostrophes, between three double quotes, between three apostrophes. If none does, it is
written with escapes, between double quotes or, if it has several lines, between three of them.
-/

namespace Missive.Toml

/-- Whether a character is a control character that only an escape can stand for. -/
def isControl (character : Char) : Bool :=
  character ≠ '\n' && character ≠ '\t' && (character < ' ' || character = '\x7f')

/-- The length of the longest run of a character in a text, which comes after `run` of them. -/
def longestRun (mark : Char) (run : Nat) : List Char → Nat
  | [] => run
  | character :: rest =>
    if character = mark then longestRun mark (run + 1) rest
    else max run (longestRun mark 0 rest)

/-- The forms in which a text can be written. -/
inductive Quotation where
  | basic
  | verbatim
  | basicLines
  | verbatimLines
  deriving DecidableEq, Repr

namespace Quotation

/-- The marks around a text. -/
def delimiter : Quotation → String
  | basic => "\""
  | verbatim => "'"
  | basicLines => "\"\"\""
  | verbatimLines => "'''"

/-- The mark that the delimiter is made of. -/
def mark : Quotation → Char
  | basic | basicLines => '"'
  | verbatim | verbatimLines => '\''

/-- How many marks may stand in a row within a text. -/
def runLimit : Quotation → Nat
  | basic | verbatim => 0
  | basicLines | verbatimLines => 2

/-- Whether a text may have several lines. -/
def admitsLines : Quotation → Bool
  | basic | verbatim => false
  | basicLines | verbatimLines => true

/-- Whether a backslash begins an escape. -/
def hasEscapes : Quotation → Bool
  | basic | basicLines => true
  | verbatim | verbatimLines => false

/-- Whether a form shows a text as it is. -/
def shows (quotation : Quotation) (text : List Char) : Bool :=
  !text.any isControl && (quotation.admitsLines || !text.contains '\n') &&
    !(quotation.hasEscapes && text.contains '\\') &&
    longestRun quotation.mark 0 text ≤ quotation.runLimit

/-- The form in which a text is written. -/
def ofText (text : List Char) : Quotation :=
  let fallback := if text.contains '\n' then basicLines else basic
  ([basic, verbatim, basicLines, verbatimLines].find? fun form => form.shows text).getD fallback

end Quotation

/-- The upper-case hexadecimal form of a number, four digits wide. -/
def numbered (value : Nat) : List Char :=
  let digits := (Nat.toDigits 16 value).map Char.toUpper
  List.replicate (4 - digits.length) '0' ++ digits

/-- A character other than a double quote; line ends may stand as they are in a text on `lines`. -/
def escape (lines : Bool) (character : Char) : List Char :=
  if character = '\x08' then ['\\', 'b']
  else if character = '\t' then ['\\', 't']
  else if character = '\n' then if lines then ['\n'] else ['\\', 'n']
  else if character = '\x0c' then ['\\', 'f']
  else if character = '\r' then ['\\', 'r']
  else if character = '\\' then ['\\', '\\']
  else if isControl character then ['\\', 'u'] ++ numbered character.toNat
  else [character]

/--
A text with escapes, which comes after `run` double quotes. As many of them in a row as the form
admits stand as they are, and the next one is escaped.
-/
def escapeText (quotation : Quotation) (run : Nat) : List Char → List Char
  | [] => []
  | character :: rest =>
    if character = '"' then
      if run < quotation.runLimit then '"' :: escapeText quotation (run + 1) rest
      else '\\' :: '"' :: escapeText quotation 0 rest
    else escape quotation.admitsLines character ++ escapeText quotation 0 rest

/-- A text in quotes. One of several lines begins on a line of its own. -/
def renderText (text : String) : String :=
  let characters := text.toList
  let quotation := Quotation.ofText characters
  let opening := if characters.contains '\n' && quotation.admitsLines then "\n" else ""
  let body := if quotation.hasEscapes then escapeText quotation 0 characters else characters
  quotation.delimiter ++ opening ++ String.ofList body ++ quotation.delimiter

/-- A line that gives a key a value. -/
def renderPair (key value : String) : String :=
  key ++ " = " ++ value ++ "\n"

/-- A truth value. -/
def renderBool : Bool → String
  | true => "true"
  | false => "false"

/-- The line that opens a table. -/
def renderHeader (key : String) : String :=
  "[" ++ key ++ "]\n"

end Missive.Toml
