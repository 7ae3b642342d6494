import Missive.Bytes.Decimal
import Missive.Json.Text

/-!
# JSON values

Records are JSON texts. A value keeps the texts in it as they are written between their quotes:
a text that nobody asks for need not be valid UTF-8, and its escapes need not make sense as long
as they have the right form. Values are written without blanks (`Json.render`), or with a line
for every member and item (`Json.layout`).
-/

namespace Missive

/-- A number as it is written, in its parts. -/
structure Numeral where
  negative : Bool
  /-- The digits before the point. -/
  whole : Bytes
  /-- The digits after the point; none if there is no point. -/
  fraction : Bytes
  exponent : Option Int
  deriving DecidableEq, Repr

/-- A JSON value. -/
inductive Json where
  | null
  | bool (value : Bool)
  | number (numeral : Numeral)
  /-- A text, as it is written between the quotes. -/
  | string (body : Bytes)
  | array (items : List Json)
  /-- Members in written order, with their names as they are written between the quotes. -/
  | object (members : List (Bytes × Json))
  deriving Repr

namespace Json

/-- The signs of the notation. -/
abbrev comma : UInt8 := 44
@[inherit_doc comma] abbrev minus : UInt8 := 45
@[inherit_doc comma] abbrev point : UInt8 := 46
@[inherit_doc comma] abbrev colon : UInt8 := 58
@[inherit_doc comma] abbrev openBracket : UInt8 := 91
@[inherit_doc comma] abbrev closeBracket : UInt8 := 93
@[inherit_doc comma] abbrev openBrace : UInt8 := 123
@[inherit_doc comma] abbrev closeBrace : UInt8 := 125

/-- The value of a natural number. -/
def ofNat (value : Nat) : Json :=
  number ⟨false, Decimal.digits value, [], none⟩

/-- The value of a text. -/
def ofString (text : String) : Json :=
  string (escape (Bytes.ofString text))

/-- A natural number, which has neither sign nor point nor exponent. -/
def nat? : Json → Option Nat
  | number ⟨false, whole, [], none⟩ => Decimal.value? whole
  | _ => none

/-- The text with the given written form. -/
def textOf? (body : Bytes) : Option String := do
  Bytes.toString? (← unescape body)

/-- A text. -/
def text? : Json → Option String
  | string body => textOf? body
  | _ => none

/-- A truth value. -/
def bool? : Json → Option Bool
  | bool value => some value
  | _ => none

/-- The items of an array. -/
def items? : Json → Option (List Json)
  | array items => some items
  | _ => none

@[simp]
theorem nat?_ofNat (value : Nat) : (ofNat value).nat? = some value := by
  simp [ofNat, nat?]

@[simp]
theorem textOf?_escape (text : String) : textOf? (escape (Bytes.ofString text)) = some text := by
  simp [textOf?]

@[simp]
theorem text?_ofString (text : String) : (ofString text).text? = some text := by
  simp [ofString, text?]

/-- A number in its written form. -/
def renderNumeral (numeral : Numeral) : Bytes :=
  (if numeral.negative then [minus] else []) ++ numeral.whole ++
    (if numeral.fraction.isEmpty then [] else point :: numeral.fraction) ++
    match numeral.exponent with
    | none => []
    | some exponent =>
      101 :: (if exponent < 0 then [minus] else []) ++ Decimal.digits exponent.natAbs

/-- A text between its quotes. -/
def renderText (body : Bytes) : Bytes :=
  quote :: body ++ [quote]

/-- The written form of a value without parts. -/
def renderScalar : Json → Bytes
  | null => Bytes.ofString "null"
  | bool true => Bytes.ofString "true"
  | bool false => Bytes.ofString "false"
  | number numeral => renderNumeral numeral
  | string body => renderText body
  | array _ => [openBracket, closeBracket]
  | object _ => [openBrace, closeBrace]

mutual

/-- The written form of a value, without blanks. -/
def render : Json → Bytes
  | array items => openBracket :: renderItems items ++ [closeBracket]
  | object members => openBrace :: renderMembers members ++ [closeBrace]
  | scalar => renderScalar scalar

/-- The items of an array, separated by commas. -/
def renderItems : List Json → Bytes
  | [] => []
  | [item] => render item
  | item :: items => render item ++ comma :: renderItems items

/-- The members of an object, separated by commas. -/
def renderMembers : List (Bytes × Json) → Bytes
  | [] => []
  | [(name, value)] => renderText name ++ colon :: render value
  | (name, value) :: members =>
    renderText name ++ colon :: render value ++ comma :: renderMembers members

end

/-- A new line at the given depth. -/
def newLine (depth : Nat) : Bytes :=
  10 :: List.replicate (2 * depth) 32

mutual

/-- The written form of a value with a line for every item and member, at the given depth. -/
def layout (depth : Nat) : Json → Bytes
  | array (item :: items) =>
    openBracket :: layoutItems (depth + 1) (item :: items) ++ newLine depth ++ [closeBracket]
  | object (first :: members) =>
    openBrace :: layoutMembers (depth + 1) (first :: members) ++ newLine depth ++ [closeBrace]
  | other => renderScalar other

/-- The items of an array, each on a line of its own. -/
def layoutItems (depth : Nat) : List Json → Bytes
  | [] => []
  | [item] => newLine depth ++ layout depth item
  | item :: items => newLine depth ++ layout depth item ++ comma :: layoutItems depth items

/-- The members of an object, each on a line of its own. -/
def layoutMembers (depth : Nat) : List (Bytes × Json) → Bytes
  | [] => []
  | [(name, value)] => newLine depth ++ renderText name ++ [colon, 32] ++ layout depth value
  | (name, value) :: members =>
    newLine depth ++ renderText name ++ [colon, 32] ++ layout depth value ++
      comma :: layoutMembers depth members

end

end Json

end Missive
