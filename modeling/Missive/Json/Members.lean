import Missive.Bytes.Decimal
import Missive.Json.Reader

/-!
# Members of a record

A record has a fixed list of named members. It is written as an object in which every member
stands at most once and other members are passed over, or as an array of the values in the order
of the list. `Members` is what either form gives: values under names of the list. A member that
need not be there may also be `null`.

Some objects are read so closely that also their unknown members must make sense; that is
`Json.sound`.
-/

namespace Missive

/-- The values of a record's members under their names. -/
structure Members where
  entries : List (String × Json)

namespace Members

/-- The value under a name. -/
def value? (members : Members) (name : String) : Option Json :=
  members.entries.lookup name

/-- A member that must be there. -/
def required {α : Type} (members : Members) (name : String) (read : Json → Option α) :
    Option α := do
  read (← members.value? name)

/-- A member that need not be there. -/
def optional {α : Type} (members : Members) (name : String) (read : Json → Option α) :
    Option (Option α) :=
  match members.value? name with
  | none | some .null => some none
  | some value => (read value).map some

/-- Whether no name occurs twice. -/
def distinct : List (String × Json) → Bool
  | [] => true
  | (name, _) :: entries => (entries.lookup name).isNone && distinct entries

/-- The members of an object, all of whose names must make sense. -/
def named (members : List (Bytes × Json)) : Option (List (String × Json)) :=
  members.mapM fun (name, value) => do return (← Json.textOf? name, value)

/-- The known members of an object, each of which may stand there once. -/
def ofObject? (names : List String) : Json → Option Members
  | .object members => do
    let entries := (← named members).filter fun (name, _) => names.contains name
    if distinct entries then return ⟨entries⟩ else none
  | _ => none

/-- The members of a record in either form. -/
def ofValue? (names : List String) : Json → Option Members
  | .array items => if items.length ≤ names.length then some ⟨names.zip items⟩ else none
  | other => ofObject? names other

end Members

namespace Json

/-- A member of a record that is being written. -/
def member (name : String) (value : Json) : List (Bytes × Json) :=
  [(escape (Bytes.ofString name), value)]

/-- A member that is left out where there is no value. -/
def memberOf {α : Type} (name : String) (write : α → Json) : Option α → List (Bytes × Json)
  | none => []
  | some value => member name (write value)

/--
Appends digits to a number as long as it stays below 2⁶⁴. The second result counts the digits
that were left over.
-/
def absorb (value : Nat) : Bytes → Nat × Nat
  | [] => (value, 0)
  | byte :: rest =>
    let next := 10 * value + Decimal.digitValue byte
    if next < UInt64.size then absorb next rest else (value, rest.length + 1)

/--
Whether a number has a double-precision value. The digits that fit in 64 bits are scaled by a
power of ten; both are rounded before they are multiplied.
-/
def isFinite (numeral : Numeral) : Bool :=
  let (whole, dropped) := absorb 0 numeral.whole
  let (digits, unread) := absorb whole numeral.fraction
  let scale : Int :=
    dropped - (numeral.fraction.length - unread : Nat) + numeral.exponent.getD 0
  digits = 0 || scale < 0 ||
    (scale ≤ 308 &&
      Double.round digits * Double.round (Nat.pow 10 scale.toNat) < Double.limit)

mutual

/--
Whether all of a value makes sense: every text is one, every number has a double-precision
value, and arrays and objects are nested at most `depth` deep.
-/
def sound (depth : Nat) : Json → Bool
  | null | bool _ => true
  | number numeral => isFinite numeral
  | string body => (textOf? body).isSome
  | array items =>
    match depth with
    | 0 => false
    | depth + 1 => soundItems depth items
  | object members =>
    match depth with
    | 0 => false
    | depth + 1 => soundMembers depth members

/-- Whether all items make sense. -/
def soundItems (depth : Nat) : List Json → Bool
  | [] => true
  | item :: items => sound depth item && soundItems depth items

/-- Whether all members make sense. -/
def soundMembers (depth : Nat) : List (Bytes × Json) → Bool
  | [] => true
  | (name, value) :: members =>
    (textOf? name).isSome && sound depth value && soundMembers depth members

end

end Json

end Missive
