import Missive.Record.Codec

/-!
# Subscribers

A subscriber is a reader who is entitled to the keys of packages, known by a public key. The
label of a subscriber stands in the names of key files, so it is a plain word.
-/

namespace Missive

/-- A reader entitled to package keys. -/
structure Subscriber where
  label : String
  keyFormat : String
  key : Bytes
  deriving DecidableEq, Repr

namespace Subscriber

/-- Whether a character may stand in a label: an ASCII letter or digit, a hyphen or underscore. -/
def isLabelCharacter (character : Char) : Bool :=
  character.isAlphanum || character = '-' || character = '_'

/-- The first rule that a subscriber breaks. -/
def validate (subscriber : Subscriber) : Except RecordFault Unit := do
  if subscriber.label = "" ∨ subscriber.label.toList.all isLabelCharacter = false then
    throw (.subscriberLabel subscriber.label)
  if subscriber.keyFormat = "" ∨ subscriber.key = [] then
    throw (.subscriberKeyMissing subscriber.label)

/-- The names of the members of a subscriber. -/
def memberNames : List String :=
  ["label", "public_key_format", "public_key"]

/-- The written form of a subscriber. -/
def toJson (subscriber : Subscriber) : Json :=
  .object <|
    Json.member "label" (.ofString subscriber.label) ++
    Json.member "public_key_format" (.ofString subscriber.keyFormat) ++
    Json.member "public_key" (.ofBinary subscriber.key)

/-- The subscriber with the given written form. -/
def ofJson? (json : Json) : Option Subscriber := do
  let members ← Members.ofValue? memberNames json
  return {
    label := ← members.required "label" Json.text?
    keyFormat := ← members.required "public_key_format" Json.text?
    key := ← members.required "public_key" Json.binary?
  }

instance : Record Subscriber where
  kind := "subscriber"
  toJson := toJson
  ofJson? := ofJson?
  validate := validate

end Subscriber

end Missive
