import Missive.Record.Codec

/-!
# Message records

The record of a message says which message it is and how it follows on others. It is written by
starting from a number and a post and applying edits; `MessageRecord.checked` then refuses what
breaks a rule. A revision, that is a message which is neither new nor a squash, names a previous
message with a lower number.
-/

namespace Missive

/-- Identity and lineage of a message. -/
structure MessageRecord where
  formatVersion : UInt32
  number : UInt64
  post : String
  version : UInt32
  isNewOrSquash : Bool
  isDelete : Bool
  previous : Option UInt64
  authorKeyFormat : Option String
  authorKey : Option Bytes
  signatureFormat : Option String
  deriving DecidableEq, Repr

namespace MessageRecord

/-- The version of the format that new records are written in. -/
def currentFormat : UInt32 := 1

/-- The record of a new message. -/
def start (number : UInt64) (post : String) : MessageRecord :=
  ⟨currentFormat, number, post, 0, true, false, none, none, none, none⟩

/-- A change to a record that is being written. -/
inductive Edit where
  | version (value : UInt32)
  | newOrSquash (value : Bool)
  | delete (value : Bool)
  /-- Makes the message a revision of another one. -/
  | revisionOf (number : UInt64)
  | previous (number : Option UInt64)
  | authorKey (format : String) (key : Bytes)
  | signatureFormat (format : Option String)
  deriving DecidableEq, Repr

/-- Applies a change. -/
def edit (record : MessageRecord) : Edit → MessageRecord
  | .version value => { record with version := value }
  | .newOrSquash value => { record with isNewOrSquash := value }
  | .delete value => { record with isDelete := value }
  | .revisionOf number => { record with previous := some number, isNewOrSquash := false }
  | .previous number => { record with previous := number }
  | .authorKey format key =>
    { record with authorKeyFormat := some format, authorKey := some key }
  | .signatureFormat format => { record with signatureFormat := format }

/-- The first rule that a record breaks. -/
def validate (record : MessageRecord) : Except RecordFault Unit := do
  if record.post = "" then throw .emptyPostId
  if record.isNewOrSquash = false then
    match record.previous with
    | none => throw (.revisionWithoutPrevious record.number)
    | some previous =>
      if record.number ≤ previous then throw (.previousNotLower previous record.number)
  if record.authorKeyFormat.isSome ≠ record.authorKey.isSome then throw .authorKeyIncomplete

/-- The names of the members of a record. -/
def memberNames : List String :=
  ["format_version", "message_number", "post_id", "version_number", "is_new_or_squash",
    "is_delete", "previous_message_number", "author_public_key_format", "author_public_key",
    "metadata_signature_format"]

/-- The written form of a record. -/
def toJson (record : MessageRecord) : Json :=
  .object <|
    Json.member "format_version" (.ofUInt32 record.formatVersion) ++
    Json.member "message_number" (.ofUInt64 record.number) ++
    Json.member "post_id" (.ofString record.post) ++
    Json.member "version_number" (.ofUInt32 record.version) ++
    Json.member "is_new_or_squash" (.bool record.isNewOrSquash) ++
    Json.member "is_delete" (.bool record.isDelete) ++
    Json.memberOf "previous_message_number" .ofUInt64 record.previous ++
    Json.memberOf "author_public_key_format" .ofString record.authorKeyFormat ++
    Json.memberOf "author_public_key" .ofBinary record.authorKey ++
    Json.memberOf "metadata_signature_format" .ofString record.signatureFormat

/-- The record with the given written form. -/
def ofJson? (json : Json) : Option MessageRecord := do
  let members ← Members.ofValue? memberNames json
  return {
    formatVersion := ← members.required "format_version" Json.uint32?
    number := ← members.required "message_number" Json.uint64?
    post := ← members.required "post_id" Json.text?
    version := ← members.required "version_number" Json.uint32?
    isNewOrSquash := ← members.required "is_new_or_squash" Json.bool?
    isDelete := ← members.required "is_delete" Json.bool?
    previous := ← members.optional "previous_message_number" Json.uint64?
    authorKeyFormat := ← members.optional "author_public_key_format" Json.text?
    authorKey := ← members.optional "author_public_key" Json.binary?
    signatureFormat := ← members.optional "metadata_signature_format" Json.text?
  }

instance : Record MessageRecord where
  kind := "message metadata"
  toJson := toJson
  ofJson? := ofJson?
  validate := validate

end MessageRecord

end Missive
