import Missive.Record.Codec

/-!
# File records

The record of a logical file says what the message does to the file and what its content is. It
may carry a signature of the author over the plaintext of the file.
-/

namespace Missive

/-- What a message does to a logical file. -/
inductive Update where
  | createOrOverride
  | delete
  deriving DecidableEq, Repr

namespace Update

/-- The name of an update. -/
def name : Update → String
  | createOrOverride => "CreateOrOverride"
  | delete => "Delete"

/-- The update with the given name. -/
def ofName? (name : String) : Option Update :=
  [createOrOverride, delete].find? fun update => update.name = name

/-- An update: its name, or an object with `null` under the name. -/
def ofJson? : Json → Option Update
  | .object [(body, .null)] => Json.textOf? body >>= ofName?
  | json => json.text? >>= ofName?

end Update

/-- What a message does to a logical file, and what the content of the file is. -/
structure FileRecord where
  update : Update
  mimeType : Option String
  encoding : Option String
  /-- In milliseconds since 1970. -/
  createdAt : Option UInt64
  /-- In milliseconds since 1970. -/
  updatedAt : Option UInt64
  signatureFormat : Option String
  signature : Option Bytes
  deriving DecidableEq, Repr

namespace FileRecord

/-- A record that says nothing about the content. -/
def start (update : Update) : FileRecord :=
  ⟨update, none, none, none, none, none, none⟩

/-- A change to a record that is being written. -/
inductive Edit where
  | mimeType (value : String)
  | encoding (value : String)
  | createdAt (milliseconds : UInt64)
  | updatedAt (milliseconds : UInt64)
  deriving DecidableEq, Repr

/-- Applies a change. -/
def edit (record : FileRecord) : Edit → FileRecord
  | .mimeType value => { record with mimeType := some value }
  | .encoding value => { record with encoding := some value }
  | .createdAt milliseconds => { record with createdAt := some milliseconds }
  | .updatedAt milliseconds => { record with updatedAt := some milliseconds }

/-- The record with a signature of the author. -/
def signed (format : String) (signature : Bytes) (record : FileRecord) : FileRecord :=
  { record with signatureFormat := some format, signature := some signature }

/-- The first rule that a record breaks. -/
def validate (record : FileRecord) : Except RecordFault Unit := do
  if record.signatureFormat.isSome ≠ record.signature.isSome then
    throw .fileSignatureIncomplete
  match record.createdAt, record.updatedAt with
  | some created, some updated =>
    if updated < created then throw (.updatedBeforeCreated updated created)
  | _, _ => return ()

/-- The names of the members of a record. -/
def memberNames : List String :=
  ["update_type", "mime_type", "encoding_type", "created_at", "updated_at",
    "author_file_signature_format", "author_file_signature"]

/-- The written form of a record. -/
def toJson (record : FileRecord) : Json :=
  .object <|
    Json.member "update_type" (.ofString record.update.name) ++
    Json.memberOf "mime_type" .ofString record.mimeType ++
    Json.memberOf "encoding_type" .ofString record.encoding ++
    Json.memberOf "created_at" .ofUInt64 record.createdAt ++
    Json.memberOf "updated_at" .ofUInt64 record.updatedAt ++
    Json.memberOf "author_file_signature_format" .ofString record.signatureFormat ++
    Json.memberOf "author_file_signature" .ofBinary record.signature

/-- The record with the given written form. -/
def ofJson? (json : Json) : Option FileRecord := do
  let members ← Members.ofValue? memberNames json
  return {
    update := ← members.required "update_type" Update.ofJson?
    mimeType := ← members.optional "mime_type" Json.text?
    encoding := ← members.optional "encoding_type" Json.text?
    createdAt := ← members.optional "created_at" Json.uint64?
    updatedAt := ← members.optional "updated_at" Json.uint64?
    signatureFormat := ← members.optional "author_file_signature_format" Json.text?
    signature := ← members.optional "author_file_signature" Json.binary?
  }

instance : Record FileRecord where
  kind := "logical file metadata"
  toJson := toJson
  ofJson? := ofJson?
  validate := validate

end FileRecord

end Missive
