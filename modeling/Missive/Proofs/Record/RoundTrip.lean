import Missive.Proofs.Record.Fields
import Missive.Record.File
import Missive.Record.Key
import Missive.Record.Message
import Missive.Record.Subscriber

/-!
# Records without loss

Each kind of record is decoded from its stored form as it was, if it keeps the rules of its kind.
The written form of a record is a row of fields; a key is the one record with further records in
it, whose members must make sense as a whole before any of them is read.
-/

namespace Missive

theorem Json.memberOf_map {α : Type} (name : String) (write : α → Json) (field : Option α) :
    memberOf name id (field.map write) = memberOf name write field := by
  cases field <;> rfl

/-! ### Message records -/

namespace MessageRecord

/-- The fields of a record. -/
def fields (record : MessageRecord) : List (String × Option Json) :=
  [("format_version", some (.ofUInt32 record.formatVersion)),
    ("message_number", some (.ofUInt64 record.number)),
    ("post_id", some (.ofString record.post)),
    ("version_number", some (.ofUInt32 record.version)),
    ("is_new_or_squash", some (.bool record.isNewOrSquash)),
    ("is_delete", some (.bool record.isDelete)),
    ("previous_message_number", record.previous.map .ofUInt64),
    ("author_public_key_format", record.authorKeyFormat.map .ofString),
    ("author_public_key", record.authorKey.map .ofBinary),
    ("metadata_signature_format", record.signatureFormat.map .ofString)]

theorem toJson_eq (record : MessageRecord) :
    record.toJson = .object (Members.written record.fields) := by
  simp only [toJson, fields, Members.written, List.flatMap_cons, List.flatMap_nil,
    Json.memberOf_map, List.append_nil, List.append_assoc]
  rfl

theorem different_fields (record : MessageRecord) : (record.fields.map Prod.fst).Nodup := by
  have names : record.fields.map Prod.fst = memberNames := rfl
  rw [names]
  decide

theorem reads_toJson (record : MessageRecord) : record.toJson.Reads := by
  rw [toJson_eq]
  apply Json.reads_object
  apply Json.readsMembers_written
  simp only [fields, List.forall_mem_cons]
  exact ⟨Json.readsField_some (Json.reads_ofNat _), Json.readsField_some (Json.reads_ofNat _),
    Json.readsField_some (Json.reads_ofString _), Json.readsField_some (Json.reads_ofNat _),
    Json.readsField_some (Json.reads_bool _), Json.readsField_some (Json.reads_bool _),
    Json.readsField_map _ fun value => Json.reads_ofNat value.toNat,
    Json.readsField_map _ Json.reads_ofString, Json.readsField_map _ Json.reads_ofBinary,
    Json.readsField_map _ Json.reads_ofString, fun _ member => nomatch member⟩

theorem ofJson?_toJson (record : MessageRecord) : ofJson? record.toJson = some record := by
  have different := record.different_fields
  have members :
      Members.ofValue? memberNames record.toJson = some ⟨Members.present record.fields⟩ := by
    rw [toJson_eq]
    exact Members.ofObject?_written (fun _ member => member) different
  have formatVersion := Members.required_present different
    (by simp [fields] : ("format_version", some (.ofUInt32 record.formatVersion)) ∈ record.fields)
    (Json.uint32?_ofUInt32 _)
  have number := Members.required_present different
    (by simp [fields] : ("message_number", some (.ofUInt64 record.number)) ∈ record.fields)
    (Json.uint64?_ofUInt64 _)
  have post := Members.required_present different
    (by simp [fields] : ("post_id", some (.ofString record.post)) ∈ record.fields)
    (Json.text?_ofString _)
  have version := Members.required_present different
    (by simp [fields] : ("version_number", some (.ofUInt32 record.version)) ∈ record.fields)
    (Json.uint32?_ofUInt32 _)
  have isNewOrSquash := Members.required_present different
    (by simp [fields] : ("is_new_or_squash", some (.bool record.isNewOrSquash)) ∈ record.fields)
    (rfl : (Json.bool record.isNewOrSquash).bool? = some _)
  have isDelete := Members.required_present different
    (by simp [fields] : ("is_delete", some (.bool record.isDelete)) ∈ record.fields)
    (rfl : (Json.bool record.isDelete).bool? = some _)
  have previous := Members.optional_present different
    (by simp [fields] :
      ("previous_message_number", record.previous.map .ofUInt64) ∈ record.fields)
    Json.uint64?_inverts
  have authorKeyFormat := Members.optional_present different
    (by simp [fields] :
      ("author_public_key_format", record.authorKeyFormat.map .ofString) ∈ record.fields)
    Json.text?_inverts
  have authorKey := Members.optional_present different
    (by simp [fields] : ("author_public_key", record.authorKey.map .ofBinary) ∈ record.fields)
    Json.binary?_inverts
  have signatureFormat := Members.optional_present different
    (by simp [fields] :
      ("metadata_signature_format", record.signatureFormat.map .ofString) ∈ record.fields)
    Json.text?_inverts
  simp only [ofJson?, members, formatVersion, number, post, version, isNewOrSquash, isDelete,
    previous, authorKeyFormat, authorKey, signatureFormat, Option.bind_eq_bind, Option.bind_some,
    Option.pure_def]

/-- A message record is decoded as it was encoded. -/
theorem decode_encode {record : MessageRecord} (valid : Record.validate record = .ok ()) :
    Record.decode (Record.encode record) = .ok record :=
  Record.decode_of_reads valid record.reads_toJson record.ofJson?_toJson

end MessageRecord

/-! ### File records -/

theorem Update.ofJson?_ofString (update : Update) :
    Update.ofJson? (.ofString update.name) = some update := by
  have named : Update.ofJson? (.ofString update.name) =
      (Json.ofString update.name).text? >>= Update.ofName? := rfl
  rw [named, Json.text?_ofString]
  cases update <;> decide

namespace FileRecord

/-- The fields of a record. -/
def fields (record : FileRecord) : List (String × Option Json) :=
  [("update_type", some (.ofString record.update.name)),
    ("mime_type", record.mimeType.map .ofString),
    ("encoding_type", record.encoding.map .ofString),
    ("created_at", record.createdAt.map .ofUInt64),
    ("updated_at", record.updatedAt.map .ofUInt64),
    ("author_file_signature_format", record.signatureFormat.map .ofString),
    ("author_file_signature", record.signature.map .ofBinary)]

theorem toJson_eq (record : FileRecord) :
    record.toJson = .object (Members.written record.fields) := by
  simp only [toJson, fields, Members.written, List.flatMap_cons, List.flatMap_nil,
    Json.memberOf_map, List.append_nil, List.append_assoc]
  rfl

theorem different_fields (record : FileRecord) : (record.fields.map Prod.fst).Nodup := by
  have names : record.fields.map Prod.fst = memberNames := rfl
  rw [names]
  decide

theorem reads_toJson (record : FileRecord) : record.toJson.Reads := by
  rw [toJson_eq]
  apply Json.reads_object
  apply Json.readsMembers_written
  simp only [fields, List.forall_mem_cons]
  exact ⟨Json.readsField_some (Json.reads_ofString _),
    Json.readsField_map _ Json.reads_ofString, Json.readsField_map _ Json.reads_ofString,
    Json.readsField_map _ fun value => Json.reads_ofNat value.toNat,
    Json.readsField_map _ fun value => Json.reads_ofNat value.toNat,
    Json.readsField_map _ Json.reads_ofString, Json.readsField_map _ Json.reads_ofBinary,
    fun _ member => nomatch member⟩

theorem ofJson?_toJson (record : FileRecord) : ofJson? record.toJson = some record := by
  have different := record.different_fields
  have members : Members.ofValue? memberNames record.toJson =
      some ⟨Members.present record.fields⟩ := by
    rw [toJson_eq]
    exact Members.ofObject?_written (fun _ member => member) different
  have update := Members.required_present different
    (by simp [fields] : ("update_type", some (.ofString record.update.name)) ∈ record.fields)
    (Update.ofJson?_ofString record.update)
  have mimeType := Members.optional_present different
    (by simp [fields] : ("mime_type", record.mimeType.map .ofString) ∈ record.fields)
    Json.text?_inverts
  have encoding := Members.optional_present different
    (by simp [fields] : ("encoding_type", record.encoding.map .ofString) ∈ record.fields)
    Json.text?_inverts
  have createdAt := Members.optional_present different
    (by simp [fields] : ("created_at", record.createdAt.map .ofUInt64) ∈ record.fields)
    Json.uint64?_inverts
  have updatedAt := Members.optional_present different
    (by simp [fields] : ("updated_at", record.updatedAt.map .ofUInt64) ∈ record.fields)
    Json.uint64?_inverts
  have signatureFormat := Members.optional_present different
    (by simp [fields] :
      ("author_file_signature_format", record.signatureFormat.map .ofString) ∈ record.fields)
    Json.text?_inverts
  have signature := Members.optional_present different
    (by simp [fields] : ("author_file_signature", record.signature.map .ofBinary) ∈ record.fields)
    Json.binary?_inverts
  simp only [ofJson?, members, update, mimeType, encoding, createdAt, updatedAt, signatureFormat,
    signature, Option.bind_eq_bind, Option.bind_some, Option.pure_def]

/-- A file record is decoded as it was encoded. -/
theorem decode_encode {record : FileRecord} (valid : Record.validate record = .ok ()) :
    Record.decode (Record.encode record) = .ok record :=
  Record.decode_of_reads valid record.reads_toJson record.ofJson?_toJson

end FileRecord

/-! ### Subscribers -/

namespace Subscriber

/-- The fields of a subscriber. -/
def fields (subscriber : Subscriber) : List (String × Option Json) :=
  [("label", some (.ofString subscriber.label)),
    ("public_key_format", some (.ofString subscriber.keyFormat)),
    ("public_key", some (.ofBinary subscriber.key))]

theorem toJson_eq (subscriber : Subscriber) :
    subscriber.toJson = .object (Members.written subscriber.fields) := by
  simp only [toJson, fields, Members.written, List.flatMap_cons, List.flatMap_nil,
    List.append_nil, List.append_assoc]
  rfl

theorem reads_toJson (subscriber : Subscriber) : subscriber.toJson.Reads := by
  rw [toJson_eq]
  apply Json.reads_object
  apply Json.readsMembers_written
  simp only [fields, List.forall_mem_cons]
  exact ⟨Json.readsField_some (Json.reads_ofString _), Json.readsField_some (Json.reads_ofString _),
    Json.readsField_some (Json.reads_ofBinary _), fun _ member => nomatch member⟩

theorem ofJson?_toJson (subscriber : Subscriber) : ofJson? subscriber.toJson = some subscriber := by
  have different : (subscriber.fields.map Prod.fst).Nodup := by
    have names : subscriber.fields.map Prod.fst = memberNames := rfl
    rw [names]
    decide
  have members : Members.ofValue? memberNames subscriber.toJson =
      some ⟨Members.present subscriber.fields⟩ := by
    rw [toJson_eq]
    exact Members.ofObject?_written (fun _ member => member) different
  have label := Members.required_present different
    (by simp [fields] : ("label", some (.ofString subscriber.label)) ∈ subscriber.fields)
    (Json.text?_ofString _)
  have keyFormat := Members.required_present different
    (by simp [fields] :
      ("public_key_format", some (.ofString subscriber.keyFormat)) ∈ subscriber.fields)
    (Json.text?_ofString _)
  have key := Members.required_present different
    (by simp [fields] : ("public_key", some (.ofBinary subscriber.key)) ∈ subscriber.fields)
    (Json.binary?_ofBinary _)
  simp only [ofJson?, members, label, keyFormat, key, Option.bind_eq_bind, Option.bind_some,
    Option.pure_def]

/-- A subscriber is decoded as it was encoded. -/
theorem decode_encode {subscriber : Subscriber} (valid : Record.validate subscriber = .ok ()) :
    Record.decode (Record.encode subscriber) = .ok subscriber :=
  Record.decode_of_reads valid subscriber.reads_toJson subscriber.ofJson?_toJson

end Subscriber

end Missive
