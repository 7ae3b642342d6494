import Missive.Proofs.Record.RoundTrip
import Missive.Proofs.Text

/-!
# Package keys without loss

Before a file section is read, all of its members must make sense, also as double-precision
numbers. What is written does so: numbers have at most 64 bits, and all texts are UTF-8.
-/

namespace Missive

/-! ### Values that make sense -/

namespace Double

theorem round_le {value : Nat} (positive : 0 < value) : round value ≤ 2 * value := by
  generalize shift : (1 <<< (value.log2 - 52) : Nat) = unit
  have small : unit ≤ value := by
    rw [← shift, Nat.one_shiftLeft]
    exact Nat.le_trans (Nat.pow_le_pow_right (by decide) (Nat.sub_le _ _))
      (Nat.log2_self_le (Nat.ne_of_gt positive))
  have below : value / unit * unit ≤ value := Nat.div_mul_le_self value unit
  simp only [round, shift]
  split
  · omega
  · rw [Nat.add_mul]
    omega

end Double

namespace Json

theorem le_foldl_digits (bytes : Bytes) (value : Nat) :
    value ≤ bytes.foldl (fun value byte => 10 * value + Decimal.digitValue byte) value := by
  induction bytes generalizing value with
  | nil => exact Nat.le_refl _
  | cons byte bytes ih =>
      have later := ih (10 * value + Decimal.digitValue byte)
      rw [List.foldl_cons]
      omega

theorem absorb_of_lt {bytes : Bytes} {value : Nat}
    (small : bytes.foldl (fun value byte => 10 * value + Decimal.digitValue byte) value <
      UInt64.size) :
    absorb value bytes =
      (bytes.foldl (fun value byte => 10 * value + Decimal.digitValue byte) value, 0) := by
  induction bytes generalizing value with
  | nil => rfl
  | cons byte bytes ih =>
      rw [List.foldl_cons] at small ⊢
      have next := le_foldl_digits bytes (10 * value + Decimal.digitValue byte)
      rw [absorb]
      simp only [if_pos (Nat.lt_of_le_of_lt next small)]
      exact ih small

/-- A number of at most 64 bits has a double-precision value. -/
theorem sound_ofUInt64 (depth : Nat) (value : UInt64) : sound depth (ofUInt64 value) = true := by
  have whole := Decimal.ofDigits_digits value.toNat
  rw [Decimal.ofDigits] at whole
  have digits : absorb 0 (Decimal.digits value.toNat) = (value.toNat, 0) := by
    rw [absorb_of_lt (by rw [whole]; exact value.toNat_lt_size), whole]
  simp only [sound, ofUInt64, ofNat, isFinite, digits, absorb, List.length_nil, Option.getD_none]
  rcases Nat.eq_zero_or_pos value.toNat with zero | positive
  · simp [zero]
  · have bound := Double.round_le positive
    have single : Double.round 1 = 1 := by decide
    have limit : 2 * UInt64.size ≤ Double.limit := by decide +kernel
    have small := value.toNat_lt_size
    have finite : Double.round value.toNat < Double.limit := by omega
    simp [finite, single]

theorem sound_ofString (depth : Nat) (text : String) : sound depth (ofString text) = true := by
  simp [sound, ofString]

theorem sound_ofBinary (depth : Nat) (bytes : Bytes) : sound depth (ofBinary bytes) = true := by
  rw [ofBinary, sound, textOf?, unescape_escape]
  exact Bytes.isSome_toString?_of_ascii (Base64.ascii_encode bytes)

theorem soundMembers_written {depth : Nat} {fields : List (String × Option Json)}
    (parts : ∀ field ∈ fields, ∀ value ∈ field.2, sound depth value = true) :
    soundMembers depth (Members.written fields) = true := by
  induction fields with
  | nil => rfl
  | cons field fields ih =>
      rcases field with ⟨name, value⟩
      rw [List.forall_mem_cons] at parts
      cases value with
      | none => exact ih parts.2
      | some value =>
          have first : Members.written ((name, some value) :: fields) =
              (escape (Bytes.ofString name), value) :: Members.written fields := rfl
          rw [first, soundMembers, textOf?_escape, parts.1 value rfl, ih parts.2]
          rfl

theorem sound_map {α : Type} {depth : Nat} {write : α → Json} (field : Option α)
    (sounds : ∀ content, sound depth (write content) = true) :
    ∀ value ∈ field.map write, sound depth value = true := by
  intro value member
  cases field with
  | none => cases member
  | some content =>
      cases member
      exact sounds content

end Json

/-! ### Sections -/

namespace Section

/-- The fields of a section. -/
def fields (described : Section) : List (String × Option Json) :=
  [("offset", some (.ofUInt64 described.offset)),
    ("length", some (.ofUInt64 described.length)),
    ("encryption_algorithm", described.cipher.map .ofString),
    ("encryption_key_data", described.keyData.map .ofBinary),
    ("checksum_algorithm", described.checksum.map .ofString),
    ("checksum", described.checksumValue.map .ofBinary)]

theorem toMembers_eq (described : Section) :
    described.toMembers = Members.written described.fields := by
  simp only [toMembers, fields, Members.written, List.flatMap_cons, List.flatMap_nil,
    Json.memberOf_map, List.append_nil, List.append_assoc]
  rfl

theorem readsField_fields (described : Section) :
    ∀ field ∈ described.fields, Json.ReadsField field := by
  simp only [fields, List.forall_mem_cons]
  exact ⟨Json.readsField_some (Json.reads_ofNat _), Json.readsField_some (Json.reads_ofNat _),
    Json.readsField_map _ Json.reads_ofString, Json.readsField_map _ Json.reads_ofBinary,
    Json.readsField_map _ Json.reads_ofString, Json.readsField_map _ Json.reads_ofBinary,
    fun _ member => nomatch member⟩

theorem sound_fields (depth : Nat) (described : Section) :
    ∀ field ∈ described.fields, ∀ value ∈ field.2, Json.sound depth value = true := by
  have number : ∀ content : UInt64, ∀ value ∈ some (Json.ofUInt64 content),
      Json.sound depth value = true := by
    intro content value member
    cases member
    exact Json.sound_ofUInt64 depth content
  simp only [fields, List.forall_mem_cons]
  exact ⟨number _, number _, Json.sound_map _ (Json.sound_ofString depth),
    Json.sound_map _ (Json.sound_ofBinary depth), Json.sound_map _ (Json.sound_ofString depth),
    Json.sound_map _ (Json.sound_ofBinary depth), fun _ member => nomatch member⟩

/-- A section is found among the members of a record that holds all of its fields. -/
theorem ofMembers?_present {described : Section} {fields : List (String × Option Json)}
    (different : (fields.map Prod.fst).Nodup)
    (listed : ∀ field ∈ described.fields, field ∈ fields) :
    ofMembers? ⟨Members.present fields⟩ = some described := by
  have offset := Members.required_present different
    (listed ("offset", some (.ofUInt64 described.offset)) (by simp [Section.fields]))
    (Json.uint64?_ofUInt64 _)
  have length := Members.required_present different
    (listed ("length", some (.ofUInt64 described.length)) (by simp [Section.fields]))
    (Json.uint64?_ofUInt64 _)
  have cipher := Members.optional_present different
    (listed ("encryption_algorithm", described.cipher.map .ofString) (by simp [Section.fields]))
    Json.text?_inverts
  have keyData := Members.optional_present different
    (listed ("encryption_key_data", described.keyData.map .ofBinary) (by simp [Section.fields]))
    Json.binary?_inverts
  have checksum := Members.optional_present different
    (listed ("checksum_algorithm", described.checksum.map .ofString) (by simp [Section.fields]))
    Json.text?_inverts
  have checksumValue := Members.optional_present different
    (listed ("checksum", described.checksumValue.map .ofBinary) (by simp [Section.fields]))
    Json.binary?_inverts
  simp only [ofMembers?, offset, length, cipher, keyData, checksum, checksumValue,
    Option.bind_eq_bind, Option.bind_some, Option.pure_def]

theorem different_fields (described : Section) : (described.fields.map Prod.fst).Nodup := by
  have names : described.fields.map Prod.fst = memberNames := rfl
  rw [names]
  decide

theorem ofJson?_object (described : Section) :
    ofJson? (.object described.toMembers) = some described := by
  have members : Members.ofValue? memberNames (.object described.toMembers) =
      some ⟨Members.present described.fields⟩ := by
    rw [toMembers_eq]
    exact Members.ofObject?_written (fun _ member => member) described.different_fields
  simp only [ofJson?, members, Option.bind_eq_bind, Option.bind_some,
    ofMembers?_present described.different_fields fun _ member => member]

end Section

/-! ### File sections -/

namespace FileSection

/-- The fields of a file section. -/
def fields (file : FileSection) : List (String × Option Json) :=
  ("file_path", some (.ofString file.path)) :: file.content.fields

theorem toJson_eq (file : FileSection) : file.toJson = .object (Members.written file.fields) := by
  rw [toJson, Section.toMembers_eq]
  rfl

theorem reads_toJson (file : FileSection) : file.toJson.Reads := by
  rw [toJson_eq]
  apply Json.reads_object
  apply Json.readsMembers_written
  rw [fields, List.forall_mem_cons]
  exact ⟨Json.readsField_some (Json.reads_ofString _), file.content.readsField_fields⟩

theorem ofJson?_toJson (file : FileSection) : ofJson? file.toJson = some file := by
  have names : file.fields.map Prod.fst = "file_path" :: Section.memberNames := rfl
  have different : (file.fields.map Prod.fst).Nodup := by
    rw [names]
    decide
  have sound : Json.soundMembers depthLimit (Members.written file.fields) = true := by
    apply Json.soundMembers_written
    rw [fields, List.forall_mem_cons]
    refine ⟨?_, file.content.sound_fields depthLimit⟩
    intro value member
    cases member
    exact Json.sound_ofString depthLimit file.path
  have members : Members.ofObject? ("file_path" :: Section.memberNames)
      (.object (Members.written file.fields)) = some ⟨Members.present file.fields⟩ :=
    Members.ofObject?_written (fun _ member => member) different
  have path := Members.required_present different
    (by simp [fields] : ("file_path", some (.ofString file.path)) ∈ file.fields)
    (Json.text?_ofString _)
  have content := Section.ofMembers?_present different
    fun field member => List.mem_cons_of_mem _ member
  simp only [toJson_eq, ofJson?, sound, members, path, content, Bool.true_eq_false, if_false,
    Option.bind_eq_bind, Option.bind_some, Option.pure_def]

end FileSection

/-! ### Keys -/

namespace PackageKey

/-- The fields of a key. -/
def fields (key : PackageKey) : List (String × Option Json) :=
  [("metadata_section", some (.object key.metadata.toMembers)),
    ("logical_files", some (.array (key.files.map FileSection.toJson))),
    ("author_signature_format", key.signatureFormat.map .ofString),
    ("author_signature", key.signature.map .ofBinary)]

theorem toJson_eq (key : PackageKey) : key.toJson = .object (Members.written key.fields) := by
  simp only [toJson, fields, Members.written, List.flatMap_cons, List.flatMap_nil,
    Json.memberOf_map, List.append_nil, List.append_assoc]
  rfl

theorem reads_toJson (key : PackageKey) : key.toJson.Reads := by
  have metadata : (Json.object key.metadata.toMembers).Reads := by
    rw [Section.toMembers_eq]
    exact Json.reads_object (Json.readsMembers_written key.metadata.readsField_fields)
  have files : (Json.array (key.files.map FileSection.toJson)).Reads := by
    apply Json.reads_array
    intro item member
    rcases List.mem_map.mp member with ⟨file, _, rfl⟩
    exact file.reads_toJson
  rw [toJson_eq]
  apply Json.reads_object
  apply Json.readsMembers_written
  simp only [fields, List.forall_mem_cons]
  exact ⟨Json.readsField_some metadata, Json.readsField_some files,
    Json.readsField_map _ Json.reads_ofString, Json.readsField_map _ Json.reads_ofBinary,
    fun _ member => nomatch member⟩

theorem ofJson?_toJson (key : PackageKey) : ofJson? key.toJson = some key := by
  have names : key.fields.map Prod.fst = memberNames := rfl
  have different : (key.fields.map Prod.fst).Nodup := by
    rw [names]
    decide
  have members : Members.ofValue? memberNames key.toJson = some ⟨Members.present key.fields⟩ := by
    rw [toJson_eq]
    exact Members.ofObject?_written (fun _ member => member) different
  have metadata := Members.required_present different
    (by simp [fields] :
      ("metadata_section", some (.object key.metadata.toMembers)) ∈ key.fields)
    (Section.ofJson?_object key.metadata)
  have files := Members.required_present different
    (by simp [fields] :
      ("logical_files", some (.array (key.files.map FileSection.toJson))) ∈ key.fields)
    (rfl : (Json.array (key.files.map FileSection.toJson)).items? = some _)
  have signatureFormat := Members.optional_present different
    (by simp [fields] :
      ("author_signature_format", key.signatureFormat.map .ofString) ∈ key.fields)
    Json.text?_inverts
  have signature := Members.optional_present different
    (by simp [fields] : ("author_signature", key.signature.map .ofBinary) ∈ key.fields)
    Json.binary?_inverts
  simp only [ofJson?, members, metadata, files, signatureFormat, signature,
    Json.mapM_map_of_inverts FileSection.ofJson?_toJson, Option.bind_eq_bind, Option.bind_some,
    Option.pure_def]

/-- A key is decoded as it was encoded. -/
theorem decode_encode {key : PackageKey} (valid : Record.validate key = .ok ()) :
    Record.decode (Record.encode key) = .ok key :=
  Record.decode_of_reads valid key.reads_toJson key.ofJson?_toJson

/-- A key is no record of a message. -/
theorem decode_ne_ok_messageRecord (key : PackageKey) (record : MessageRecord) :
    Record.decode (Record.encode key) ≠ .ok record := by
  have absent : "format_version" ∉ key.fields.map Prod.fst := by
    have names : key.fields.map Prod.fst = memberNames := rfl
    rw [names]
    decide
  have unreadable : MessageRecord.ofJson? key.toJson = none := by
    rw [toJson_eq, MessageRecord.ofJson?]
    cases found : Members.ofValue? MessageRecord.memberNames
        (.object (Members.written key.fields)) with
    | none => rfl
    | some members =>
        simp only [Members.required_eq_none found absent, Option.bind_eq_bind, Option.bind_some,
          Option.bind_none]
  have back : Json.ofBytes? (Record.encode key) = some key.toJson :=
    Json.ofBytes?_render key.reads_toJson
  have nothing : Json.ofBytes? (Record.encode key) >>= Record.ofJson? (α := MessageRecord) =
      none := by
    rw [back]
    exact unreadable
  simp only [Record.decode, nothing]
  intro decoded
  cases decoded

end PackageKey

end Missive
