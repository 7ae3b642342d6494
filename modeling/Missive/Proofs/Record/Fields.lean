import Missive.Proofs.Bytes.Base64
import Missive.Proofs.Json.RoundTrip
import Missive.Record.Codec

/-!
# Fields of a record

A record in writing is a row of fields, some of which may be left out. `Members.written` is the
object of such a row, and `ofObject?_written` says what a reader finds there: under the name of
each field the value that was written, and nothing where the field was left out.
-/

namespace Missive

namespace Members

/-- The members of an object for some fields, in their order. -/
def written (fields : List (String × Option Json)) : List (Bytes × Json) :=
  fields.flatMap fun (name, value) => Json.memberOf name id value

/-- The fields that are not left out. -/
def present (fields : List (String × Option Json)) : List (String × Json) :=
  fields.filterMap fun (name, value) => value.map (name, ·)

theorem named_written (fields : List (String × Option Json)) :
    named (written fields) = some (present fields) := by
  induction fields with
  | nil => rfl
  | cons field fields ih =>
      rcases field with ⟨name, value⟩
      cases value with
      | none =>
          have parts : written ((name, none) :: fields) = written fields := rfl
          rw [parts, ih]
          rfl
      | some value =>
          have parts : written ((name, some value) :: fields) =
              (Json.escape (Bytes.ofString name), value) :: written fields := rfl
          rw [named] at ih
          rw [parts, named, List.mapM_cons, ih]
          simp only [Json.textOf?_escape]
          rfl

theorem mem_names_of_mem_present {fields : List (String × Option Json)} {name : String}
    {value : Json} (member : (name, value) ∈ present fields) : name ∈ fields.map Prod.fst := by
  rw [present, List.mem_filterMap] at member
  rcases member with ⟨field, listed, shape⟩
  cases field with
  | mk other content =>
      simp only [Option.map_eq_some_iff, Prod.mk.injEq] at shape
      rcases shape with ⟨_, _, rfl, _⟩
      exact List.mem_map_of_mem listed

theorem lookup_present_of_not_mem {fields : List (String × Option Json)} {name : String}
    (absent : name ∉ fields.map Prod.fst) : (present fields).lookup name = none := by
  rw [List.lookup_eq_none_iff]
  intro entry member
  have known : entry.1 ∈ fields.map Prod.fst := mem_names_of_mem_present member
  have other : name ≠ entry.1 := by
    rintro rfl
    exact absent known
  simpa using other

theorem distinct_present {fields : List (String × Option Json)}
    (different : (fields.map Prod.fst).Nodup) : distinct (present fields) = true := by
  induction fields with
  | nil => rfl
  | cons field fields ih =>
      rcases field with ⟨name, value⟩
      rw [List.map_cons, List.nodup_cons] at different
      cases value with
      | none => exact ih different.2
      | some value =>
          have parts :
              present ((name, some value) :: fields) = (name, value) :: present fields := rfl
          rw [parts, distinct, lookup_present_of_not_mem different.1, ih different.2]
          rfl

/-- A field of different names has its own value. -/
theorem lookup_present {fields : List (String × Option Json)}
    (different : (fields.map Prod.fst).Nodup) {name : String} {value : Option Json}
    (listed : (name, value) ∈ fields) : (present fields).lookup name = value := by
  induction fields with
  | nil => cases listed
  | cons field fields ih =>
      rw [List.map_cons, List.nodup_cons] at different
      rcases List.mem_cons.mp listed with rfl | later
      · cases value with
        | none =>
            have parts : present ((name, none) :: fields) = present fields := rfl
            rw [parts, lookup_present_of_not_mem different.1]
        | some value =>
            have parts : present ((name, some value) :: fields) =
                (name, value) :: present fields := rfl
            rw [parts, List.lookup_cons_self]
      · rcases field with ⟨other, content⟩
        have apart : name ≠ other := by
          rintro rfl
          exact different.1 (List.mem_map.mpr ⟨_, later, rfl⟩)
        cases content with
        | none => exact ih different.2 later
        | some content =>
            have parts : present ((other, some content) :: fields) =
                (other, content) :: present fields := rfl
            rw [parts, List.lookup_cons, beq_false_of_ne apart]
            exact ih different.2 later

theorem ofObject?_written {names : List String} {fields : List (String × Option Json)}
    (known : ∀ name ∈ fields.map Prod.fst, name ∈ names)
    (different : (fields.map Prod.fst).Nodup) :
    ofObject? names (.object (written fields)) = some ⟨present fields⟩ := by
  have kept : ∀ entry ∈ present fields, names.contains entry.1 = true := by
    intro entry member
    rw [List.contains_iff_mem]
    exact known _ (mem_names_of_mem_present member)
  have all := List.filter_eq_self.mpr kept
  simp only [ofObject?, named_written, Option.bind_eq_bind, Option.bind_some]
  rw [all]
  simp only [distinct_present different, if_true, Option.pure_def]

/-! ### Reading fields -/

variable {α : Type} {fields : List (String × Option Json)} {name : String}
  {read : Json → Option α}

theorem required_present (different : (fields.map Prod.fst).Nodup) {value : Json} {result : α}
    (listed : (name, some value) ∈ fields) (known : read value = some result) :
    (⟨present fields⟩ : Members).required name read = some result := by
  simp only [required, value?, lookup_present different listed, known, Option.bind_eq_bind,
    Option.bind_some]

theorem optional_present (different : (fields.map Prod.fst).Nodup) {write : α → Json}
    {field : Option α} (listed : (name, field.map write) ∈ fields)
    (known : ∀ content, write content ≠ .null ∧ read (write content) = some content) :
    (⟨present fields⟩ : Members).optional name read = some field := by
  simp only [optional, value?, lookup_present different listed]
  cases field with
  | none => rfl
  | some content =>
      rcases known content with ⟨filled, back⟩
      simp only [Option.map_some, back]

/-- Nothing is found under a name that no field has. -/
theorem required_eq_none {names : List String} {members : Members}
    (found : ofObject? names (.object (written fields)) = some members)
    (absent : name ∉ fields.map Prod.fst) : members.required name read = none := by
  simp only [ofObject?, named_written, Option.bind_eq_bind, Option.bind_some] at found
  split at found
  · cases found
    have missing : ((present fields).filter fun entry => names.contains entry.1).lookup name =
        none := by
      rw [List.lookup_eq_none_iff]
      intro entry member
      exact List.lookup_eq_none_iff.mp (lookup_present_of_not_mem absent) entry
        (List.mem_filter.mp member).1
    simp only [required, value?, missing, Option.bind_eq_bind, Option.bind_none]
  · cases found

end Members

namespace Json

/-! ### Values of fields -/

@[simp]
theorem binary?_ofBinary (bytes : Bytes) : (ofBinary bytes).binary? = some bytes := by
  simp [ofBinary, binary?]

theorem reads_ofString (text : String) : (ofString text).Reads :=
  reads_string (Bytes.ofString text)

theorem reads_ofBinary (bytes : Bytes) : (ofBinary bytes).Reads :=
  reads_string (Base64.encode bytes)

theorem text?_inverts (text : String) :
    ofString text ≠ .null ∧ (ofString text).text? = some text :=
  ⟨Json.noConfusion, text?_ofString text⟩

theorem binary?_inverts (bytes : Bytes) :
    ofBinary bytes ≠ .null ∧ (ofBinary bytes).binary? = some bytes :=
  ⟨Json.noConfusion, binary?_ofBinary bytes⟩

theorem uint64?_inverts (value : UInt64) :
    ofUInt64 value ≠ .null ∧ (ofUInt64 value).uint64? = some value :=
  ⟨Json.noConfusion, uint64?_ofUInt64 value⟩

theorem mapM_map_of_inverts {α β : Type} {write : α → β} {read : β → Option α}
    (inverts : ∀ item, read (write item) = some item) (items : List α) :
    (items.map write).mapM read = some items := by
  induction items with
  | nil => rfl
  | cons item items ih =>
      rw [List.map_cons, List.mapM_cons, inverts, ih]
      rfl

/-- A field that is read back, unless it is left out. -/
def ReadsField (field : String × Option Json) : Prop :=
  ∀ value ∈ field.2, value.Reads

theorem readsField_some {name : String} {value : Json} (reads : value.Reads) :
    ReadsField (name, some value) := by
  intro other same
  cases same
  exact reads

theorem readsField_map {α : Type} {name : String} {write : α → Json} (field : Option α)
    (reads : ∀ content, (write content).Reads) : ReadsField (name, field.map write) := by
  intro value same
  cases field with
  | none => cases same
  | some content =>
      cases same
      exact reads content

theorem readsMembers_written {fields : List (String × Option Json)}
    (parts : ∀ field ∈ fields, ReadsField field) : ReadsMembers (Members.written fields) := by
  intro entry member
  rw [Members.written, List.mem_flatMap] at member
  rcases member with ⟨⟨name, value⟩, listed, member⟩
  cases value with
  | none => cases member
  | some value =>
      cases List.mem_singleton.mp member
      exact ⟨⟨_, rfl⟩, parts _ listed value rfl⟩

end Json

/-- A record is read back from its stored form, if it keeps the rules of its kind. -/
theorem Record.decode_of_reads {α : Type} [Record α] {record : α}
    (valid : Record.validate record = .ok ()) (written : (Record.toJson record).Reads)
    (known : Record.ofJson? (Record.toJson record) = some record) :
    Record.decode (Record.encode record) = .ok record := by
  simp only [decode, encode, Json.ofBytes?_render written, Option.bind_eq_bind,
    Option.bind_some, known, valid]

end Missive
