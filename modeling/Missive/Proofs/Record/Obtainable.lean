import Missive.Proofs.Package.Sections
import Missive.Proofs.Record.Key

/-!
# Records that can be obtained

A record comes from an author, who starts and edits it and has it checked, or from a stored form
that was decoded; and keys and file records take signatures at any time. `Obtainable` lists the
ways for each kind of record. None of them leads to a record that breaks a rule of its kind, and
so every record there can be survives its encoding (`Record.survives_encoding`).
-/

namespace Missive

/-! ### Ways to a record -/

/-- The ways to a message record. -/
inductive MessageRecord.Obtainable : MessageRecord → Prop
  | built {number : UInt64} {post : String} {edits : List Edit} {record : MessageRecord}
    (made : Record.checked (edits.foldl edit (start number post)) = .ok record) : Obtainable record
  /-- A record may be edited again and must then be checked again. -/
  | rebuilt {before record : MessageRecord} {edits : List Edit} (obtained : Obtainable before)
    (made : Record.checked (edits.foldl edit before) = .ok record) : Obtainable record
  | decoded {bytes : Bytes} {record : MessageRecord} (read : Record.decode bytes = .ok record) :
    Obtainable record

/-- The ways to a file record. -/
inductive FileRecord.Obtainable : FileRecord → Prop
  | built {update : Update} {edits : List Edit} {record : FileRecord}
    (made : Record.checked (edits.foldl edit (start update)) = .ok record) : Obtainable record
  | signed {record : FileRecord} (obtained : Obtainable record) (format : String)
    (signature : Bytes) : Obtainable (record.signed format signature)
  | decoded {bytes : Bytes} {record : FileRecord} (read : Record.decode bytes = .ok record) :
    Obtainable record

/-- The ways to a key. -/
inductive PackageKey.Obtainable : PackageKey → Prop
  | made {metadata : Section} {files : List FileSection} {key : PackageKey}
    (made : make metadata files = .ok key) : Obtainable key
  | signed {key : PackageKey} (obtained : Obtainable key) (format : String) (signature : Bytes) :
    Obtainable (key.signed format signature)
  | unsigned {key : PackageKey} (obtained : Obtainable key) : Obtainable key.unsigned
  | decoded {bytes : Bytes} {key : PackageKey} (read : Record.decode bytes = .ok key) :
    Obtainable key

/-- The ways to a subscriber. -/
inductive Subscriber.Obtainable : Subscriber → Prop
  | made {label keyFormat : String} {key : Bytes} {subscriber : Subscriber}
    (made : Record.checked ⟨label, keyFormat, key⟩ = .ok subscriber) : Obtainable subscriber
  | decoded {bytes : Bytes} {subscriber : Subscriber}
    (read : Record.decode bytes = .ok subscriber) : Obtainable subscriber

/-! ### Rules that are kept -/

theorem Record.validate_of_checked {α : Type} [Record α] {record result : α}
    (made : checked record = .ok result) : validate result = .ok () := by
  rcases checked_eq_ok_iff.mp made with ⟨rfl, valid⟩
  exact valid

theorem PackageKey.validate_unsigned {key : PackageKey} (valid : key.validate = .ok ()) :
    key.unsigned.validate = .ok () := by
  rw [validate_eq_ok_iff] at valid ⊢
  exact ⟨valid.1, valid.2.1, rfl⟩

theorem MessageRecord.Obtainable.valid {record : MessageRecord} (obtained : record.Obtainable) :
    Record.validate record = .ok () := by
  cases obtained with
  | built made => exact Record.validate_of_checked made
  | rebuilt _ made => exact Record.validate_of_checked made
  | decoded read => exact Record.validate_of_decode read

theorem FileRecord.Obtainable.valid {record : FileRecord} (obtained : record.Obtainable) :
    Record.validate record = .ok () := by
  induction obtained with
  | built made => exact Record.validate_of_checked made
  | signed _ format signature ih => exact validate_signed ih format signature
  | decoded read => exact Record.validate_of_decode read

theorem PackageKey.Obtainable.valid {key : PackageKey} (obtained : key.Obtainable) :
    Record.validate key = .ok () := by
  induction obtained with
  | made made => exact Record.validate_of_checked made
  | signed _ format signature ih => exact validate_signed ih format signature
  | unsigned _ ih => exact validate_unsigned ih
  | decoded read => exact Record.validate_of_decode read

theorem Subscriber.Obtainable.valid {subscriber : Subscriber} (obtained : subscriber.Obtainable) :
    Record.validate subscriber = .ok () := by
  cases obtained with
  | made made => exact Record.validate_of_checked made
  | decoded read => exact Record.validate_of_decode read

/-! ### Encoding and decoding again -/

namespace Record

variable {α : Type} [Record α]

variable (α) in
/-- Decodes a record and encodes it again, as often as asked for. -/
def recode : (rounds : Nat) → Bytes → Except Error Bytes
  | 0, bytes => .ok bytes
  | rounds + 1, bytes => do
    let record : α ← decode bytes
    recode rounds (encode record)

/-- What is promised of the records of one kind, of which `obtainable` are all there can be. -/
structure Survives (obtainable : α → Prop) : Prop where
  valid : ∀ record, obtainable record → validate record = .ok ()
  lossless : ∀ record, obtainable record → decode (encode record) = .ok record
  injective : ∀ first second, obtainable first → obtainable second →
    encode first = encode second → first = second
  /-- From the first decoding on, neither the record nor its bytes change. -/
  settled : ∀ bytes (record : α), decode bytes = .ok record →
    obtainable record ∧ ∀ rounds, recode α (rounds + 1) bytes = .ok (encode record)
  /-- Whatever is no record is a fault of its serialization. -/
  refused : ∀ bytes, (∀ record : α, decode bytes ≠ .ok record) →
    ∃ fault, (decode bytes : Except Error α) = .error (.serialization fault)

theorem recode_encode {record : α} (lossless : decode (encode record) = .ok record)
    (rounds : Nat) : recode α rounds (encode record) = .ok (encode record) := by
  induction rounds with
  | zero => rfl
  | succ rounds ih =>
      rw [recode, lossless]
      exact ih

theorem exists_decode_eq_error {bytes : Bytes}
    (refused : ∀ record : α, decode bytes ≠ .ok record) :
    ∃ fault, (decode bytes : Except Error α) = .error (.serialization fault) := by
  cases outcome : (decode bytes : Except Error α) with
  | ok record => exact absurd outcome (refused record)
  | error error =>
      simp only [decode] at outcome
      split at outcome
      · cases outcome
        exact ⟨_, rfl⟩
      · split at outcome
        · cases outcome
        · cases outcome
          exact ⟨_, rfl⟩

/-- Records that keep the rules of their kind survive, if such records are decoded as encoded. -/
theorem survives_of_valid {obtainable : α → Prop}
    (valid : ∀ record, obtainable record → validate record = .ok ())
    (decoded : ∀ bytes (record : α), decode bytes = .ok record → obtainable record)
    (decode_encode : ∀ record : α, validate record = .ok () →
      decode (encode record) = .ok record) : Survives obtainable := by
  have lossless : ∀ record, obtainable record → decode (encode record) = .ok record := by
    intro record obtained
    exact decode_encode record (valid record obtained)
  refine ⟨valid, lossless, ?_, ?_, fun bytes => exists_decode_eq_error⟩
  · intro first second obtained other same
    have one := lossless first obtained
    rw [same, lossless second other] at one
    exact (Except.ok.inj one).symm
  · intro bytes record read
    refine ⟨decoded bytes record read, ?_⟩
    intro rounds
    rw [recode, read]
    exact recode_encode (lossless record (decoded bytes record read)) rounds

/-- All records there can be keep the rules of their kind and survive their encoding. -/
theorem survives_encoding :
    Survives MessageRecord.Obtainable ∧ Survives FileRecord.Obtainable ∧
      Survives PackageKey.Obtainable ∧ Survives Subscriber.Obtainable := by
  refine ⟨?_, ?_, ?_, ?_⟩
  · apply survives_of_valid
    · exact fun _ obtained => obtained.valid
    · exact fun _ _ read => .decoded read
    · exact fun _ valid => MessageRecord.decode_encode valid
  · apply survives_of_valid
    · exact fun _ obtained => obtained.valid
    · exact fun _ _ read => .decoded read
    · exact fun _ valid => FileRecord.decode_encode valid
  · apply survives_of_valid
    · exact fun _ obtained => obtained.valid
    · exact fun _ _ read => .decoded read
    · exact fun _ valid => PackageKey.decode_encode valid
  · apply survives_of_valid
    · exact fun _ obtained => obtained.valid
    · exact fun _ _ read => .decoded read
    · exact fun _ valid => Subscriber.decode_encode valid

/-- A key whose signature is empty is another record than the key without a signature. -/
theorem survives_encoding_empty_signature :
    let described : Section := (Section.plain 1 18446744073709551614).withCipher "" []
    let key : PackageKey := ⟨described, [⟨"a\\b\n", described⟩], none, none⟩
    (key.signed "" []).Obtainable ∧ key.Obtainable ∧
      decode (encode (key.signed "" [])) = .ok (key.signed "" []) ∧
      encode (key.signed "" []) ≠ encode key := by
  intro described key
  have made : PackageKey.make described [⟨"a\\b\n", described⟩] = .ok key := by
    apply eq_ok_of_toOption
    decide +kernel
  have obtained : key.Obtainable := .made made
  have signed : (key.signed "" []).Obtainable := .signed obtained "" []
  rcases survives_encoding with ⟨_, _, keys, _⟩
  refine ⟨signed, obtained, keys.lossless _ signed, ?_⟩
  intro same
  have formats := congrArg PackageKey.signatureFormat (keys.injective _ _ signed obtained same)
  cases formats

end Record

end Missive
