import Missive.Bytes.Base64
import Missive.Error
import Missive.Json.Members

/-!
# Stored records

A package holds records of a few kinds, each as one JSON text without blanks. `Record.encode`
writes a record and `Record.decode` reads one: a text that is no record of its kind is told apart
from one that is, but breaks a rule of its kind. Byte fields are Base64 texts.
-/

namespace Missive

/-- A kind of record with its written form and its rules. -/
class Record (α : Type) where
  /-- What such a record is called in errors. -/
  kind : String
  toJson : α → Json
  ofJson? : Json → Option α
  /-- The first rule that a record breaks. -/
  validate : α → Except RecordFault Unit

namespace Record

variable {α : Type} [Record α]

/-- The stored form of a record. -/
def encode (record : α) : Bytes :=
  (toJson record).render

/-- The record with the given stored form. -/
def decode (bytes : Bytes) : Except Error α :=
  match Json.ofBytes? bytes >>= ofJson? with
  | none => .error (.serialization (.malformed (kind α)))
  | some record =>
    match validate record with
    | .ok () => .ok record
    | .error fault => .error (.serialization (.invalid (kind α) fault))

/-- A record that keeps the rules of its kind. -/
def checked (record : α) : Except Error α :=
  match validate record with
  | .ok () => .ok record
  | .error fault => .error (.invalidRecord fault)

/-- A decoded record keeps the rules of its kind. -/
theorem validate_of_decode {bytes : Bytes} {record : α} (decoded : decode bytes = .ok record) :
    validate record = .ok () := by
  unfold decode at decoded
  split at decoded
  · simp at decoded
  · split at decoded
    · rename_i valid
      cases decoded
      exact valid
    · simp at decoded

/-- A checked record is unchanged and keeps the rules of its kind. -/
theorem checked_eq_ok_iff {record result : α} :
    checked record = .ok result ↔ result = record ∧ validate record = .ok () := by
  unfold checked
  split
  · rename_i valid
    simp [valid, eq_comm]
  · rename_i fault invalid
    simp [invalid]

end Record

namespace Json

/-- The value of a byte field. -/
def ofBinary (bytes : Bytes) : Json :=
  string (escape (Base64.encode bytes))

/-- A byte field. -/
def binary? : Json → Option Bytes
  | string body => unescape body >>= Base64.decode?
  | _ => none

/-- The value of a 64-bit number. -/
def ofUInt64 (value : UInt64) : Json :=
  ofNat value.toNat

/-- A number of at most 64 bits. -/
def uint64? (json : Json) : Option UInt64 := do
  let value ← json.nat?
  if value < UInt64.size then return UInt64.ofNat value else none

/-- The value of a 32-bit number. -/
def ofUInt32 (value : UInt32) : Json :=
  ofNat value.toNat

/-- A number of at most 32 bits. -/
def uint32? (json : Json) : Option UInt32 := do
  let value ← json.nat?
  if value < UInt32.size then return UInt32.ofNat value else none

@[simp]
theorem uint64?_ofUInt64 (value : UInt64) : (ofUInt64 value).uint64? = some value := by
  simp [uint64?, ofUInt64, value.toNat_lt_size]

@[simp]
theorem uint32?_ofUInt32 (value : UInt32) : (ofUInt32 value).uint32? = some value := by
  simp [uint32?, ofUInt32, value.toNat_lt_size]

end Json

end Missive
