import Missive.Record.Codec

/-!
# Sections

A section is a described byte range inside the body of a package. Where no algorithm is named it
is stored in the clear, or without a checksum. Key data is opaque here; its layout belongs to the
named cipher.
-/

namespace Missive

/-- A described byte range inside a body. -/
structure Section where
  offset : UInt64
  length : UInt64
  cipher : Option String
  keyData : Option Bytes
  checksum : Option String
  checksumValue : Option Bytes
  deriving DecidableEq, Repr

namespace Section

/-- A section in the clear and without a checksum. -/
def plain (offset length : UInt64) : Section :=
  ⟨offset, length, none, none, none, none⟩

/-- The section, encrypted by the named cipher. -/
def withCipher (name : String) (keyData : Bytes) (described : Section) : Section :=
  { described with cipher := some name, keyData := some keyData }

/-- The section with the value of the named checksum. -/
def withChecksum (name : String) (value : Bytes) (described : Section) : Section :=
  { described with checksum := some name, checksumValue := some value }

/-- The key data of the section; there is none for a section in the clear. -/
def key (described : Section) : Bytes :=
  described.keyData.getD []

/-- The first position after the section. -/
def stop (described : Section) : Nat :=
  described.offset.toNat + described.length.toNat

theorem offset_le_stop (described : Section) : described.offset.toNat ≤ described.stop :=
  Nat.le_add_right _ _

/-- Checks that a range, relative to the section, lies inside it. -/
def checkRange (described : Section) (offset length : UInt64) : Except Error Unit :=
  if offset.toNat + length.toNat ≤ described.length.toNat then .ok ()
  else .error (.range offset length described.length.toNat)

/-- Checks that the section lies inside a body of the given length. -/
def checkWithin (described : Section) (bodyLength : Nat) : Except Error Unit :=
  if described.stop < UInt64.size ∧ described.stop ≤ bodyLength then .ok ()
  else .error (.format (.sectionOutsideBody described.offset described.length bodyLength))

theorem checkWithin_eq_ok_iff {described : Section} {bodyLength : Nat} :
    described.checkWithin bodyLength = .ok () ↔
      described.stop < UInt64.size ∧ described.stop ≤ bodyLength := by
  rw [checkWithin]
  split <;> simp [*]

/-- The first rule that a section breaks. -/
def validate (described : Section) : Except RecordFault Unit := do
  if described.cipher.isNone ∧ described.keyData.isSome then throw .keyDataWithoutCipher
  if described.checksum.isSome ≠ described.checksumValue.isSome then throw .checksumIncomplete
  if UInt64.size ≤ described.stop then throw .sectionOverflow

/-- The names of the members of a section. -/
def memberNames : List String :=
  ["offset", "length", "encryption_algorithm", "encryption_key_data", "checksum_algorithm",
    "checksum"]

/-- The members of a section in writing. -/
def toMembers (described : Section) : List (Bytes × Json) :=
  Json.member "offset" (.ofUInt64 described.offset) ++
  Json.member "length" (.ofUInt64 described.length) ++
  Json.memberOf "encryption_algorithm" .ofString described.cipher ++
  Json.memberOf "encryption_key_data" .ofBinary described.keyData ++
  Json.memberOf "checksum_algorithm" .ofString described.checksum ++
  Json.memberOf "checksum" .ofBinary described.checksumValue

/-- The section with the given members. -/
def ofMembers? (members : Members) : Option Section := do
  return {
    offset := ← members.required "offset" Json.uint64?
    length := ← members.required "length" Json.uint64?
    cipher := ← members.optional "encryption_algorithm" Json.text?
    keyData := ← members.optional "encryption_key_data" Json.binary?
    checksum := ← members.optional "checksum_algorithm" Json.text?
    checksumValue := ← members.optional "checksum" Json.binary?
  }

/-- A section on its own. -/
def ofJson? (json : Json) : Option Section := do
  ofMembers? (← Members.ofValue? memberNames json)

end Section

end Missive
