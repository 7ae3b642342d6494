import Missive.Record.Message
import Missive.Record.Path
import Missive.Record.Section

/-!
# Packages and their keys

A package is one authored message: a body of consecutive sections, and the key that describes
and unlocks them. The metadata section comes first, then one section for every logical file.

The key is the index of the sections, with all that is needed to decrypt them. It may carry a
signature of its author, which covers the stored form of the key without the signature
(`PackageKey.unsigned`).
-/

namespace Missive

/-- The section of a logical file. -/
structure FileSection where
  path : String
  content : Section
  deriving DecidableEq, Repr

namespace FileSection

/-- A section for the file with the given path. -/
def make (path : String) (content : Section) : Except Error FileSection :=
  match Path.validate path with
  | .ok () => .ok ⟨path, content⟩
  | .error fault => .error (.invalidRecord fault)

/-- The written form: the path stands beside the members of the section. -/
def toJson (file : FileSection) : Json :=
  .object (Json.member "file_path" (.ofString file.path) ++ file.content.toMembers)

/-- How deep the values of unknown members may be nested. -/
def depthLimit : Nat := 124

/-- A file section, which must be an object and all of which must make sense. -/
def ofJson? : Json → Option FileSection
  | .object entries => do
    if Json.soundMembers depthLimit entries = false then none
    let members ← Members.ofObject? ("file_path" :: Section.memberNames) (.object entries)
    return ⟨← members.required "file_path" Json.text?, ← Section.ofMembers? members⟩
  | _ => none

end FileSection

/-- The index of the sections of a package. -/
structure PackageKey where
  metadata : Section
  files : List FileSection
  signatureFormat : Option String
  signature : Option Bytes
  deriving DecidableEq, Repr

namespace PackageKey

/-- Every section, that of the metadata first. -/
def sections (key : PackageKey) : List Section :=
  key.metadata :: key.files.map FileSection.content

/-- The first rule that a key breaks: of its sections, of its paths, of its signature. -/
def validate (key : PackageKey) : Except RecordFault Unit := do
  key.sections.forM Section.validate
  Path.validateAll (key.files.map FileSection.path)
  if key.signatureFormat.isSome ≠ key.signature.isSome then throw .keySignatureIncomplete

/-- The key with a signature of its author. -/
def signed (format : String) (signature : Bytes) (key : PackageKey) : PackageKey :=
  { key with signatureFormat := some format, signature := some signature }

/-- The key without a signature. -/
def unsigned (key : PackageKey) : PackageKey :=
  { key with signatureFormat := none, signature := none }

/-- The file with the given path and its position among the files. -/
def find? (key : PackageKey) (path : String) : Option (Nat × FileSection) := do
  let index ← key.files.findIdx? fun file => file.path = path
  let file ← key.files[index]?
  return (index, file)

/-- Checks that every section lies inside a body of the given length. -/
def checkWithin (key : PackageKey) (bodyLength : Nat) : Except Error Unit :=
  key.sections.forM fun described => described.checkWithin bodyLength

/-- The names of the members of a key. -/
def memberNames : List String :=
  ["metadata_section", "logical_files", "author_signature_format", "author_signature"]

/-- The written form of a key. -/
def toJson (key : PackageKey) : Json :=
  .object <|
    Json.member "metadata_section" (.object key.metadata.toMembers) ++
    Json.member "logical_files" (.array (key.files.map FileSection.toJson)) ++
    Json.memberOf "author_signature_format" .ofString key.signatureFormat ++
    Json.memberOf "author_signature" .ofBinary key.signature

/-- The key with the given written form. -/
def ofJson? (json : Json) : Option PackageKey := do
  let members ← Members.ofValue? memberNames json
  return {
    metadata := ← members.required "metadata_section" Section.ofJson?
    files := ← (← members.required "logical_files" Json.items?).mapM FileSection.ofJson?
    signatureFormat := ← members.optional "author_signature_format" Json.text?
    signature := ← members.optional "author_signature" Json.binary?
  }

instance : Record PackageKey where
  kind := "fidd key"
  toJson := toJson
  ofJson? := ofJson?
  validate := validate

/-- An unsigned key for the given sections. -/
def make (metadata : Section) (files : List FileSection) : Except Error PackageKey :=
  Record.checked ⟨metadata, files, none, none⟩

end PackageKey

/-- An authored message. -/
structure Package where
  /-- The record as it is stored in the metadata section. -/
  record : MessageRecord
  body : Bytes
  key : PackageKey
  deriving DecidableEq, Repr

/-- The number of the message. -/
def Package.number (package : Package) : UInt64 :=
  package.record.number

end Missive
