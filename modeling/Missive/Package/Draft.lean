import Missive.Engines
import Missive.Packed
import Missive.Record.File
import Missive.Record.Key

/-!
# Authoring packages

A draft is everything an author decides: the record of the message, the files, the algorithms
and the identity to sign with. `Draft.build` makes a package of it: first the draft is prepared,
which includes all signatures but the one on the key, and then it is written. The body grows
section by section; every section has key data of its own, drawn in the order of the sections,
and its checksum is taken of the stored bytes.

When signed, the record names the author, and the record, every file and the key carry
signatures in the scheme of the identity.
-/

namespace Missive

/-- A logical file of a draft. -/
structure DraftFile where
  path : String
  record : FileRecord
  content : Bytes
  deriving DecidableEq, Repr

/-- Everything an author decides about a package. -/
structure Draft where
  record : MessageRecord
  files : List DraftFile
  cipher : String
  /-- Without a checksum the sections are stored unchecked. -/
  checksum : Option String
  identity : Option Identity
  /-- The format of the author's key, if it is not the usual one of the scheme. -/
  keyFormat : Option String

/-- An identity with the scheme and the formats that it signs with. -/
structure Signer where
  identity : Identity
  scheme : Scheme
  keyFormat : Format
  signatureFormat : Format

namespace Signer

/-- Refuses a format of another scheme. -/
def checkFormat (family : String) (scheme : Scheme) (format : Format) : Except Error Unit :=
  if format.scheme = scheme.name then .ok ()
  else .error (.invalidRecord (.foreignFormat family format.scheme scheme.name))

/-- Looks up what an identity signs with. -/
def resolve (engines : Engines) (identity : Identity) (keyFormat : Option String) :
    Except Error Signer := do
  let scheme ← engines.schemes.get identity.scheme
  let keyFormat ← engines.keyFormats.get (keyFormat.getD scheme.publicKeyFormat)
  let signatureFormat ← engines.signatureFormats.get scheme.name
  checkFormat engines.keyFormats.family scheme keyFormat
  checkFormat engines.signatureFormats.family scheme signatureFormat
  return ⟨identity, scheme, keyFormat, signatureFormat⟩

/-- The stored form of a signature over some data. -/
def sign (signer : Signer) (data : Bytes) : Except Error Bytes := do
  signer.signatureFormat.encode (← signer.scheme.sign signer.identity.privateKey (.ok data))

/-- The record with the author's key and the format of the signature. -/
def stamp (signer : Signer) (record : MessageRecord) : Except Error MessageRecord := do
  let publicKey ← signer.keyFormat.encode signer.identity.publicKey
  Record.checked <|
    (record.edit (.authorKey signer.keyFormat.name publicKey)).edit
      (.signatureFormat (some signer.signatureFormat.name))

/-- A file with a signature over its content. -/
def signFile (signer : Signer) (file : DraftFile) : Except Error DraftFile := do
  let signature ← signer.sign file.content
  return { file with record := file.record.signed signer.signatureFormat.name signature }

/-- A key with a signature over its stored form. -/
def signKey (signer : Signer) (key : PackageKey) : Except Error PackageKey := do
  return key.signed signer.signatureFormat.name (← signer.sign (Record.encode key))

end Signer

/-- What is stored of a draft in the metadata section, signed or not. -/
structure Signed where
  record : MessageRecord
  /-- The signature over the stored record; empty if there is none. -/
  signature : Bytes
  files : List DraftFile

/-- The blobs of the metadata section: the record, its signature, and the records of the files. -/
def Signed.blobs (signed : Signed) : List Bytes :=
  Record.encode signed.record :: signed.signature ::
    signed.files.map fun file => Record.encode file.record

/-- How sections are written. -/
structure SectionWriter (σ : Type) where
  cipher : Cipher
  checksum : Option Checksum
  generator : Generator σ

namespace SectionWriter

variable {σ : Type}

/--
Appends a section to a body. Its content is given as consecutive parts and encrypted under key
data from the generator. Nothing is recorded about encryption for a section in the clear.
-/
def append (writer : SectionWriter σ) (parts : List Bytes) (body : Bytes) (state : σ) :
    Except Error (Section × Bytes × σ) := do
  let (key, state) := writer.generator.draw writer.cipher.keyLength state
  let observers := writer.checksum.toList.map Checksum.start
  let (transfer, observers) :=
    writer.cipher.encryptStreams key (parts.map ByteStream.ofBytes) observers
  if let some error := transfer.failure then throw error
  let plain := Section.plain (UInt64.ofNat body.length) (UInt64.ofNat transfer.written)
  let encrypted :=
    if writer.cipher = .none then plain else plain.withCipher writer.cipher.name key
  let checked :=
    match writer.checksum, observers with
    | some checksum, observer :: _ => encrypted.withChecksum checksum.name observer.value
    | _, _ => encrypted
  return (checked, body ++ transfer.output, state)

/-- Appends one section for each file. -/
def appendFiles (writer : SectionWriter σ) :
    List DraftFile → Bytes → σ → Except Error (List FileSection × Bytes × σ)
  | [], body, state => .ok ([], body, state)
  | file :: files, body, state => do
    let (content, body, state) ← writer.append [file.content] body state
    let first ← FileSection.make file.path content
    let (rest, body, state) ← writer.appendFiles files body state
    return (first :: rest, body, state)

end SectionWriter

/-- A draft that is ready to be written. -/
structure Prepared where
  cipher : Cipher
  checksum : Option Checksum
  signer : Option Signer
  signed : Signed

/-- Writes the sections, the metadata first, and the key that describes them. -/
def Prepared.write {σ : Type} (prepared : Prepared) (generator : Generator σ) (state : σ) :
    Except Error (Package × σ) := do
  let writer : SectionWriter σ := ⟨prepared.cipher, prepared.checksum, generator⟩
  let blobs := prepared.signed.blobs
  let header := Packed.header (blobs.map List.length)
  let (metadata, body, state) ← writer.append (header :: blobs) [] state
  let (files, body, state) ← writer.appendFiles prepared.signed.files body state
  let key ← PackageKey.make metadata files
  let key ← match prepared.signer with
    | none => pure key
    | some signer => signer.signKey key
  return (⟨prepared.signed.record, body, key⟩, state)

namespace Draft

/-- A draft with the usual algorithms and without files. -/
def start (record : MessageRecord) : Draft :=
  ⟨record, [], Config.default.crypto.cipher, some Config.default.crypto.checksum, none, none⟩

/-- The first rule that a draft breaks: a deletion has no files, and the paths are in order. -/
def validate (draft : Draft) : Except RecordFault Unit := do
  if draft.record.isDelete ∧ draft.files ≠ [] then throw (.deleteWithFiles draft.record.number)
  Path.validateAll (draft.files.map DraftFile.path)

/-- Signs the record and the files, if there is a signer. -/
def sign (draft : Draft) : Option Signer → Except Error Signed
  | none => .ok ⟨draft.record, [], draft.files⟩
  | some signer => do
    let record ← signer.stamp draft.record
    let files ← draft.files.mapM signer.signFile
    let signature ← signer.sign (Record.encode record)
    return ⟨record, signature, files⟩

/-- Everything that is to be stored of a draft, with the engines to store it. -/
def prepare (draft : Draft) (engines : Engines) : Except Error Prepared := do
  draft.validate.mapError Error.invalidRecord
  let cipher ← engines.ciphers.get draft.cipher
  let checksum ← draft.checksum.mapM engines.checksums.get
  let signer ← draft.identity.mapM fun identity =>
    Signer.resolve engines identity draft.keyFormat
  return ⟨cipher, checksum, signer, ← draft.sign signer⟩

/-- Makes a package of a draft, and gives the state of the generator after it. -/
def build {σ : Type} (draft : Draft) (engines : Engines) (generator : Generator σ) (state : σ) :
    Except Error (Package × σ) := do
  (← draft.prepare engines).write generator state

end Draft

end Missive
