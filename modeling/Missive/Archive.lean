import Missive.Archive.Authorship
import Missive.Archive.BodyReader
import Missive.Archive.History
import Missive.Packed
import Missive.Record.File
import Missive.Record.Key

/-!
# Archives

An archive answers questions about the messages in a source. The list of messages is taken when
the archive is opened; keys are resolved anew for every question. A message may have several
candidate keys, and the first one counts that decodes, fits the body, opens the metadata section
and finds there the records that it indexes (`Archive.resolve`). Messages and files that do not
exist are no errors.
-/

namespace Missive

/-- A source, opened for reading. -/
structure Archive where
  source : Source
  history : History
  engines : Engines
  settings : ContentSettings

/-- A message under an accepted key. -/
structure Resolved where
  key : PackageKey
  record : MessageRecord
  /-- The stored form of the record. -/
  recordBytes : Bytes
  /-- The signature over the stored form; empty if there is none. -/
  signature : Bytes
  files : List FileRecord
  deriving DecidableEq, Repr

/-- A logical file, as it is listed. -/
structure FileInfo where
  path : String
  record : FileRecord
  /-- The stored size of the file's section. -/
  size : UInt64
  deriving DecidableEq, Repr

/-- The logical files of the message, in the order of its key. -/
def Resolved.listing (resolved : Resolved) : List FileInfo :=
  List.zipWith (fun file record => ⟨file.path, record, file.content.length⟩)
    resolved.key.files resolved.files

namespace Archive

/-- How the metadata section is called in errors. -/
def metadataLabel : String := "<metadata>"

/-- Opens a source. -/
def ofSource (source : Source) (engines : Engines) (settings : ContentSettings) :
    Except Error Archive := do
  if settings.maxPageSize = some 0 then throw (.config .zeroPageSize)
  return ⟨source, .ofNumbers (← source.numbers), engines, settings⟩

/-- A reader for the sections of a message. -/
def reader (archive : Archive) (number : UInt64) : BodyReader :=
  ⟨archive.source, archive.engines, number⟩

/-- The records in an unpacked metadata section, for a key with the given number of files. -/
def recordsOf (number : UInt64) (fileCount : Nat) (blobs : List Bytes) :
    Except Error (MessageRecord × Bytes × Bytes × List FileRecord) :=
  match blobs with
  | recordBytes :: signature :: fileBytes => do
    if fileBytes.length ≠ fileCount then
      throw (.format (.recordCount blobs.length (2 + fileCount)))
    let record : MessageRecord ← Record.decode recordBytes
    if record.number ≠ number then throw (.format (.misnumbered record.number number))
    let files ← fileBytes.mapM Record.decode
    return (record, recordBytes, signature, files)
  | _ => .error (.format (.recordCount blobs.length (2 + fileCount)))

/-- The status of the signature on a key. -/
def keyStatus (archive : Archive) (resolved : Resolved) : Except Error SignatureStatus :=
  archive.engines.check resolved.record resolved.key.signatureFormat resolved.key.signature
    (.ok (Record.encode resolved.key.unsigned))

/-- Tries a candidate key for a message with a body of the given length. -/
def tryKey (archive : Archive) (number : UInt64) (bodyLength : Nat) (candidate : Bytes) :
    Except Error Resolved := do
  let key : PackageKey ← Record.decode candidate
  key.checkWithin bodyLength
  let packed ← (archive.reader number).readAll true metadataLabel key.metadata
  let blobs ← Packed.unpack packed
  let (record, recordBytes, signature, files) ← recordsOf number key.files.length blobs
  let resolved : Resolved := ⟨key, record, recordBytes, signature, files⟩
  if archive.settings.verifyKeySignature then
    if (← archive.keyStatus resolved) ≠ .valid then
      throw (.signature (.unverifiedKey number))
  return resolved

/-- The first candidate that is accepted, or the last error. -/
def firstAccepted (archive : Archive) (number : UInt64) (bodyLength : Nat) :
    (lastError : Error) → List Bytes → Except Error Resolved
  | lastError, [] => .error lastError
  | _, candidate :: candidates =>
    match archive.tryKey number bodyLength candidate with
    | .ok resolved => .ok resolved
    | .error error => archive.firstAccepted number bodyLength error candidates

/-- A message under the first candidate key that is accepted, if the message exists. -/
def resolve (archive : Archive) (number : UInt64) : Except Error (Option Resolved) := do
  if archive.history.contains number = false then return none
  match ← archive.source.bodyLength number with
  | none => throw (.format (.noBody number))
  | some bodyLength =>
    let candidates ← archive.source.candidates number
    return some (← archive.firstAccepted number bodyLength (.format (.noKey number)) candidates)

/-- The highest message numbers. -/
def tail (archive : Archive) (count : Nat) : Except Error (List UInt64) := do
  History.checkPage archive.settings.maxPageSize count
  return archive.history.tail count

/-- The highest message numbers below a bound. -/
def before (archive : Archive) (bound : UInt64) (count : Nat) (inclusive : Bool) :
    Except Error (List UInt64) := do
  History.checkPage archive.settings.maxPageSize count
  return archive.history.before bound count inclusive

/-- Message numbers within bounds. -/
def between (archive : Archive) (span : History.Span) (count : Nat) :
    Except Error (List UInt64) := do
  History.checkPage archive.settings.maxPageSize count
  return archive.history.between span count

/-- The key that is accepted for a message. -/
def key (archive : Archive) (number : UInt64) : Except Error (Option PackageKey) := do
  return (← archive.resolve number).map Resolved.key

/-- The record of a message. -/
def record (archive : Archive) (number : UInt64) : Except Error (Option MessageRecord) := do
  return (← archive.resolve number).map Resolved.record

/-- The logical files of a message. -/
def files (archive : Archive) (number : UInt64) : Except Error (Option (List FileInfo)) := do
  return (← archive.resolve number).map Resolved.listing

/-- The logical file of a message with the given path. -/
def file (archive : Archive) (number : UInt64) (path : String) :
    Except Error (Option FileInfo) := do
  return (← archive.resolve number).bind fun resolved =>
    resolved.listing.find? fun file => file.path = path

/-- Applies a reading of a section to the file with the given path. -/
def withFile {α : Type} (archive : Archive) (number : UInt64) (path : String)
    (read : FileSection → Except Error α) : Except Error (Option α) := do
  match (← archive.resolve number).bind fun resolved => resolved.key.find? path with
  | none => return none
  | some (_, file) => return some (← read file)

/-- The content of a logical file; its checksum is verified if the settings say so. -/
def content (archive : Archive) (number : UInt64) (path : String) :
    Except Error (Option Bytes) :=
  archive.withFile number path fun file =>
    (archive.reader number).readAll archive.settings.verifyChecksums file.path file.content

/-- A part of the content of a logical file. -/
def chunk (archive : Archive) (number : UInt64) (path : String) (offset length : UInt64) :
    Except Error (Option Bytes) :=
  archive.withFile number path fun file =>
    (archive.reader number).readRange file.content offset length

/-- The status of the signature on one file. -/
def fileStatus (archive : Archive) (resolved : Resolved) (number : UInt64) (file : FileSection)
    (record : FileRecord) : Except Error (String × SignatureStatus) := do
  let plaintext ← (archive.reader number).openSection file.content
  let status ← archive.engines.check resolved.record record.signatureFormat record.signature
    plaintext.reading
  return (file.path, status)

/-- The report on the signatures of a message: on the key, the record and every file. -/
def report (archive : Archive) (number : UInt64) (resolved : Resolved) :
    Except Error VerificationReport := do
  let key ← archive.keyStatus resolved
  let record ← archive.engines.check resolved.record resolved.record.signatureFormat
    (some resolved.signature) (.ok resolved.recordBytes)
  let files ← (resolved.key.files.zip resolved.files).mapM fun (file, record) =>
    archive.fileStatus resolved number file record
  return ⟨number, key, record, files⟩

/-- Checks all signatures of a message. -/
def verify (archive : Archive) (number : UInt64) : Except Error (Option VerificationReport) := do
  match ← archive.resolve number with
  | none => return none
  | some resolved => return some (← archive.report number resolved)

end Archive

end Missive
