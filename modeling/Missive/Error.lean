import Missive.Bytes.Hex
import Missive.Text.Quoted

/-!
# Errors

Everything that can go wrong while packages are written, stored or read is a value of `Error`.
Each kind of error carries its cause as data; the wording is made in one place per kind, and
`Error.message` is the whole text.

An error may have to cross a byte stream, whose reader knows input failures only. `StreamError`
is what such a reader reports: a failure of the input itself, or an `Error` carried through it.
Carrying an error and unwrapping it again gives the same error (`StreamError.toError_ofError`).
-/

namespace Missive

/-- The broad classes of input and output failures. -/
inductive IoKind where
  | notFound
  | unexpectedEnd
  | invalidData
  | other
  deriving DecidableEq, Repr

/-- A failure of the storage or of a stream, with its own description. -/
structure IoFault where
  kind : IoKind
  text : String
  deriving DecidableEq, Repr

namespace IoFault

/-- There is nothing under the name. -/
def missing : IoFault := ⟨.notFound, "No such file or directory (os error 2)"⟩

/-- A directory stands where a file is needed. -/
def isDirectory : IoFault := ⟨.other, "Is a directory (os error 21)"⟩

/-- A file stands where a directory is needed. -/
def notDirectory : IoFault := ⟨.other, "Not a directory (os error 20)"⟩

/-- The name is already taken. -/
def nameTaken : IoFault := ⟨.other, "File exists (os error 17)"⟩

/-- The storage refuses the position or the name. -/
def invalidArgument : IoFault := ⟨.other, "Invalid argument (os error 22)"⟩

/-- The name has more bytes than the storage admits. -/
def nameTooLong : IoFault := ⟨.other, "File name too long (os error 36)"⟩

/-- The name holds a zero byte. -/
def zeroByteInName : IoFault := ⟨.other, "file name contained an unexpected NUL byte"⟩

/-- The content is no UTF-8 text. -/
def notText : IoFault := ⟨.invalidData, "stream did not contain valid UTF-8"⟩

/-- A stream ended before the bytes that had to come. -/
def shortRead : IoFault := ⟨.unexpectedEnd, "failed to fill whole buffer"⟩

/-- There is no package directory under `root`. -/
def noPackageDirectory (root : String) : IoFault :=
  ⟨.notFound, "package directory not found: " ++ root⟩

end IoFault

/-- Malformed binary content: packing, sections and what a body must hold. -/
inductive FormatFault where
  /-- The buffer of `total` bytes has no room for the blob count. -/
  | countMissing (total : Nat)
  | negativeCount (count : Int)
  /-- The buffer has `total` bytes where count and lengths alone take `needed`. -/
  | lengthsMissing (count total needed : Nat)
  | negativeLength (index : Nat) (length : Int)
  | lengthsOverflow (index : Nat)
  | lengthMismatch (declared total : Nat)
  | sectionOutsideBody (offset length : UInt64) (bodyLength : Nat)
  /-- The body ended after `found` of the section's `length` bytes. -/
  | bodyEnded (label : String) (found : Nat) (length : UInt64)
  | noBody (number : UInt64)
  | noKey (number : UInt64)
  /-- A key was offered for a message without a body. -/
  | keyWithoutBody (number : UInt64)
  | recordCount (found expected : Nat)
  /-- The metadata names another message than the one it is stored for. -/
  | misnumbered (named stored : UInt64)
  | described (text : String)
  deriving DecidableEq, Repr

/-- Why a record or an authoring request is refused. -/
inductive RecordFault where
  | keyDataWithoutCipher
  | checksumIncomplete
  | sectionOverflow
  | duplicatePath (path : String)
  | keySignatureIncomplete
  | emptyPostId
  | revisionWithoutPrevious (number : UInt64)
  | previousNotLower (previous number : UInt64)
  | authorKeyIncomplete
  | fileSignatureIncomplete
  | updatedBeforeCreated (updated created : UInt64)
  | subscriberLabel (label : String)
  | subscriberKeyMissing (label : String)
  | emptyPath
  | absolutePath (path : String)
  | invalidPath (path : String)
  | keyLength (cipher : String) (expected found : Nat)
  | deleteWithFiles (number : UInt64)
  /-- A format belongs to `formatScheme`, but the identity signs with `scheme`. -/
  | foreignFormat (family formatScheme scheme : String)
  | keyLabel (label : String)
  | described (text : String)
  deriving DecidableEq, Repr

/-- Why a ciphertext cannot be decrypted. -/
inductive DecryptFault where
  | keyLength (cipher : String) (expected found : Nat)
  | incompleteBlock (trailing : Nat)
  | invalidPadding
  | emptyCiphertext
  | described (text : String)
  deriving DecidableEq, Repr

/-- Why a stored record cannot be decoded. -/
inductive SerializationFault where
  /-- The text is no record of this kind. -/
  | malformed (record : String)
  /-- The text is a record, but one that is refused. -/
  | invalid (record : String) (fault : RecordFault)
  | described (text : String)
  deriving DecidableEq, Repr

/-- Why signing or verifying material cannot be used. -/
inductive SignatureFault where
  | privateKeyLength (found : Nat)
  | publicKeyLength (found : Nat)
  | notOnCurve
  | hexadecimalKey (fault : Hex.Fault)
  | unverifiedKey (number : UInt64)
  | described (text : String)
  deriving DecidableEq, Repr

/-- Why a configuration is refused. -/
inductive ConfigFault where
  | malformed
  | loggingFormat (found : String)
  | zeroPageSize
  | emptyName (field : String)
  | unknownName (field name : String)
  /-- The fault lies in the file at `path`. -/
  | inFile (path : String) (fault : ConfigFault)
  | described (text : String)
  deriving DecidableEq, Repr

/-- Everything that can go wrong. -/
inductive Error where
  | format (fault : FormatFault)
  /-- The requested byte range lies outside what ends at `limit`. -/
  | range (offset length : UInt64) (limit : Nat)
  | decrypt (fault : DecryptFault)
  | pageSize (requested limit : Nat)
  | checksumMismatch (label expected computed : String)
  | serialization (fault : SerializationFault)
  | signature (fault : SignatureFault)
  | unknownAlgorithm (family name : String)
  | duplicateAlgorithm (family name : String)
  | invalidRecord (fault : RecordFault)
  | config (fault : ConfigFault)
  | io (fault : IoFault)
  /-- Any other failure, under the activity in whose course it arose. -/
  | other (activity cause : String)
  deriving DecidableEq, Repr

/-- The wording of a key of the wrong length. -/
def keyLengthText (cipher : String) (expected found : Nat) : String :=
  s!"{cipher} key data must be {expected} bytes, got {found}"

/-- The wording of a format fault. -/
def FormatFault.message : FormatFault → String
  | countMissing total => s!"packed buffer too short for blob count: {total} bytes"
  | negativeCount count => s!"negative blob count: {count}"
  | lengthsMissing count total needed =>
    s!"packed buffer too short for {count} blob lengths: {total} < {needed} bytes"
  | negativeLength index length => s!"negative length for blob {index}: {length}"
  | lengthsOverflow index => s!"blob lengths overflow at blob {index}"
  | lengthMismatch declared total =>
    s!"packed length mismatch: header declares {declared} bytes, buffer has {total}"
  | sectionOutsideBody offset length bodyLength =>
    s!"section [{offset}, +{length}) exceeds body of {bodyLength} bytes"
  | bodyEnded label found length =>
    s!"{label}: body ended after {found} of {length} section bytes"
  | noBody number => s!"message {number} has no stored body"
  | noKey number => s!"no key stored for message {number}"
  | keyWithoutBody number => s!"no body stored for message {number}"
  | recordCount found expected =>
    s!"metadata section holds {found} records, expected {expected}"
  | misnumbered named stored => s!"metadata names message {named}, stored as {stored}"
  | described text => text

/-- The wording of a record fault. -/
def RecordFault.message : RecordFault → String
  | keyDataWithoutCipher => "section carries key data without an encryption algorithm"
  | checksumIncomplete => "section checksum algorithm and checksum must be set together"
  | sectionOverflow => "section end overflows u64"
  | duplicatePath path => s!"duplicate logical file path: {path}"
  | keySignatureIncomplete => "author signature and its format must be set together"
  | emptyPostId => "post_id must not be empty"
  | revisionWithoutPrevious number =>
    s!"message {number} is a revision but has no previous_message_number"
  | previousNotLower previous number =>
    s!"previous_message_number {previous} must be lower than {number}"
  | authorKeyIncomplete => "author public key and its format must be set together"
  | fileSignatureIncomplete => "file signature and its format must be set together"
  | updatedBeforeCreated updated created =>
    s!"updated_at {updated} precedes created_at {created}"
  | subscriberLabel label =>
    "subscriber label must be a non-empty [A-Za-z0-9_-] word: " ++ Text.quoted label
  | subscriberKeyMissing label =>
    s!"subscriber {label}: public key and its format are required"
  | emptyPath => "empty logical file path"
  | absolutePath path => s!"logical file path must be relative: {path}"
  | invalidPath path => s!"invalid logical file path: {path}"
  | keyLength cipher expected found => keyLengthText cipher expected found
  | deleteWithFiles number => s!"delete message {number} must not carry logical files"
  | foreignFormat family formatScheme scheme =>
    s!"{family} is for {formatScheme}, identity signs with {scheme}"
  | keyLabel label => "invalid key label: " ++ Text.quoted label
  | described text => text

/-- The wording of a decryption fault. -/
def DecryptFault.message : DecryptFault → String
  | keyLength cipher expected found => keyLengthText cipher expected found
  | incompleteBlock trailing => s!"incomplete final block ({trailing} trailing bytes)"
  | invalidPadding => "invalid padding"
  | emptyCiphertext => "empty ciphertext"
  | described text => text

/-- The wording of a decoding fault. -/
def SerializationFault.message : SerializationFault → String
  | malformed record => s!"{record} deserialization"
  | invalid record fault => s!"{record} is invalid: invalid record: {fault.message}"
  | described text => text

/-- The wording of a fault in hexadecimal text. -/
def Hex.Fault.message : Hex.Fault → String
  | oddLength => "Odd number of digits"
  | invalidDigit byte position =>
    s!"Invalid character {Text.quotedCharacter (Char.ofNat byte.toNat)} at position {position}"

/-- The wording of a fault in signature material. -/
def SignatureFault.message : SignatureFault → String
  | privateKeyLength found => s!"ed25519 private key must be 32 bytes, got {found}"
  | publicKeyLength found => s!"ed25519 public key must be 32 bytes, got {found}"
  | notOnCurve =>
    "invalid ed25519 public key: signature error: Cannot decompress Edwards point"
  | hexadecimalKey fault => s!"ed25519-hex public key: {fault.message}"
  | unverifiedKey number => s!"author signature on key for message {number} does not verify"
  | described text => text

/-- The wording of a configuration fault. -/
def ConfigFault.message : ConfigFault → String
  | malformed => "TOML parse error"
  | loggingFormat found =>
    "logging.format must be \"json\" or \"text\", got " ++ Text.quoted found
  | zeroPageSize => "content.max_page_size must be > 0"
  | emptyName field => s!"{field} must not be empty"
  | unknownName field name => s!"{field}: unknown algorithm " ++ Text.quoted name
  | inFile path fault => s!"{path}: config error: {fault.message}"
  | described text => text

/-- The text of an error. -/
def Error.message : Error → String
  | format fault => "format error: " ++ fault.message
  | range offset length limit =>
    s!"range error: offset {offset} + length {length} exceeds {limit}"
  | decrypt fault => "decrypt error: " ++ fault.message
  | pageSize requested limit =>
    s!"page size {requested} exceeds content.max_page_size {limit}"
  | checksumMismatch label expected computed =>
    s!"checksum mismatch in {label}: expected {expected}, computed {computed}"
  | serialization fault => "serialization error: " ++ fault.message
  | signature fault => "signature error: " ++ fault.message
  | unknownAlgorithm family name => s!"unknown {family} algorithm: {name}"
  | duplicateAlgorithm family name => s!"duplicate {family} algorithm: {name}"
  | invalidRecord fault => "invalid record: " ++ fault.message
  | config fault => "config error: " ++ fault.message
  | io fault => "I/O error: " ++ fault.text
  | other activity _ => activity

/-- What lies behind an error, where its own text does not say it. -/
def Error.causes : Error → List String
  | other _ cause => [cause]
  | _ => []

/-- What the reader of a stream reports. -/
inductive StreamError where
  /-- The input itself failed. -/
  | input (fault : IoFault)
  /-- Another error met while the stream was read. -/
  | carried (error : Error)
  deriving DecidableEq, Repr

namespace StreamError

/-- The form in which an error crosses a stream. -/
def ofError : Error → StreamError
  | .io fault => .input fault
  | error => .carried error

/-- The error behind what a reader reported. -/
def toError : StreamError → Error
  | .input fault => .io fault
  | .carried error => error

/-- The class of the failure: a carried error makes the data invalid. -/
def kind : StreamError → IoKind
  | .input fault => fault.kind
  | .carried _ => .invalidData

/-- The text of the failure. -/
def message : StreamError → String
  | .input fault => fault.text
  | .carried error => error.message

/-- An error that crosses a stream is the same on the other side. -/
@[simp]
theorem toError_ofError (error : Error) : (ofError error).toError = error := by
  cases error <;> rfl

end StreamError

end Missive
