import Missive.Engines
import Missive.Record.Message

/-!
# Authorship

The parts of a message may carry signatures of its author, whose key stands in the record of the
message. Checking a part gives a status, not an error: material that cannot be used makes a
signature invalid.
-/

namespace Missive

/-- The outcome of checking one signature. -/
inductive SignatureStatus where
  | valid
  | invalid
  | unsigned
  deriving DecidableEq, Repr

/-- How a status is shown. -/
def SignatureStatus.text : SignatureStatus → String
  | valid => "valid"
  | invalid => "INVALID"
  | unsigned => "unsigned"

/-- A scheme with the decoded material to verify a signature. -/
structure Verifier where
  scheme : Scheme
  publicKey : Bytes
  signature : Bytes

namespace Engines

/--
What is needed to verify a stored signature of the author. There is nothing if one of the
formats is unknown, if they belong to different schemes, or if the stored bytes are no material of
the scheme.
-/
def verifier? (engines : Engines) (author : MessageRecord) (format : String)
    (signature : Bytes) : Except Error (Option Verifier) :=
  match author.authorKeyFormat, author.authorKey with
  | some keyFormat, some key =>
    match engines.signatureFormats.find? format, engines.keyFormats.find? keyFormat with
    | some signatureFormat, some keyFormat =>
      if signatureFormat.scheme ≠ keyFormat.scheme then .ok none
      else
        match engines.schemes.find? signatureFormat.scheme with
        | none => .ok none
        | some scheme =>
          match keyFormat.decode key, signatureFormat.decode signature with
          | .ok key, .ok signature => .ok (some ⟨scheme, key, signature⟩)
          | .error (.signature _), _ | _, .error (.signature _) => .ok none
          | .error error, _ | _, .error error => .error error
    | _, _ => .ok none
  | _, _ => .ok none

/-- Checks a stored signature of the author over some data. -/
def check (engines : Engines) (author : MessageRecord) (format : Option String)
    (signature : Option Bytes) (data : Reading) : Except Error SignatureStatus :=
  match signature.filter fun signature => !signature.isEmpty, format with
  | none, _ => .ok .unsigned
  | some _, none => .ok .invalid
  | some signature, some format => do
    match ← engines.verifier? author format signature with
    | none => return .invalid
    | some verifier =>
      match verifier.scheme.verify verifier.publicKey data verifier.signature with
      | .ok true => return .valid
      | .ok false | .error (.signature _) => return .invalid
      | .error error => throw error

end Engines

/-- What checking all signatures of a message gave. -/
structure VerificationReport where
  number : UInt64
  key : SignatureStatus
  record : SignatureStatus
  files : List (String × SignatureStatus)
  deriving DecidableEq, Repr

namespace VerificationReport

/-- The status of every part. -/
def statuses (report : VerificationReport) : List SignatureStatus :=
  report.key :: report.record :: report.files.map Prod.snd

/-- Whether every part carries a valid signature. -/
def isValid (report : VerificationReport) : Bool :=
  report.statuses.all (· = .valid)

/-- Whether some part carries an invalid signature. -/
def hasInvalid (report : VerificationReport) : Bool :=
  report.statuses.any (· = .invalid)

end VerificationReport

end Missive
