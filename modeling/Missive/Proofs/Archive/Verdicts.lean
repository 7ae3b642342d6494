import Missive.Proofs.Archive.Consistency

/-!
# Verdicts on signatures

Whatever is stored as a key or a signature of the author, checking it comes to a verdict. That
takes engines which report unusable material as what it is (`Engines.Graceful`), as the standard
ones do. So the signatures on a message can be checked wherever its files can be decrypted, and
each status in the report says exactly what was stored (`Archive.verify_verdicts`).
-/

namespace Missive

/-! ### Engines that come to a verdict -/

/-- A step that succeeds, unless its input is unusable for signatures. -/
inductive Decided {α : Type} : Except Error α → Prop
  | ok (value : α) : Decided (.ok value)
  | unusable (fault : SignatureFault) : Decided (.error (.signature fault))

/-- A part without a signature; also nothing may be stored as one. -/
def Unmarked (signature : Option Bytes) : Prop :=
  signature = none ∨ signature = some []

namespace Engines

/--
Engines that refuse keys and signatures only as unusable, and accept no signature that is stored
as nothing.
-/
structure Graceful (engines : Engines) : Prop where
  keys : ∀ format ∈ engines.keyFormats.engines, ∀ stored, Decided (format.decode stored)
  signatures : ∀ format ∈ engines.signatureFormats.engines, ∀ stored,
    Decided (format.decode stored)
  schemes : ∀ scheme ∈ engines.schemes.engines, ∀ publicKey data signature,
    Decided (scheme.verify publicKey (.ok data) signature)
  empty : ∀ format ∈ engines.signatureFormats.engines, ∀ scheme ∈ engines.schemes.engines,
    ∀ raw publicKey data, format.decode [] = .ok raw →
      scheme.verify publicKey (.ok data) raw ≠ .ok true

theorem decided_hexKey (stored : Bytes) : Decided (Format.hexKey.decode stored) := by
  simp only [Format.hexKey]
  cases Hex.decode stored with
  | ok raw => exact .ok raw
  | error fault => exact .unusable (.hexadecimalKey fault)

theorem decided_decodePublicKey (publicKey : Bytes) :
    Decided (Ed25519.decodePublicKey publicKey) := by
  rw [Ed25519.decodePublicKey]
  split
  · split
    · exact .ok _
    · exact .unusable .notOnCurve
  · exact .unusable (.publicKeyLength publicKey.length)

theorem decided_ed25519ph (publicKey data signature : Bytes) :
    Decided (Scheme.ed25519ph.verify publicKey (.ok data) signature) := by
  have decoded := decided_decodePublicKey publicKey
  simp only [Scheme.ed25519ph]
  generalize Ed25519.decodePublicKey publicKey = point at decoded
  cases decoded with
  | unusable fault => exact .unusable fault
  | ok point =>
      simp only [bind, Except.bind]
      split
      · exact .ok _
      · exact .ok false

theorem graceful_standard : standard.Graceful := by
  have formats : standard.signatureFormats.engines = [.rawSignature] := rfl
  have schemes : standard.schemes.engines = [.ed25519ph] := rfl
  refine ⟨?_, ?_, ?_, ?_⟩
  · intro format member stored
    have kinds : format = .rawKey ∨ format = .hexKey := by simpa [standard] using member
    rcases kinds with rfl | rfl
    · exact .ok stored
    · exact decided_hexKey stored
  · rw [formats, List.forall_mem_singleton]
    exact .ok
  · rw [schemes, List.forall_mem_singleton]
    exact decided_ed25519ph
  · rw [formats, List.forall_mem_singleton, schemes, List.forall_mem_singleton]
    rintro _ publicKey data ⟨⟩ accepted
    rcases bind_eq_ok_iff.mp accepted with ⟨point, _, accepted⟩
    cases accepted

/-! ### Checking one signature -/

variable {engines : Engines} {author : MessageRecord} {format : Option String}
  {signature : Option Bytes} {data : Bytes} {status : SignatureStatus}

/-- Some data with a signature that the scheme of both formats accepts. -/
inductive Endorses (engines : Engines) (author : MessageRecord) :
    (format : Option String) → (signature : Option Bytes) → (data : Bytes) → Prop
  | intro {format : String} {signature data : Bytes} {verifier : Verifier}
    (yields : engines.Yields author format signature verifier)
    (accepted : verifier.scheme.verify verifier.publicKey (.ok data) verifier.signature =
      .ok true) :
    Endorses engines author (some format) (some signature) data

/-- A status that says what is stored as the signature of some data. -/
structure Judges (engines : Engines) (author : MessageRecord) (format : Option String)
    (signature : Option Bytes) (data : Bytes) (status : SignatureStatus) : Prop where
  unsigned : status = .unsigned ↔ Unmarked signature
  valid : status = .valid ↔ engines.Endorses author format signature data
  invalid : status = .invalid ↔
    ¬Unmarked signature ∧ ¬engines.Endorses author format signature data

theorem Graceful.not_endorses (graceful : engines.Graceful) (unmarked : Unmarked signature) :
    ¬engines.Endorses author format signature data := by
  rintro ⟨yields, accepted⟩
  rcases unmarked with missing | nothing
  · cases missing
  · cases nothing
    rcases yields with ⟨_, _, registered, _, _, schemeRegistered, _, decoded⟩
    exact graceful.empty _ (List.mem_of_find?_eq_some registered) _
      (List.mem_of_find?_eq_some schemeRegistered) _ _ _ decoded accepted

theorem Graceful.judges_unsigned (graceful : engines.Graceful) (unmarked : Unmarked signature) :
    engines.Judges author format signature data .unsigned := by
  refine ⟨iff_of_true rfl unmarked, iff_of_false nofun (graceful.not_endorses unmarked), ?_⟩
  exact iff_of_false nofun fun refused => refused.1 unmarked

theorem Graceful.judges_valid (graceful : engines.Graceful)
    (endorses : engines.Endorses author format signature data) :
    engines.Judges author format signature data .valid := by
  refine ⟨iff_of_false nofun fun unmarked => graceful.not_endorses unmarked endorses,
    iff_of_true rfl endorses, ?_⟩
  exact iff_of_false nofun fun refused => refused.2 endorses

theorem judges_invalid (marked : ¬Unmarked signature)
    (refused : ¬engines.Endorses author format signature data) :
    engines.Judges author format signature data .invalid :=
  ⟨iff_of_false nofun marked, iff_of_false nofun refused, iff_of_true rfl ⟨marked, refused⟩⟩

theorem Graceful.exists_verifier? (graceful : engines.Graceful) (author : MessageRecord)
    (name : String) (stored : Bytes) :
    ∃ verifier?, engines.verifier? author name stored = .ok verifier? := by
  unfold verifier?
  split
  · rename_i keyName key _ _
    split
    · rename_i signatureFormat keyFormat registered keyRegistered
      split
      · exact ⟨none, rfl⟩
      · split
        · exact ⟨none, rfl⟩
        · -- Whichever of the decoders refuses, there is no verifier, and no error is left over.
          have keyDecided := graceful.keys _ (List.mem_of_find?_eq_some keyRegistered) key
          have decided := graceful.signatures _ (List.mem_of_find?_eq_some registered) stored
          generalize keyFormat.decode key = keyOutcome at keyDecided
          generalize signatureFormat.decode stored = outcome at decided
          cases keyDecided with
          | ok publicKey => cases decided <;> exact ⟨_, rfl⟩
          | unusable fault => cases decided <;> exact ⟨_, rfl⟩
    · exact ⟨none, rfl⟩
  · exact ⟨none, rfl⟩

theorem endorses_iff_of_verifier? {name : String} {stored : Bytes} {verifier : Verifier}
    (found : engines.verifier? author name stored = .ok (some verifier)) (data : Bytes) :
    engines.Endorses author (some name) (some stored) data ↔
      verifier.scheme.verify verifier.publicKey (.ok data) verifier.signature = .ok true := by
  constructor
  · rintro ⟨yields, accepted⟩
    rw [verifier?_eq_some_iff.mpr yields] at found
    cases found
    exact accepted
  · exact .intro (verifier?_eq_some_iff.mp found)

/-- A signature that is found can be judged, whatever material it is. -/
theorem Graceful.exists_judges_of_present (graceful : engines.Graceful) (author : MessageRecord)
    (name : String) {stored : Bytes} (present : stored ≠ []) (data : Bytes) :
    ∃ status, engines.check author (some name) (some stored) (.ok data) = .ok status ∧
      engines.Judges author (some name) (some stored) data status := by
  have marked : ¬Unmarked (some stored) := by simpa [Unmarked] using present
  rcases graceful.exists_verifier? author name stored with ⟨verifier?, found⟩
  cases verifier? with
  | none =>
      refine ⟨.invalid, ?_, judges_invalid marked ?_⟩
      · simp only [check, filter_of_present present, found, bind, Except.bind, pure, Except.pure]
      · rintro ⟨yields, _⟩
        rw [verifier?_eq_some_iff.mpr yields] at found
        cases found
  | some verifier =>
      have endorses := endorses_iff_of_verifier? found data
      have registered := (verifier?_eq_some_iff.mp found).scheme_mem
      have decided :=
        graceful.schemes _ registered verifier.publicKey data verifier.signature
      rw [check_of_verifier? present found]
      generalize verifier.scheme.verify verifier.publicKey (.ok data) verifier.signature =
        answer at decided endorses
      cases decided with
      | unusable fault => exact ⟨.invalid, rfl, judges_invalid marked (by simp [endorses])⟩
      | ok answer =>
          cases answer with
          | true => exact ⟨.valid, rfl, graceful.judges_valid (endorses.mpr rfl)⟩
          | false => exact ⟨.invalid, rfl, judges_invalid marked (by simp [endorses])⟩

/-- Checking a signature over data that can be read gives the status that it deserves. -/
theorem Graceful.exists_judges (graceful : engines.Graceful) (author : MessageRecord)
    (format : Option String) (signature : Option Bytes) (data : Bytes) :
    ∃ status, engines.check author format signature (.ok data) = .ok status ∧
      engines.Judges author format signature data status := by
  by_cases unmarked : Unmarked signature
  · refine ⟨.unsigned, ?_, graceful.judges_unsigned unmarked⟩
    rcases unmarked with rfl | rfl <;> rfl
  · cases signature with
    | none => exact absurd (.inl rfl) unmarked
    | some stored =>
        have present : stored ≠ [] := by
          rintro rfl
          exact unmarked (.inr rfl)
        cases format with
        | some name => exact graceful.exists_judges_of_present author name present data
        | none =>
            refine ⟨.invalid, ?_, judges_invalid unmarked nofun⟩
            simp only [check, filter_of_present present]

end Engines

/-! ### Checking a whole message -/

theorem exists_mapM {ε α β : Type} {step : α → Except ε β} {related : α → β → Prop}
    {items : List α} (known : ∀ item ∈ items, ∃ result, step item = .ok result ∧
      related item result) :
    ∃ results, items.mapM step = .ok results ∧ List.Forall₂ related items results := by
  induction items with
  | nil => exact ⟨[], rfl, .nil⟩
  | cons item items ih =>
      rw [List.forall_mem_cons] at known
      rcases known.1 with ⟨result, done, first⟩
      rcases ih known.2 with ⟨results, others, rest⟩
      refine ⟨result :: results, ?_, .cons first rest⟩
      rw [List.mapM_cons, done, others]
      rfl

namespace Archive

variable {archive : Archive} {number : UInt64} {resolved : Resolved}

/-- A file whose section is decrypted to a text. -/
def Decrypts (archive : Archive) (number : UInt64) (file : FileSection) (text : Bytes) : Prop :=
  ∃ plaintext, (archive.reader number).openSection file.content = .ok plaintext ∧
    plaintext.reading = .ok text

/-- An entry of a report that says what is stored as the signature of a file. -/
def JudgesFile (archive : Archive) (number : UInt64) (resolved : Resolved) (file : FileSection)
    (record : FileRecord) (entry : String × SignatureStatus) : Prop :=
  entry.1 = file.path ∧ ∃ text, archive.Decrypts number file text ∧
    archive.engines.Judges resolved.record record.signatureFormat record.signature text entry.2

theorem exists_fileStatus (graceful : archive.engines.Graceful) (resolved : Resolved)
    {file : FileSection} {text : Bytes} (decrypts : archive.Decrypts number file text)
    (record : FileRecord) :
    ∃ entry, archive.fileStatus resolved number file record = .ok entry ∧
      archive.JudgesFile number resolved file record entry := by
  rcases decrypts with ⟨plaintext, opened, reading⟩
  rcases graceful.exists_judges resolved.record record.signatureFormat record.signature text
      with ⟨status, checked, judges⟩
  refine ⟨(file.path, status), ?_, rfl, text, ⟨plaintext, opened, reading⟩, judges⟩
  simp only [fileStatus, opened, reading, checked, bind, Except.bind, pure, Except.pure]

theorem exists_report (graceful : archive.engines.Graceful)
    (decrypts : ∀ file ∈ resolved.key.files, ∃ text, archive.Decrypts number file text) :
    ∃ report, archive.report number resolved = .ok report ∧ report.number = number ∧
      archive.engines.Judges resolved.record resolved.key.signatureFormat resolved.key.signature
        (Record.encode resolved.key.unsigned) report.key ∧
      archive.engines.Judges resolved.record resolved.record.signatureFormat
        (some resolved.signature) resolved.recordBytes report.record ∧
      List.Forall₂ (fun pair entry => archive.JudgesFile number resolved pair.1 pair.2 entry)
        (resolved.key.files.zip resolved.files) report.files := by
  rcases graceful.exists_judges resolved.record resolved.key.signatureFormat
    resolved.key.signature (Record.encode resolved.key.unsigned) with ⟨key, keyChecked, keyJudged⟩
  rcases graceful.exists_judges resolved.record resolved.record.signatureFormat
    (some resolved.signature) resolved.recordBytes with ⟨record, recordChecked, recordJudged⟩
  have each : ∀ pair ∈ resolved.key.files.zip resolved.files, ∃ entry,
      archive.fileStatus resolved number pair.1 pair.2 = .ok entry ∧
        archive.JudgesFile number resolved pair.1 pair.2 entry := by
    intro pair member
    rcases decrypts pair.1 (List.of_mem_zip member).1 with ⟨text, decrypted⟩
    exact exists_fileStatus graceful resolved decrypted pair.2
  rcases exists_mapM each with ⟨files, filesChecked, filesJudged⟩
  refine ⟨⟨number, key, record, files⟩, ?_, rfl, keyJudged, recordJudged, filesJudged⟩
  simp only [report, keyStatus, keyChecked, recordChecked, filesChecked, bind, Except.bind, pure,
    Except.pure]

/--
A message that is resolved, and whose files can be decrypted, is verified by the standard engines,
whatever is stored as the key and the signatures of its author. The report has one status for each
file, in the order of the key. A part is unsigned if nothing is stored as its signature; it is valid
if the formats of the signature and of the author's key are registered, belong to one registered
scheme and decode what is stored, and if the scheme accepts it for what is signed; and else invalid.
-/
theorem verify_verdicts (standard : archive.engines = .standard)
    (found : archive.resolve number = .ok (some resolved))
    (decrypts : ∀ file ∈ resolved.key.files, ∃ text, archive.Decrypts number file text) :
    ∃ report, archive.verify number = .ok (some report) ∧ report.number = number ∧
      report.files.map Prod.fst = resolved.key.files.map FileSection.path ∧
      archive.engines.Judges resolved.record resolved.key.signatureFormat resolved.key.signature
        (Record.encode resolved.key.unsigned) report.key ∧
      archive.engines.Judges resolved.record resolved.record.signatureFormat
        (some resolved.signature) resolved.recordBytes report.record ∧
      List.Forall₂ (fun pair entry => archive.JudgesFile number resolved pair.1 pair.2 entry)
        (resolved.key.files.zip resolved.files) report.files := by
  have graceful : archive.engines.Graceful := standard ▸ Engines.graceful_standard
  rcases exists_report graceful decrypts
      with ⟨report, reported, numbered, keyJudged, recordJudged, filesJudged⟩
  rcases exists_accepts_of_resolve found with ⟨_, _, accepts⟩
  refine ⟨report, ?_, numbered, paths_of_report accepts.length_files reported, keyJudged,
    recordJudged, filesJudged⟩
  rw [verify_of_resolve found, reported]
  rfl

end Archive

/-- The record of a message whose author has a key that is no hexadecimal text. -/
def Smudged.record : MessageRecord :=
  (MessageRecord.start 7 "p").edit (.authorKey "ed25519-hex" [122])

/-- A file with a signature, and one without. -/
def Smudged.files : List FileRecord :=
  [(FileRecord.start .createOrOverride).signed "ED25519PH" [1], .start .createOrOverride]

/-- The records, with a signature in no format, and the contents of both files. -/
def Smudged.body : Bytes :=
  [10, 20, 30] ++ Packed.pack ([Record.encode record, [1]] ++ files.map Record.encode)

def Smudged.key : PackageKey :=
  ⟨.plain 3 (UInt64.ofNat (body.length - 3)), [⟨"a", .plain 0 1⟩, ⟨"b", .plain 1 2⟩], none, none⟩

/-- An archive of this message alone. -/
def Smudged.archive : Archive :=
  ⟨(MemoryStore.empty.insert 7 Smudged.body [Record.encode Smudged.key]).source,
    .ofNumbers [7], .standard, {}⟩

/-- The message, as it is resolved. -/
def Smudged.resolved : Resolved :=
  ⟨Smudged.key, Smudged.record, Record.encode Smudged.record, [1], Smudged.files⟩

/-- A key and a file without signatures; a record and a file with signatures of no use. -/
theorem Archive.verify_verdicts_smudged :
    Smudged.archive.verify 7 =
      .ok (some ⟨7, .unsigned, .invalid, [("a", .invalid), ("b", .unsigned)]⟩) := by
  have found : Smudged.archive.resolve 7 = .ok (some Smudged.resolved) := by
    apply eq_ok_of_toOption
    decide +kernel
  have decrypts : ∀ file ∈ Smudged.key.files, ∃ text, Smudged.archive.Decrypts 7 file text := by
    intro file member
    have contents : file = ⟨"a", .plain 0 1⟩ ∨ file = ⟨"b", .plain 1 2⟩ := by
      simpa [Smudged.key] using member
    rcases contents with rfl | rfl
    · exact ⟨[10], bind_eq_ok_iff.mp (eq_ok_of_toOption (by decide +kernel))⟩
    · exact ⟨[20, 30], bind_eq_ok_iff.mp (eq_ok_of_toOption (by decide +kernel))⟩
  have useless (stored data : Bytes) : ¬Engines.standard.Endorses Smudged.record
      (some "ED25519PH") (some stored) data := by
    rintro ⟨yields, _⟩
    have missing : Engines.standard.verifier? Smudged.record "ED25519PH" stored = .ok none := rfl
    rw [Engines.verifier?_eq_some_iff.mpr yields] at missing
    cases missing
  rcases verify_verdicts rfl found decrypts
      with ⟨⟨number, key, record, files⟩, verified, rfl, _, keyJudged, recordJudged, filesJudged⟩
  have keyStatus : key = .unsigned := keyJudged.unsigned.mpr (.inl rfl)
  have recordStatus : record = .invalid :=
    recordJudged.invalid.mpr ⟨by simp [Unmarked, Smudged.resolved], nofun⟩
  rcases filesJudged with _ | @⟨_, ⟨_, marked⟩, _, _, ⟨rfl, _, _, first⟩, rest⟩
  rcases rest with _ | @⟨_, ⟨_, unmarked⟩, _, _, ⟨rfl, _, _, second⟩, rest⟩
  rcases rest with _ | _
  have markedStatus : marked = .invalid :=
    first.invalid.mpr ⟨by simp [Unmarked, FileRecord.signed], useless _ _⟩
  have unmarkedStatus : unmarked = .unsigned := second.unsigned.mpr (.inl rfl)
  rw [verified, keyStatus, recordStatus, markedStatus, unmarkedStatus]

end Missive
