import Missive.Proofs.Archive.Tampering

/-!
# What valid signatures tell about a message

A key is signed, and so are the record and the content of every file, each on its own. So whoever
replaces the body of a package, and keeps every signature valid, can only show texts that its author
has signed for this package, but may show them in other places: the content of one file in place
of another, or as the record. The other fields of the file records are not signed at all.

The checksums in the key leave less room. Where they tell the sections from what replaces them, a
message is served as it was, or not at all (`Draft.build_authenticates`).
-/

namespace Missive

/-! ### Signatures that are valid -/

namespace Engines

variable {engines : Engines} {author : MessageRecord} {format : Option String}
  {signature : Option Bytes} {data : Bytes}

/-- Some data with a signature that is valid under a key of the author. -/
inductive Confirms (engines : Engines) (author : MessageRecord) :
    (format : Option String) → (signature : Option Bytes) → (publicKey data : Bytes) → Prop
  | intro {format : String} {signature publicKey data raw : Bytes} {scheme : Scheme}
    (found : engines.verifier? author format signature = .ok (some ⟨scheme, publicKey, raw⟩))
    (verified : scheme.verify publicKey (.ok data) raw = .ok true) :
    Confirms engines author (some format) (some signature) publicKey data

theorem exists_confirms_of_check
    (checked : engines.check author format signature (.ok data) = .ok .valid) :
    ∃ publicKey, engines.Confirms author format signature publicKey data := by
  unfold check at checked
  split at checked
  · cases checked
  · cases checked
  · rename_i stored name filled
    rcases bind_eq_ok_iff.mp checked with ⟨verifier?, found, checked⟩
    cases verifier? with
    | none => cases checked
    | some verifier =>
        have given := (Option.filter_eq_some_iff.mp filled).1
        subst given
        dsimp only at checked
        split at checked
        · rename_i verified
          exact ⟨_, .intro found verified⟩
        · cases checked
        · cases checked
        · cases checked

theorem exists_decode_of_verifier? {name : String} {stored : Bytes} {verifier : Verifier}
    (found : engines.verifier? author name stored = .ok (some verifier)) :
    verifier.scheme ∈ engines.schemes.engines ∧ ∃ keyName key keyFormat,
      author.authorKeyFormat = some keyName ∧ author.authorKey = some key ∧
      engines.keyFormats.find? keyName = some keyFormat ∧
      keyFormat.decode key = .ok verifier.publicKey := by
  rcases verifier?_eq_some_iff.mp found
      with ⟨keyNamed, keyStored, _, keyRegistered, _, schemeRegistered, keyDecoded, _⟩
  exact ⟨List.mem_of_find?_eq_some schemeRegistered, _, _, _, keyNamed, keyStored, keyRegistered,
    keyDecoded⟩

/-- All signatures of one author are checked under one key. -/
theorem Confirms.publicKey_eq {other : Option String} {mark : Option Bytes}
    {publicKey otherKey text : Bytes}
    (confirms : engines.Confirms author format signature publicKey data)
    (confirmsToo : engines.Confirms author other mark otherKey text) : publicKey = otherKey := by
  rcases confirms with ⟨found, _⟩
  rcases confirmsToo with ⟨foundToo, _⟩
  rcases exists_decode_of_verifier? found with ⟨_, _, _, _, named, given, registered, decoded⟩
  rcases exists_decode_of_verifier? foundToo
      with ⟨_, _, _, _, namedToo, givenToo, known, decodedToo⟩
  rw [named] at namedToo
  cases namedToo
  rw [given] at givenToo
  cases givenToo
  rw [registered] at known
  cases known
  rw [decoded] at decodedToo
  exact Except.ok.inj decodedToo

end Engines

/-! ### Sections are read from their own bytes -/

/-- Whether the checksum in a section tells the bytes of one body from those of another. -/
def Section.Distinguishes (described : Section) (engines : Engines) (body altered : Bytes) :
    Prop :=
  ∃ name checksum, described.checksum = some name ∧ engines.checksums.get name = .ok checksum ∧
    (checksum.compute (described.bytesIn altered) = checksum.compute (described.bytesIn body) →
      described.bytesIn altered = described.bytesIn body)

namespace BodyReader

variable {reader other : BodyReader} {described : Section} {verify : Bool} {label : String}
  {body altered key otherKey text : Bytes}

theorem exists_openSection_of_readAll (read : reader.readAll verify label described = .ok text) :
    ∃ plaintext, reader.openSection described = .ok plaintext ∧ plaintext.reading = .ok text := by
  rcases bind_eq_ok_iff.mp read with ⟨cipher, known, read⟩
  rcases bind_eq_ok_iff.mp read with ⟨checksum, _, read⟩
  rcases bind_eq_ok_iff.mp read with ⟨stored, opened, read⟩
  rcases bind_eq_ok_iff.mp read with ⟨plaintext, shown, read⟩
  rcases bind_eq_ok_iff.mp read with ⟨bytes, reading, read⟩
  rw [guard_eq_ok_iff] at read
  rcases bind_unit_eq_ok_iff.mp read.2 with ⟨_, result⟩
  cases result
  refine ⟨plaintext, ?_, reading⟩
  simp only [openSection, known, opened, shown, bind, Except.bind]

theorem readAll_of_bytesIn (engines : other.engines = reader.engines)
    (offers : other.source.Offers other.number body otherKey)
    (replaced : reader.source.Offers reader.number altered key)
    (inside : described.stop ≤ body.length) (fits : described.stop ≤ altered.length)
    (same : described.bytesIn altered = described.bytesIn body)
    (read : reader.readAll verify label described = .ok text) :
    other.readAll verify label described = .ok text := by
  have parts := (readAll_eq_ok_iff replaced fits).mp read
  have looked : other.checksumFor verify described = reader.checksumFor verify described := by
    unfold checksumFor
    rw [engines]
  rw [same] at parts
  rw [readAll_eq_ok_iff offers inside, looked, engines]
  exact parts

theorem bytesIn_eq_of_readAll {plain : Bytes}
    (replaced : reader.source.Offers reader.number altered key)
    (fits : described.stop ≤ altered.length)
    (holds : described.Holds reader.engines body plain)
    (tells : described.Distinguishes reader.engines body altered)
    (read : reader.readAll true label described = .ok text) :
    described.bytesIn altered = described.bytesIn body := by
  rcases tells with ⟨name, checksum, recorded, registered, apart⟩
  rcases holds.checked name recorded with ⟨used, found, value⟩
  rw [registered] at found
  cases found
  rcases ((readAll_eq_ok_iff replaced fits).mp read).2 with ⟨looked, found, compared⟩
  simp only [checksumFor, recorded, registered] at found
  cases found
  simp only [compareSum, value] at compared
  split at compared
  · rename_i equal
    exact apart equal
  · cases compared

end BodyReader

/-! ### Reports in which everything is valid -/

namespace Archive

variable {archive original : Archive} {number : UInt64} {resolved : Resolved}
  {report : VerificationReport} {source : Source} {engines : Engines}
  {settings : ContentSettings} {body altered key : Bytes}

theorem of_ofSource (offers : source.Offers number body key)
    (opened : ofSource source engines settings = .ok archive) :
    archive.source = source ∧ archive.engines = engines ∧ archive.settings = settings ∧
      archive.history.contains number = true := by
  have paged : settings.maxPageSize ≠ some 0 := by
    rw [ofSource, guard_eq_ok_iff] at opened
    exact opened.1
  rcases exists_ofSource offers engines paged with ⟨found, openedToo, rest⟩
  rw [opened] at openedToo
  cases openedToo
  exact rest

theorem exists_report_of_verify (verified : archive.verify number = .ok (some report)) :
    ∃ resolved, archive.resolve number = .ok (some resolved) ∧
      archive.report number resolved = .ok report := by
  cases found : archive.resolve number with
  | error error =>
      rw [verify, found] at verified
      cases verified
  | ok resolved? =>
      cases resolved? with
      | none =>
          rw [verify, found] at verified
          cases verified
      | some resolved =>
          rw [verify_of_resolve found] at verified
          exact ⟨resolved, rfl, map_some_eq_ok_iff.mp verified⟩

/-- What has been checked for a report in which everything is valid. -/
structure AllValid (archive : Archive) (number : UInt64) (resolved : Resolved) : Prop where
  key : archive.keyStatus resolved = .ok .valid
  record : archive.engines.check resolved.record resolved.record.signatureFormat
    (some resolved.signature) (.ok resolved.recordBytes) = .ok .valid
  files : ∀ pair ∈ resolved.key.files.zip resolved.files,
    archive.fileStatus resolved number pair.1 pair.2 = .ok (pair.1.path, .valid)

theorem allValid_of_report (reported : archive.report number resolved = .ok report)
    (valid : report.isValid = true) : archive.AllValid number resolved := by
  rcases bind_eq_ok_iff.mp reported with ⟨key, first, reported⟩
  rcases bind_eq_ok_iff.mp reported with ⟨record, second, reported⟩
  rcases bind_eq_ok_iff.mp reported with ⟨files, third, reported⟩
  cases reported
  simp only [VerificationReport.isValid, VerificationReport.statuses, List.all_cons,
    List.all_map, Bool.and_eq_true, decide_eq_true_eq, List.all_eq_true,
    Function.comp_apply] at valid
  rcases valid with ⟨rfl, rfl, every⟩
  refine ⟨first, second, ?_⟩
  intro pair member
  rcases exists_of_forall₂ (mapM_eq_ok_iff.mp third) member with ⟨entry, listed, given⟩
  rcases bind_eq_ok_iff.mp given with ⟨plaintext, _, rest⟩
  rcases bind_eq_ok_iff.mp rest with ⟨status, _, rest⟩
  cases rest
  have good : status = .valid := every _ listed
  rw [← good]
  exact given

/-! ### Bodies that have been replaced -/

/-- The data that a reader of a message meets together with a signature. -/
inductive Shows (archive : Archive) (number : UInt64) (resolved : Resolved) :
    (format : Option String) → (signature : Option Bytes) → (data : Bytes) → Prop
  | key : Shows archive number resolved resolved.key.signatureFormat resolved.key.signature
    (Record.encode resolved.key.unsigned)
  | record : Shows archive number resolved resolved.record.signatureFormat
    (some resolved.signature) resolved.recordBytes
  | file {file : FileSection} {record : FileRecord} {plaintext : ByteStream} {text : Bytes}
    (listed : (file, record) ∈ resolved.key.files.zip resolved.files)
    (opened : (archive.reader number).openSection file.content = .ok plaintext)
    (reading : plaintext.reading = .ok text) :
    Shows archive number resolved record.signatureFormat record.signature text

/--
Nobody has forged anything that is met in reading a message: whatever is valid under the key of an
author is one of the texts that the author has signed, and the signature on the key of the package
is valid under no other key.
-/
structure Unforged (archive : Archive) (number : UInt64) (publicKey : Bytes)
    (texts : List Bytes) : Prop where
  key : ∀ resolved, archive.resolve number = .ok (some resolved) →
    ∀ other, archive.engines.Confirms resolved.record resolved.key.signatureFormat
      resolved.key.signature other (Record.encode resolved.key.unsigned) → other = publicKey
  texts : ∀ resolved, archive.resolve number = .ok (some resolved) →
    ∀ format signature data, archive.Shows number resolved format signature data →
      archive.engines.Confirms resolved.record format signature publicKey data → data ∈ texts

/-- If everything is valid, whatever is shown is signed by the author of the package. -/
theorem mem_texts_of_check {publicKey data : Bytes} {texts : List Bytes} {format : Option String}
    {signature : Option Bytes} (unforged : archive.Unforged number publicKey texts)
    (found : archive.resolve number = .ok (some resolved))
    (valid : archive.AllValid number resolved)
    (shows : archive.Shows number resolved format signature data)
    (checked : archive.engines.check resolved.record format signature (.ok data) = .ok .valid) :
    data ∈ texts := by
  rcases Engines.exists_confirms_of_check valid.key with ⟨signer, keyed⟩
  rcases Engines.exists_confirms_of_check checked with ⟨other, confirms⟩
  -- The key names the author for all other signatures, since they are checked under one key.
  have same : other = publicKey :=
    (confirms.publicKey_eq keyed).trans (unforged.key resolved found signer keyed)
  exact unforged.texts resolved found format signature data shows (same ▸ confirms)

theorem exists_readAll_of_content {path : String} {text : Bytes}
    (found : archive.resolve number = .ok (some resolved))
    (served : archive.content number path = .ok (some text)) :
    ∃ file ∈ resolved.key.files, (archive.reader number).readAll
      archive.settings.verifyChecksums file.path file.content = .ok text := by
  rw [(answersFrom_of_resolve found).content] at served
  cases listed : resolved.key.files.find? fun file => file.path = path with
  | none =>
      rw [listed] at served
      cases served
  | some file =>
      rw [listed] at served
      rcases bind_eq_ok_iff.mp served with ⟨bytes, read, served⟩
      cases served
      exact ⟨file, List.mem_of_find?_eq_some listed, read⟩

theorem mem_texts_of_content {publicKey text : Bytes} {texts : List Bytes} {path : String}
    (unforged : archive.Unforged number publicKey texts)
    (found : archive.resolve number = .ok (some resolved))
    (aligned : resolved.key.files.length = resolved.files.length)
    (valid : archive.AllValid number resolved)
    (served : archive.content number path = .ok (some text)) : text ∈ texts := by
  rcases exists_readAll_of_content found served with ⟨file, member, read⟩
  rcases BodyReader.exists_openSection_of_readAll read with ⟨plaintext, opened, reading⟩
  rw [← List.map_fst_zip (Nat.le_of_eq aligned)] at member
  rcases List.mem_map.mp member with ⟨⟨_, record⟩, listed, rfl⟩
  have status := valid.files _ listed
  simp only [fileStatus, opened, reading, bind, Except.bind] at status
  split at status
  · cases status
  · rename_i checked
    cases status
    exact mem_texts_of_check unforged found valid (.file listed opened reading) checked

theorem Accepts.of_bytesIn {candidate otherKey : Bytes}
    (accepts : archive.Accepts number altered.length candidate resolved)
    (engines : original.engines = archive.engines)
    (settings : original.settings = archive.settings)
    (offers : original.source.Offers number body key)
    (replaced : archive.source.Offers number altered otherKey)
    (inside : resolved.key.checkWithin body.length = .ok ())
    (same : resolved.key.metadata.bytesIn altered = resolved.key.metadata.bytesIn body) :
    original.Accepts number body.length candidate resolved := by
  have within := checkWithin_eq_ok_iff.mp inside
  rcases accepts.metadata with ⟨packed, fileBytes, read, parts⟩
  refine ⟨accepts.key, within, ⟨packed, fileBytes, ?_, parts⟩, accepts.record, accepts.number, ?_⟩
  · have enginesToo : (original.reader number).engines = (archive.reader number).engines := engines
    exact BodyReader.readAll_of_bytesIn enginesToo offers replaced
      (within _ List.mem_cons_self).2 (accepts.inside _ List.mem_cons_self).2 same read
  · rw [settings, keyStatus, engines]
    exact accepts.author

/-- What is certain of the answers about a package whose body may have been replaced. -/
structure Authentic (archive : Archive) (draft : Draft) (package : Package) : Prop where
  key : archive.key package.number = .ok (some package.key)
  record : ∃ record, archive.record package.number = .ok (some record) ∧
    (record = package.record ∨ ∃ file ∈ draft.files, Record.decode file.content = .ok record)
  files : ∃ listing, archive.files package.number = .ok (some listing) ∧
    listing.map (fun info => (info.path, info.size)) =
      package.key.files.map fun file => (file.path, file.content.length)
  content : ∀ path text, archive.content package.number path = .ok (some text) →
    text ∈ draft.signedTexts package
  absent : ∀ path ∉ package.key.files.map FileSection.path,
    archive.content package.number path = .ok none

/-- An archive that answers as another one does, or not at all. -/
structure Restores (archive original : Archive) (number : UInt64) : Prop where
  record : archive.record number = original.record number
  files : archive.files number = original.files number
  content : archive.settings.verifyChecksums = true → ∀ path,
    (∃ error, archive.content number path = .error error) ∨
      archive.content number path = original.content number path

theorem restores_of_readAll (found : archive.resolve number = .ok (some resolved))
    (foundToo : original.resolve number = .ok (some resolved))
    (settings : original.settings = archive.settings)
    (same : archive.settings.verifyChecksums = true → ∀ file ∈ resolved.key.files, ∀ text,
      (archive.reader number).readAll true file.path file.content = .ok text →
        (original.reader number).readAll true file.path file.content = .ok text) :
    archive.Restores original number := by
  have answers := answersFrom_of_resolve found
  have answersToo := answersFrom_of_resolve foundToo
  refine ⟨answers.record.trans answersToo.record.symm, answers.files.trans answersToo.files.symm,
    ?_⟩
  intro wanted path
  rw [answers.content, answersToo.content, settings, wanted]
  cases listed : resolved.key.files.find? fun file => file.path = path with
  | none => exact .inr rfl
  | some file =>
      cases read : (archive.reader number).readAll true file.path file.content with
      | error error =>
          refine .inl ⟨error, ?_⟩
          rw [option_mapM_eq, read]
          rfl
      | ok text =>
          have readToo := same wanted file (List.mem_of_find?_eq_some listed) text read
          rw [option_mapM_eq, option_mapM_eq, read, readToo]
          exact .inr rfl

/-- Where the checksums tell two bodies apart, one is served as the other, or not at all. -/
theorem restores_of_distinguishes {candidate otherKey : Bytes}
    (engines : original.engines = archive.engines)
    (settings : original.settings = archive.settings)
    (offers : original.source.Offers number body candidate)
    (listed : original.history.contains number = true)
    (replaced : archive.source.Offers number altered otherKey)
    (found : archive.resolve number = .ok (some resolved))
    (accepts : archive.Accepts number altered.length candidate resolved)
    (holds : ∀ described ∈ resolved.key.sections,
      ∃ text, described.Holds archive.engines body text)
    (inside : resolved.key.checkWithin body.length = .ok ())
    (tells : ∀ described ∈ resolved.key.sections,
      described.Distinguishes archive.engines body altered) :
    archive.Restores original number := by
  have within := checkWithin_eq_ok_iff.mp inside
  -- Whatever can be read is read from the old bytes, or its checksum would not fit.
  have kept : ∀ described ∈ resolved.key.sections, ∀ label text,
      (archive.reader number).readAll true label described = .ok text →
        described.bytesIn altered = described.bytesIn body := by
    intro described member label text read
    rcases holds described member with ⟨plain, holds⟩
    exact BodyReader.bytesIn_eq_of_readAll replaced (accepts.inside _ member).2 holds
      (tells described member) read
  rcases accepts.metadata with ⟨packed, _, read, _⟩
  have accepted := accepts.of_bytesIn engines settings offers replaced inside
    (kept _ List.mem_cons_self _ _ read)
  have foundToo : original.resolve number = .ok (some resolved) := by
    rw [resolve_eq offers listed, tryKey_eq_ok_iff.mpr accepted]
    rfl
  refine restores_of_readAll found foundToo settings ?_
  intro _ file member text read
  have indexed : file.content ∈ resolved.key.sections :=
    List.mem_cons_of_mem _ (List.mem_map_of_mem member)
  have enginesToo : (original.reader number).engines = (archive.reader number).engines := engines
  exact BodyReader.readAll_of_bytesIn enginesToo offers replaced (within _ indexed).2
    (accepts.inside _ indexed).2 (kept _ indexed _ _ read) read

end Archive

theorem Draft.validate_record_of_sign {draft : Draft} {signer : Signer} {signed : Signed}
    (done : draft.sign (some signer) = .ok signed) : Record.validate signed.record = .ok () := by
  rcases bind_eq_ok_iff.mp done with ⟨record, stamped, done⟩
  rcases bind_eq_ok_iff.mp done with ⟨files, _, done⟩
  rcases bind_eq_ok_iff.mp done with ⟨signature, _, done⟩
  cases done
  exact (Signer.exists_of_stamp stamped).2.2

/-- A record among the signed texts is that of the message, or the content of a file. -/
theorem Draft.record_of_mem_signedTexts {draft : Draft} {package : Package} {bytes : Bytes}
    {record : MessageRecord} (valid : Record.validate package.record = .ok ())
    (signed : bytes ∈ draft.signedTexts package) (decoded : Record.decode bytes = .ok record) :
    record = package.record ∨ ∃ file ∈ draft.files, Record.decode file.content = .ok record := by
  rcases List.mem_cons.mp signed with rfl | signed
  · exact absurd decoded (PackageKey.decode_ne_ok_messageRecord _ _)
  · rcases List.mem_cons.mp signed with rfl | content
    · rw [MessageRecord.decode_encode valid] at decoded
      exact .inl (Except.ok.inj decoded).symm
    · rcases List.mem_map.mp content with ⟨file, member, rfl⟩
      exact .inr ⟨file, member, decoded⟩

/--
A package whose body has been replaced, with a report in which everything is valid. Its key is the
one that was made, and with it the paths and sizes of the files. All that is served was signed for
this package, but the record may be the content of a file, and a file may have the content of
another one. Where the checksums tell the sections from what replaces them, the record, the files
and their contents are served as they were, unless a content is not served at all.
-/
theorem Draft.build_authenticates {σ : Type} {draft : Draft} {engines : Engines}
    {identity : Identity} {generator : Generator σ} {state rest : σ} {package : Package}
    (author : draft.identity = some identity)
    (built : draft.build engines generator state = .ok (package, rest))
    (short : package.body.length < UInt64.size) {source other : Source} {altered : Bytes}
    (offers : source.Offers package.number package.body (Record.encode package.key))
    (replaced : other.Offers package.number altered (Record.encode package.key))
    {settings : ContentSettings} {original archive : Archive}
    (opened : Archive.ofSource source engines settings = .ok original)
    (openedToo : Archive.ofSource other engines settings = .ok archive)
    {report : VerificationReport} (verified : archive.verify package.number = .ok (some report))
    (valid : report.isValid = true)
    (unforged : archive.Unforged package.number identity.publicKey (draft.signedTexts package)) :
    archive.Authentic draft package ∧
      ((∀ described ∈ package.key.sections,
          described.Distinguishes engines package.body altered) →
        archive.Restores original package.number) := by
  rcases exists_layout_of_build built short with ⟨prepared, made, layout⟩
  rcases exists_signer_of_prepare author made with ⟨signer, _, _, _, stored⟩
  rcases Archive.of_ofSource offers opened with ⟨rfl, known, chosen, listed⟩
  rcases Archive.of_ofSource replaced openedToo with ⟨rfl, rfl, rfl, listedToo⟩
  rcases Archive.exists_report_of_verify verified with ⟨resolved, found, reported⟩
  have everything := Archive.allValid_of_report reported valid
  have tried := found
  rw [Archive.resolve_eq replaced listedToo, map_some_eq_ok_iff, Archive.tryKey_eq_ok_iff] at tried
  have same : resolved.key = package.key := by
    have decoded := tried.key
    rw [PackageKey.decode_encode layout.written.valid] at decoded
    exact (Except.ok.inj decoded).symm
  have aligned := tried.length_files
  have answers := Archive.answersFrom_of_resolve found
  refine ⟨⟨?_, ?_, ?_, ?_, ?_⟩, ?_⟩
  · rw [answers.key, same]
  · have recordValid : Record.validate package.record = .ok () := by
      rw [layout.written.record]
      exact validate_record_of_sign stored
    have signed := Archive.mem_texts_of_check unforged found everything .record everything.record
    exact ⟨resolved.record, answers.record,
      record_of_mem_signedTexts recordValid signed tried.record⟩
  · exact ⟨_, answers.files, same ▸ Resolved.map_place_listing aligned⟩
  · intro path text served
    exact Archive.mem_texts_of_content unforged found aligned everything served
  · intro path absent
    rw [← same] at absent
    have missing : (resolved.key.files.find? fun file => file.path = path) = none := by
      refine List.find?_eq_none.mpr ?_
      intro file member here
      exact absent (List.mem_map.mpr ⟨file, member, of_decide_eq_true here⟩)
    rw [answers.content, missing]
    rfl
  · intro tells
    refine Archive.restores_of_distinguishes known chosen offers listed replaced found tried ?_ ?_
      (same ▸ tells)
    · rw [same]
      intro described member
      rcases layout.written.exists_holds described member with ⟨text, holds⟩
      exact ⟨text, holds.of_records (layout.records described member)
        (registered_of_prepare made)⟩
    · rw [same]
      exact layout.written.checkWithin (layout.written.length ▸ short)

/-! ### Texts in other places -/

/--
A scheme in which one author has signed some texts and no others. Whatever is said to be signed
under another key is believed.
-/
def Scheme.sealed (author : Bytes) (texts : List Bytes) : Scheme :=
  { echo with
    verify := fun publicKey data signature => do
      let data ← data
      return publicKey ≠ author || (signature == author ++ data && texts.contains data) }

theorem Scheme.verify_sealed {author data signature : Bytes} {texts : List Bytes} :
    (Scheme.sealed author texts).verify author (.ok data) signature = .ok true ↔
      signature = author ++ data ∧ data ∈ texts := by
  simp [Scheme.sealed, bind, Except.bind, pure, Except.pure]

def Engines.sealed (author : Bytes) (texts : List Bytes) : Engines :=
  { echoing with schemes := ⟨"signature", [.sealed author texts]⟩ }

theorem Engines.Confirms.of_sealed {author publicKey data : Bytes} {texts : List Bytes}
    {record : MessageRecord} {format : Option String} {signature : Option Bytes}
    (confirms : (Engines.sealed author texts).Confirms record format signature publicKey data) :
    record.authorKey = some (1 :: publicKey) ∧ (publicKey = author → data ∈ texts) := by
  rcases confirms with ⟨found, verified⟩
  rcases exists_decode_of_verifier? found
    with ⟨listed, name, key, keyFormat, _, given, registered, decoded⟩
  have chosen := List.mem_singleton.mp listed
  rw [List.mem_singleton.mp (List.mem_of_find?_eq_some registered)] at decoded
  dsimp only at chosen decoded
  constructor
  · rw [given]
    simp only [Format.framed] at decoded
    split at decoded
    · cases decoded
      rfl
    · cases decoded
  · rintro rfl
    rw [chosen] at verified
    exact (Scheme.verify_sealed.mp verified).2

/--
A message of three files in the clear, without checksums. The first file is the record of another
post by the same author.
-/
def Draft.triple (identity : Identity) (post other mimeType : String) (second third : Bytes) :
    Draft :=
  { start (.start 7 post) with
    files := [
      ⟨"a", .start .createOrOverride, Record.encode
        ((MessageRecord.start 7 other).authored "echo-framed" (1 :: identity.publicKey) "ECHO")⟩,
      ⟨"b", (FileRecord.start .createOrOverride).edit (.mimeType mimeType), second⟩,
      ⟨"c", .start .createOrOverride, third⟩]
    cipher := "none"
    checksum := none
    identity := some identity }

/-- The package of a draft under engines that repeat what they sign, if there is one. -/
def Draft.echoed (draft : Draft) : Option Package :=
  (draft.build .echoing ⟨fun byte => (byte, byte + 1)⟩ (0 : UInt8)).toOption.map Prod.fst

/-- The message that is sent. -/
def Draft.sent : Draft :=
  triple ⟨"ECHO", [5, 6], [6, 5]⟩ "post" "pest" "text/x" (List.replicate 200 1)
    (List.replicate 200 2)

def Draft.sentTexts : List Bytes :=
  (sent.echoed.map sent.signedTexts).getD []

/-- A body with the same signed texts in other places, the signed key among them. -/
def Draft.exchangedBody : Bytes :=
  ((triple ⟨"ECHO", [5, 6], [6, 5]⟩ "pest" "post" "text/y" (sentTexts.headD [])
    (List.replicate 200 1)).echoed.map Package.body).getD []

/-- A body that another author has made. -/
def Draft.foreignBody : Bytes :=
  ((triple ⟨"ECHO", [7, 8], [8, 7]⟩ "past" "cost" "text/z" (List.replicate 200 3)
    (List.replicate 200 4)).echoed.map Package.body).getD []

/-- Some answers about a message, if everything is served. -/
structure Glance where
  isValid : Bool
  post : String
  authorKey : Option Bytes
  mimeTypes : List (Option String)
  content : Bytes
  deriving DecidableEq, Repr

/-- What is served of a package if its body is replaced. -/
def Package.glance? (package : Package) (engines : Engines) (body : Bytes) (path : String) :
    Option Glance := do
  let store := (MemoryStore.empty.insertPackage package).changeBody package.number fun _ => body
  let archive ← (Archive.ofSource store.source engines {}).toOption
  let report ← (archive.verify package.number).toOption.join
  let record ← (archive.record package.number).toOption.join
  let listing ← (archive.files package.number).toOption.join
  let text ← (archive.content package.number path).toOption.join
  return ⟨report.isValid, record.post, record.authorKey,
    listing.map fun info => info.record.mimeType, text⟩

theorem Package.exists_of_glance? {package : Package} {engines : Engines} {body : Bytes}
    {path : String} {glance : Glance}
    (seen : package.glance? engines body path = some glance) :
    ∃ archive report record,
      Archive.ofSource ((MemoryStore.empty.insertPackage package).changeBody package.number
        fun _ => body).source engines {} = .ok archive ∧
      archive.verify package.number = .ok (some report) ∧ report.isValid = glance.isValid ∧
      archive.record package.number = .ok (some record) ∧ record.authorKey = glance.authorKey := by
  simp only [glance?, Option.bind_eq_bind, Option.bind_eq_some_iff] at seen
  rcases seen with ⟨archive, opened, report, verified, record, known, _, _, _, _, shape⟩
  cases shape
  exact ⟨archive, report, record, eq_ok_of_toOption opened,
    eq_ok_of_toOption (Option.join_eq_some_iff.mp verified), rfl,
    eq_ok_of_toOption (Option.join_eq_some_iff.mp known), rfl⟩

theorem Draft.exists_build_sent :
    ∃ package rest, sent.build (.sealed [6, 5] sentTexts) ⟨fun byte => (byte, byte + 1)⟩ 0 =
        .ok (package, rest) ∧
      sent.signedTexts package = sentTexts ∧ package.body.length < UInt64.size ∧
      package.glance? (.sealed [6, 5] sentTexts) package.body "b" = some
        ⟨true, "post", some [1, 6, 5], [none, some "text/x", none], List.replicate 200 1⟩ ∧
      package.glance? (.sealed [6, 5] sentTexts) exchangedBody "b" = some
        ⟨true, "pest", some [1, 6, 5], [none, some "text/y", none],
          Record.encode package.key.unsigned⟩ ∧
      package.glance? (.sealed [6, 5] sentTexts) foreignBody "b" = some
        ⟨true, "past", some [1, 8, 7], [none, some "text/z", none], List.replicate 200 3⟩ := by
  have built : (sent.build (.sealed [6, 5] sentTexts) ⟨fun byte => (byte, byte + 1)⟩
      (0 : UInt8)).toOption.map (fun (package, _) => decide (
        sent.signedTexts package = sentTexts ∧ package.body.length < UInt64.size ∧
        package.glance? (.sealed [6, 5] sentTexts) package.body "b" = some
          ⟨true, "post", some [1, 6, 5], [none, some "text/x", none], List.replicate 200 1⟩ ∧
        package.glance? (.sealed [6, 5] sentTexts) exchangedBody "b" = some
          ⟨true, "pest", some [1, 6, 5], [none, some "text/y", none],
            Record.encode package.key.unsigned⟩ ∧
        package.glance? (.sealed [6, 5] sentTexts) foreignBody "b" = some
          ⟨true, "past", some [1, 8, 7], [none, some "text/z", none], List.replicate 200 3⟩)) =
      some true := by
    decide +kernel
  rcases Option.map_eq_some_iff.mp built with ⟨⟨package, rest⟩, known, facts⟩
  exact ⟨package, rest, eq_ok_of_toOption known, of_decide_eq_true facts⟩

/--
Valid signatures alone do not tell a message from another one. Although nothing verifies under the
key of the author but what was signed for this very package, the body can be exchanged for another
with other signed texts in the place of the record and of the files, and for one of another author.
-/
theorem Draft.sent_exchanged :
    ∃ package rest, sent.build (.sealed [6, 5] sentTexts) ⟨fun byte => (byte, byte + 1)⟩ 0 =
        .ok (package, rest) ∧
      (∀ data signature,
        (Scheme.sealed [6, 5] sentTexts).verify [6, 5] (.ok data) signature = .ok true →
          data ∈ sent.signedTexts package ∧
          (Scheme.sealed [6, 5] sentTexts).sign [5, 6] (.ok data) = .ok signature) ∧
      package.glance? (.sealed [6, 5] sentTexts) package.body "b" = some
        ⟨true, "post", some [1, 6, 5], [none, some "text/x", none], List.replicate 200 1⟩ ∧
      package.glance? (.sealed [6, 5] sentTexts) exchangedBody "b" = some
        ⟨true, "pest", some [1, 6, 5], [none, some "text/y", none],
          Record.encode package.key.unsigned⟩ ∧
      package.glance? (.sealed [6, 5] sentTexts) foreignBody "b" = some
        ⟨true, "past", some [1, 8, 7], [none, some "text/z", none], List.replicate 200 3⟩ := by
  rcases exists_build_sent with ⟨package, rest, built, texts, _, glances⟩
  refine ⟨package, rest, built, ?_, glances⟩
  intro data signature verified
  rcases Scheme.verify_sealed.mp verified with ⟨rfl, member⟩
  exact ⟨texts ▸ member, rfl⟩

theorem Archive.unforged_sealed {archive : Archive} {number : UInt64} {record : MessageRecord}
    {author : Bytes} {texts : List Bytes} (engines : archive.engines = .sealed author texts)
    (known : archive.record number = .ok (some record))
    (named : record.authorKey = some (1 :: author)) : archive.Unforged number author texts := by
  constructor
  · intro resolved found other confirms
    rw [(answersFrom_of_resolve found).record] at known
    cases known
    rw [engines] at confirms
    have key := confirms.of_sealed.1
    rw [named] at key
    cases key
    rfl
  · intro resolved found format signature data _ confirms
    rw [engines] at confirms
    exact confirms.of_sealed.2 rfl

/-- What is certain of the answers about the exchanged body. -/
theorem Draft.build_authenticates_exchanged :
    ∃ package rest, sent.build (.sealed [6, 5] sentTexts) ⟨fun byte => (byte, byte + 1)⟩ 0 =
        .ok (package, rest) ∧
      package.body.length < UInt64.size ∧
      ∃ archive report,
        Archive.ofSource ((MemoryStore.empty.insertPackage package).changeBody package.number
          fun _ => exchangedBody).source (.sealed [6, 5] sentTexts) {} = .ok archive ∧
        archive.verify package.number = .ok (some report) ∧ report.isValid = true ∧
        archive.Unforged package.number [6, 5] (sent.signedTexts package) ∧
        archive.Authentic sent package := by
  rcases exists_build_sent with ⟨package, rest, built, texts, short, first, second, _⟩
  rcases Package.exists_of_glance? first with ⟨original, _, _, opened, _⟩
  rcases Package.exists_of_glance? second
    with ⟨archive, report, record, openedToo, verified, valid, known, named⟩
  have offers := MemoryStore.empty.offers_changeBody package fun _ => package.body
  have replaced := MemoryStore.empty.offers_changeBody package fun _ => exchangedBody
  have unforged : archive.Unforged package.number [6, 5] (sent.signedTexts package) := by
    rw [texts]
    exact Archive.unforged_sealed (Archive.of_ofSource replaced openedToo).2.1 known named
  have authentic := (build_authenticates rfl built short offers replaced opened openedToo verified
    valid unforged).1
  exact ⟨package, rest, built, short, archive, report, openedToo, verified, valid, unforged,
    authentic⟩

end Missive
