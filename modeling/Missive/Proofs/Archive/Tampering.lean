import Missive.Proofs.Archive.Candidates

/-!
# Files that have been tampered with

Whoever can write to a source can change the stored files of a signed package. If nothing else is
changed, the key and the record stay valid, and so does every file that is left alone; a changed
file gets a verdict of its own, as long as its section can still be decrypted. Without a cipher and
in counter mode that is always so. In cipher block chaining a changed section may lose its padding,
and then there is no report at all, but the error of this section (`Draft.build_tampered`).
-/

namespace Missive

/-! ### What other bytes decrypt to -/

/-- Without a cipher and in counter mode, key data that decrypt one ciphertext decrypt all. -/
theorem Cipher.exists_decrypt {cipher : Cipher} {key ciphertext text : Bytes}
    (usable : cipher.textOf? key ciphertext = some text) (unpadded : cipher ≠ .chaining)
    (other : Bytes) : ∃ text, cipher.decrypt key other = .ok text := by
  simp only [decrypt_eq_ok_iff]
  cases cipher with
  | none => exact ⟨other, rfl⟩
  | counter =>
      cases known : KeyData.ofBytes? key with
      | none => simp [textOf?, known] at usable
      | some data =>
          refine ⟨Counter.mask data.cipher data.start 0 other, ?_⟩
          simp only [textOf?, known]
  | chaining => exact absurd rfl unpadded

namespace Prepared.Layout

variable {prepared : Prepared} {package : Package} {altered : Bytes}

theorem holds_metadata_of_inside (layout : prepared.Layout package)
    (length : altered.length = package.body.length)
    (inside : ∀ position, altered[position]? ≠ package.body[position]? →
      ∃ stored ∈ package.key.files, stored.content.Covers position) :
    package.key.metadata.Holds .standard altered (Packed.pack prepared.signed.blobs) := by
  refine layout.written.metadata.of_bytesIn (length ▸ layout.written.metadata.inside)
    (Section.bytesIn_congr ?_)
  intro position covers
  by_contra differs
  rcases inside position differs with ⟨stored, member, coversToo⟩
  exact layout.metadata_not_covers member coversToo covers

theorem cipherFor (layout : prepared.Layout package) {stored : FileSection}
    (member : stored ∈ package.key.files) :
    Engines.standard.cipherFor stored.content.cipher = .ok prepared.cipher := by
  have records := layout.records _ (List.mem_cons_of_mem _ (List.mem_map_of_mem member))
  rw [Engines.cipherFor, records.cipher, Cipher.get_standard]

theorem exists_decrypt (layout : prepared.Layout package) (unpadded : prepared.cipher ≠ .chaining)
    {stored : FileSection} (member : stored ∈ package.key.files) (altered : Bytes) :
    ∃ text, prepared.cipher.decrypt stored.content.key (stored.content.bytesIn altered) =
      .ok text := by
  rcases exists_of_forall₂ layout.written.files.flip member with ⟨file, _, holds⟩
  rcases holds.holds.decrypted with ⟨cipher, known, decrypted⟩
  rw [layout.cipherFor member] at known
  cases known
  exact Cipher.exists_decrypt decrypted unpadded _

end Prepared.Layout

theorem BodyReader.exists_openSection_of_altered {reader : BodyReader} {described : Section}
    {body altered key text : Bytes} {cipher : Cipher}
    (offers : reader.source.Offers reader.number altered key)
    (length : altered.length = body.length) (holds : described.Holds reader.engines body text)
    (known : reader.engines.cipherFor described.cipher = .ok cipher) :
    ∃ plaintext, reader.openSection described = .ok plaintext ∧
      plaintext.reading = cipher.decrypt described.key (described.bytesIn altered) ∧
      ((∃ bytes, plaintext.reading = .ok bytes) ∨
        ∃ fault, plaintext.reading = .error (.decrypt fault)) := by
  have inside := holds.inside
  rw [← length] at inside
  rcases exists_stored offers inside with ⟨stored, opened, content, ended⟩
  rcases holds.decrypted with ⟨used, found, decrypted⟩
  rw [known] at found
  cases found
  rcases Cipher.exists_reader_of_textOf? decrypted ended with ⟨plaintext, shown, outcome⟩
  refine ⟨plaintext, ?_, ?_, outcome⟩
  · simp only [openSection, known, opened, shown, bind, Except.bind]
  · rw [← content, ← cipher.reading_reader described.key ended, shown]
    rfl

/-! ### Verdicts under the standard scheme -/

/-- A scheme that verifies what an identity signs of some texts. -/
def Scheme.VerifiesTexts (scheme : Scheme) (identity : Identity) (texts : List Bytes) : Prop :=
  ∀ data ∈ texts, ∀ signature, scheme.sign identity.privateKey (.ok data) = .ok signature →
    scheme.verify identity.publicKey (.ok data) signature = .ok true

/-- Whether a scheme verifies what an identity signs of a text. -/
def Scheme.verifiesOwn (scheme : Scheme) (identity : Identity) (data : Bytes) : Bool :=
  match scheme.sign identity.privateKey (.ok data) with
  | .ok signature => (scheme.verify identity.publicKey (.ok data) signature).toOption = some true
  | .error _ => true

theorem Scheme.verifiesTexts_iff {scheme : Scheme} {identity : Identity} {texts : List Bytes} :
    scheme.VerifiesTexts identity texts ↔ texts.all (scheme.verifiesOwn identity) := by
  rw [List.all_eq_true]
  refine forall₂_congr ?_
  intro data _
  rw [verifiesOwn]
  cases scheme.sign identity.privateKey (.ok data) with
  | error error => simp
  | ok signature =>
      simp only [Except.ok.injEq, forall_eq', decide_eq_true_eq]
      cases scheme.verify identity.publicKey (.ok data) signature <;> simp [Except.toOption]

/-- The texts that the author of a draft has signed once a package is made of it. -/
def Draft.signedTexts (draft : Draft) (package : Package) : List Bytes :=
  Record.encode package.key.unsigned :: Record.encode package.record ::
    draft.files.map DraftFile.content

theorem Scheme.length_of_sign_ed25519ph {privateKey signature : Bytes} {data : Reading}
    (signed : ed25519ph.sign privateKey data = .ok signature) : signature.length = 64 := by
  rcases bind_unit_eq_ok_iff.mp signed with ⟨_, signed⟩
  rcases bind_eq_ok_iff.mp signed with ⟨bytes, _, signed⟩
  cases signed
  simp [Ed25519.signDigest, Edwards.Point.toBytes]

/-- A usable key and a signature of the right length give a verdict on whatever was read. -/
theorem Scheme.verify_ed25519ph {publicKey signature : Bytes} {point : Edwards.Point}
    (usable : Ed25519.decodePublicKey publicKey = .ok point) (length : signature.length = 64)
    (data : Reading) :
    ed25519ph.verify publicKey data signature = data.map fun bytes =>
      Ed25519.verifyDigest publicKey point (Sha512.digest bytes) signature := by
  simp only [ed25519ph, usable, length, if_true, bind, Except.bind, pure, Except.pure]
  cases data <;> rfl

namespace Signer

variable {signer : Signer} {author : MessageRecord} {data signature : Bytes} {texts : List Bytes}

theorem Registered.eq_standard (registered : signer.Registered .standard) :
    signer.scheme = .ed25519ph ∧ signer.signatureFormat = .rawSignature :=
  ⟨List.mem_singleton.mp (Registry.mem_of_get registered.scheme),
    List.mem_singleton.mp (Registry.mem_of_get registered.signatureFormat)⟩

/--
How a signature of the standard scheme is checked against whatever was read. The signed data
itself is valid, other data may not be, and an error of reading is passed on.
-/
theorem check_standard (registered : signer.Registered .standard)
    (verifies : Scheme.ed25519ph.VerifiesTexts signer.identity texts) (member : data ∈ texts)
    (authors : signer.Authors author) (signed : signer.sign data = .ok signature) :
    let check := Engines.standard.check author (some signer.signatureFormat.name) (some signature)
    check (.ok data) = .ok .valid ∧
      (∀ other, ∃ status, check (.ok other) = .ok status ∧ status ≠ .unsigned) ∧
      ∀ fault, check (.error (.decrypt fault)) = .error (.decrypt fault) := by
  intro check
  rcases registered.eq_standard with ⟨scheme, format⟩
  rcases bind_eq_ok_iff.mp signed with ⟨raw, made, encoded⟩
  rw [scheme] at made
  have length := Scheme.length_of_sign_ed25519ph made
  have valid := verifies data member raw made
  rcases bind_eq_ok_iff.mp valid with ⟨point, usable, _⟩
  have present : signature ≠ [] := by
    rintro rfl
    rw [format] at encoded
    rw [Except.ok.inj encoded] at length
    cases length
  have checked := Engines.check_of_verifier? present (Engines.verifier?_of_inverts
    (Engines.inverts_keyFormats _ (Registry.mem_of_get registered.keyFormat))
    (Engines.inverts_signatureFormats _ (Registry.mem_of_get registered.signatureFormat))
    registered authors encoded)
  rw [scheme] at checked
  refine ⟨?_, ?_, ?_⟩
  · exact (checked (.ok data)).trans (by rw [valid])
  · intro other
    have answer := checked (.ok other)
    simp only [Scheme.verify_ed25519ph usable length, Except.map] at answer
    cases verdict : Ed25519.verifyDigest signer.identity.publicKey point (Sha512.digest other) raw
    · rw [verdict] at answer
      exact ⟨.invalid, answer, nofun⟩
    · rw [verdict] at answer
      exact ⟨.valid, answer, nofun⟩
  · intro fault
    have answer := checked (.error (.decrypt fault))
    simp only [Scheme.verify_ed25519ph usable length, Except.map] at answer
    exact answer

end Signer

/-! ### Signed packages with changed files -/

namespace Archive

section Altered

variable {archive : Archive} {prepared : Prepared} {package : Package} {signer : Signer}
  {altered : Bytes} {texts : List Bytes} {cipher : Cipher}

/-- What becomes of a file when its section may have other bytes. -/
inductive Verdict (archive : Archive) (number : UInt64) (resolved : Resolved) (cipher : Cipher)
    (body altered : Bytes) (stored : FileSection) (record : FileRecord) : Prop
  /-- A section that can be decrypted has a status, which is good if nothing was changed. -/
  | status {text : Bytes} {status : SignatureStatus}
    (decrypted : cipher.decrypt stored.content.key (stored.content.bytesIn altered) = .ok text)
    (given : archive.fileStatus resolved number stored record = .ok (stored.path, status))
    (signed : status ≠ .unsigned)
    (untouched : stored.content.bytesIn altered = stored.content.bytesIn body → status = .valid)
  | fault {fault : DecryptFault}
    (refused : cipher.decrypt stored.content.key (stored.content.bytesIn altered) =
      .error (.decrypt fault))
    (passed : archive.fileStatus resolved number stored record = .error (.decrypt fault))

theorem verdict_of_holds {number : UInt64} {resolved : Resolved} {body key : Bytes}
    {stored : FileSection} {file : DraftFile} (standard : archive.engines = .standard)
    (registered : signer.Registered .standard)
    (verifies : Scheme.ed25519ph.VerifiesTexts signer.identity texts)
    (member : file.content ∈ texts) (authors : signer.Authors resolved.record)
    (signs : signer.SignsFile file) (offers : archive.source.Offers number altered key)
    (length : altered.length = body.length)
    (holds : stored.content.Holds .standard body file.content)
    (known : Engines.standard.cipherFor stored.content.cipher = .ok cipher) :
    archive.Verdict number resolved cipher body altered stored file.record := by
  have offered : (archive.reader number).source.Offers number altered key := offers
  rw [← standard] at holds known
  rcases BodyReader.exists_openSection_of_altered offered length holds known
      with ⟨plaintext, opened, reading, outcome⟩
  rcases signs with ⟨format, signature, mark, made⟩
  rcases signer.check_standard registered verifies member authors made with ⟨valid, others, errors⟩
  have given : archive.fileStatus resolved number stored file.record =
      (Engines.standard.check resolved.record (some signer.signatureFormat.name) (some signature)
        plaintext.reading).map (stored.path, ·) := by
    simp only [fileStatus, opened, standard, format, mark, bind, Except.bind, pure, Except.pure]
    cases Engines.standard.check resolved.record (some signer.signatureFormat.name)
      (some signature) plaintext.reading <;> rfl
  rcases outcome with ⟨bytes, read⟩ | ⟨fault, failed⟩
  · rw [read] at reading given
    rcases others bytes with ⟨status, checked, signed⟩
    rw [checked] at given
    refine .status reading.symm given signed ?_
    intro same
    -- Bytes that are the same decrypt to the text that was signed.
    rcases holds.decrypted with ⟨used, found, decrypted⟩
    rw [known] at found
    cases found
    rw [same, Cipher.decrypt_eq_ok_iff.mpr decrypted] at reading
    rw [Except.ok.inj reading, valid] at checked
    exact (Except.ok.inj checked).symm
  · rw [failed] at reading given
    rw [errors fault] at given
    exact .fault reading.symm given

/-- A status among some entries for a file, which is good if nothing of its section was changed. -/
def Reported (body altered : Bytes) (entries : List (String × SignatureStatus))
    (stored : FileSection) : Prop :=
  ∃ status, (stored.path, status) ∈ entries ∧ status ≠ .unsigned ∧
    (stored.content.bytesIn altered = stored.content.bytesIn body → status = .valid)

theorem Reported.cons {body altered : Bytes} {entries : List (String × SignatureStatus)}
    {stored : FileSection} (reported : Reported body altered entries stored)
    (entry : String × SignatureStatus) : Reported body altered (entry :: entries) stored := by
  rcases reported with ⟨status, member, rest⟩
  exact ⟨status, List.mem_cons_of_mem entry member, rest⟩

/-- All files of a message are reported, or the first that cannot be decrypted is the error. -/
theorem mapM_of_verdicts {number : UInt64} {resolved : Resolved} {body : Bytes}
    {files : List DraftFile} {written : List FileSection}
    (verdicts : List.Forall₂ (fun file stored =>
      archive.Verdict number resolved cipher body altered stored file.record) files written) :
    let outcome := (written.zip (files.map DraftFile.record)).mapM fun pair =>
      archive.fileStatus resolved number pair.1 pair.2
    (∃ entries, outcome = .ok entries ∧ entries.map Prod.fst = written.map FileSection.path ∧
      (∀ stored ∈ written, Reported body altered entries stored) ∧
      ∀ stored ∈ written, ∃ text,
        cipher.decrypt stored.content.key (stored.content.bytesIn altered) = .ok text) ∨
    ∃ stored ∈ written, ∃ fault, outcome = .error (.decrypt fault) ∧
      cipher.decrypt stored.content.key (stored.content.bytesIn altered) =
        .error (.decrypt fault) := by
  induction verdicts with
  | nil => exact .inl ⟨[], rfl, rfl, nofun, nofun⟩
  | @cons file stored files written first _ ih =>
      simp only [List.map_cons, List.zip_cons_cons, List.mapM_cons] at ih ⊢
      cases first with
      | @fault fault refused passed =>
          refine .inr ⟨stored, List.mem_cons_self, fault, ?_, refused⟩
          rw [passed]
          rfl
      | @status text status decrypted given signed untouched =>
          rw [given]
          rcases ih
              with ⟨entries, known, paths, reported, texts⟩ | ⟨other, member, fault, failed, why⟩
          · refine .inl ⟨(stored.path, status) :: entries, ?_, ?_, ?_, ?_⟩
            · rw [known]
              rfl
            · rw [List.map_cons, paths]
            · rw [List.forall_mem_cons]
              exact ⟨⟨status, List.mem_cons_self, signed, untouched⟩,
                fun other member => (reported other member).cons _⟩
            · rw [List.forall_mem_cons]
              exact ⟨⟨text, decrypted⟩, texts⟩
          · refine .inr ⟨other, List.mem_cons_of_mem stored member, fault, ?_, why⟩
            rw [failed]
            rfl

variable (standard : archive.engines = .standard) (registered : signer.Registered .standard)
  (verifies : Scheme.ed25519ph.VerifiesTexts signer.identity texts)

include standard registered verifies

theorem check_of_signed {author : MessageRecord} {data signature : Bytes} (member : data ∈ texts)
    (authors : signer.Authors author) (signed : signer.sign data = .ok signature) :
    archive.engines.check author (some signer.signatureFormat.name) (some signature) (.ok data) =
      .ok .valid := by
  rw [standard]
  exact (signer.check_standard registered verifies member authors signed).1

theorem keyStatus_of_signed (layout : prepared.Layout package)
    (signs : prepared.signer = some signer) (authors : signer.Authors package.record)
    (member : Record.encode package.key.unsigned ∈ texts) :
    archive.keyStatus (resolvedOf prepared package) = .ok .valid :=
  keyStatus_of_check layout signs fun _ made =>
    check_of_signed standard registered verifies member authors made

theorem verdicts_of_layout {resolved : Resolved} (layout : prepared.Layout package)
    (attests : signer.Attests prepared.signed)
    (contents : ∀ file ∈ prepared.signed.files, file.content ∈ texts)
    (authors : signer.Authors resolved.record)
    (offers : archive.source.Offers package.number altered (Record.encode package.key))
    (length : altered.length = package.body.length) :
    List.Forall₂ (fun file stored => archive.Verdict package.number resolved prepared.cipher
      package.body altered stored file.record) prepared.signed.files package.key.files := by
  have known : ∀ stored ∈ package.key.files,
      Engines.standard.cipherFor stored.content.cipher = .ok prepared.cipher :=
    fun _ => layout.cipherFor
  have authored : ∀ file ∈ prepared.signed.files, file.content ∈ texts ∧ signer.SignsFile file :=
    fun file member => ⟨contents file member, attests.files file member⟩
  have pairs := (List.forall₂_and_left _ _).mpr ⟨authored, layout.written.files⟩
  have both := (List.forall₂_and_left _ _).mpr ⟨known, pairs.flip⟩
  refine (both.imp ?_).flip
  rintro stored file ⟨cipher, ⟨member, signs⟩, holds⟩
  exact verdict_of_holds standard registered verifies member authors signs offers length
    holds.holds cipher

end Altered

end Archive

/--
A signed package whose body has been changed inside its file sections only, and not in its length.
If all these sections can still be decrypted, there is a report: the key and the record are valid,
and every file has a status, which is good unless its section was changed. Otherwise there is no
report but the error of a section that cannot be decrypted, which only happens in cipher block
chaining.
-/
theorem Draft.build_tampered {σ : Type} {draft : Draft} {identity : Identity}
    {generator : Generator σ} {state rest : σ} {package : Package}
    (author : draft.identity = some identity)
    (files : ∀ file ∈ draft.files, Record.validate file.record = .ok ())
    (few : draft.files.length + 2 < Packed.signLimit Packed.countWidth)
    (built : draft.build .standard generator state = .ok (package, rest))
    (short : package.body.length < Directory.positionLimit)
    (verifies : Scheme.ed25519ph.VerifiesTexts identity (draft.signedTexts package))
    {altered : Bytes} (length : altered.length = package.body.length)
    (inside : ∀ position, altered[position]? ≠ package.body[position]? →
      ∃ stored ∈ package.key.files, stored.content.Covers position)
    {source : Source}
    (offers : source.Offers package.number altered (Record.encode package.key))
    {settings : ContentSettings} (paged : settings.maxPageSize ≠ some 0) :
    ∃ archive cipher, Archive.ofSource source .standard settings = .ok archive ∧
      Engines.standard.ciphers.get draft.cipher = .ok cipher ∧
      ((∀ stored ∈ package.key.files, ∃ text,
        cipher.decrypt stored.content.key (stored.content.bytesIn altered) = .ok text) →
          ∃ report, archive.verify package.number = .ok (some report) ∧ report.key = .valid ∧
            report.record = .valid ∧
            report.files.map Prod.fst = draft.files.map DraftFile.path ∧
            ∀ stored ∈ package.key.files,
              Archive.Reported package.body altered report.files stored) ∧
      (∀ stored ∈ package.key.files, ∀ error,
        cipher.decrypt stored.content.key (stored.content.bytesIn altered) = .error error →
          ∃ first ∈ package.key.files, ∃ fault,
            cipher.decrypt first.content.key (first.content.bytesIn altered) =
              .error (.decrypt fault) ∧
            archive.verify package.number = .error (.decrypt fault)) ∧
      (draft.cipher ≠ "AES-256-CBC" → ∀ stored ∈ package.key.files, ∃ text,
        cipher.decrypt stored.content.key (stored.content.bytesIn altered) = .ok text) := by
  have size : Directory.positionLimit < UInt64.size := by decide
  rcases exists_layout_of_build built (Nat.lt_trans short size) with ⟨prepared, made, layout⟩
  rcases exists_signer_of_prepare author made with ⟨signer, signs, registered, rfl, stored⟩
  rcases attests_of_sign files stored with ⟨carries, attests⟩
  rcases exists_of_prepare made with ⟨_, named, _, _, _⟩
  rcases Archive.exists_ofSource offers .standard paged
      with ⟨archive, opened, rfl, standard, _, listed⟩
  have authors : signer.Authors package.record := layout.written.record ▸ attests.author
  have contents : ∀ file ∈ prepared.signed.files, file.content ∈ draft.signedTexts package := by
    intro file member
    have listed : file.content ∈ draft.files.map DraftFile.content := by
      rw [← carries.contents]
      exact List.mem_map_of_mem member
    exact List.mem_cons_of_mem _ (List.mem_cons_of_mem _ listed)
  have header := layout.holds_metadata_of_inside length inside
  rw [← standard] at header
  have status := Archive.keyStatus_of_signed standard registered verifies layout signs authors
    List.mem_cons_self
  have marked : signer.sign (Record.encode package.record) = .ok prepared.signed.signature := by
    rw [layout.written.record]
    exact attests.record
  have record := Archive.check_of_signed standard registered verifies
    (List.mem_cons_of_mem _ List.mem_cons_self) authors marked
  have found : archive.resolve package.number =
      .ok (some (Archive.resolvedOf prepared package)) := by
    rw [Archive.resolve_eq offers listed, Archive.tryKey_of_holds carries layout.written few short
      offers length header fun _ => status]
    rfl
  rw [← authors.signatureFormat] at record
  have verified := Archive.verify_of_checks found status record
  have authored : signer.Authors (Archive.resolvedOf prepared package).record := authors
  have verdicts := Archive.verdicts_of_layout standard registered verifies layout attests contents
    authored offers length
  refine ⟨archive, prepared.cipher, opened, named, ?_, ?_, ?_⟩
  · intro decrypted
    rcases Archive.mapM_of_verdicts verdicts
        with ⟨entries, known, paths, reported, _⟩ | ⟨stored, member, fault, _, refused⟩
    · refine ⟨_, verified.trans (congrArg (Except.map _) known), rfl, rfl, ?_, reported⟩
      rw [← carries.paths, ← DraftFile.paths_of_storedIn layout.written.files]
      exact paths
    · rcases decrypted stored member with ⟨text, decrypted⟩
      rw [refused] at decrypted
      cases decrypted
  · intro stored member error refused
    rcases Archive.mapM_of_verdicts verdicts
        with ⟨_, _, _, _, texts⟩ | ⟨first, listed, fault, failed, why⟩
    · rcases texts stored member with ⟨text, decrypted⟩
      rw [refused] at decrypted
      cases decrypted
    · exact ⟨first, listed, fault, why, verified.trans (congrArg (Except.map _) failed)⟩
  · intro unpadded stored member
    refine layout.exists_decrypt ?_ member altered
    intro chaining
    rw [← Registry.name_of_get named, chaining] at unpadded
    exact unpadded rfl

/-- A draft with one file in cipher block chaining, signed under a key of sevens. -/
def Draft.authored : Draft :=
  { start (MessageRecord.start 7 "post") with
    files := [⟨"a", .start .createOrOverride, [1, 2, 3]⟩]
    cipher := "AES-256-CBC"
    checksum := none
    identity := some ⟨"ED25519PH", List.replicate 32 7,
      Ed25519.publicPoint (List.replicate 32 7)⟩ }

theorem Draft.exists_build_authored :
    ∃ package rest, authored.build .standard ⟨fun byte => (byte, byte + 1)⟩ 0 =
        .ok (package, rest) ∧
      package.body.length = 576 ∧
      package.key.files.map (fun file => (file.content.offset, file.content.length)) =
        [(560, 16)] ∧
      (∀ file ∈ package.key.files, Cipher.chaining.decrypt file.content.key
        (file.content.bytesIn (package.body.set 560 0)) = .error (.decrypt .invalidPadding)) ∧
      Scheme.ed25519ph.VerifiesTexts ⟨"ED25519PH", List.replicate 32 7,
        Ed25519.publicPoint (List.replicate 32 7)⟩ (authored.signedTexts package) := by
  have built : (authored.build .standard ⟨fun byte => (byte, byte + 1)⟩ (0 : UInt8)).toOption.map
      (fun (package, _) => (package.body.length,
        package.key.files.map (fun file => (file.content.offset, file.content.length)),
        package.key.files.map (fun file => match Cipher.chaining.decrypt file.content.key
          (file.content.bytesIn (package.body.set 560 0)) with
          | .ok _ => none
          | .error error => some error),
        (authored.signedTexts package).all (Scheme.ed25519ph.verifiesOwn ⟨"ED25519PH",
          List.replicate 32 7, Ed25519.publicPoint (List.replicate 32 7)⟩))) =
      some (576, [(560, 16)], [some (.decrypt .invalidPadding)], true) := by
    decide +kernel
  rcases Option.map_eq_some_iff.mp built with ⟨⟨package, rest⟩, known, shape⟩
  simp only [Prod.mk.injEq] at shape
  rcases shape with ⟨length, places, refused, verifies⟩
  refine ⟨package, rest, eq_ok_of_toOption known, length, places, ?_,
    Scheme.verifiesTexts_iff.mpr verifies⟩
  intro file member
  rcases List.map_eq_singleton_iff.mp refused with ⟨single, only, failed⟩
  rw [only, List.mem_singleton] at member
  subst member
  split at failed
  · cases failed
  · rename_i error known
    cases failed
    exact known

/-- One changed byte of the ciphertext breaks its padding, and all verdicts are lost. -/
theorem Draft.build_tampered_padding :
    ∃ package rest, authored.build .standard ⟨fun byte => (byte, byte + 1)⟩ 0 =
        .ok (package, rest) ∧
      Scheme.ed25519ph.VerifiesTexts ⟨"ED25519PH", List.replicate 32 7,
        Ed25519.publicPoint (List.replicate 32 7)⟩ (authored.signedTexts package) ∧
      package.body.length < Directory.positionLimit ∧
      (package.body.set 560 0).length = package.body.length ∧
      (∀ position, (package.body.set 560 0)[position]? ≠ package.body[position]? →
        ∃ stored ∈ package.key.files, stored.content.Covers position) ∧
      ∃ archive, Archive.ofSource ((MemoryStore.empty.insertPackage package).changeBody
          package.number (·.set 560 0)).source .standard {} = .ok archive ∧
        archive.verify package.number = .error (.decrypt .invalidPadding) := by
  rcases exists_build_authored with ⟨package, rest, built, length, places, refused, verifies⟩
  have files : ∀ file ∈ authored.files, Record.validate file.record = .ok () := by decide
  have few : authored.files.length + 2 < Packed.signLimit Packed.countWidth := by decide
  have paged : ({} : ContentSettings).maxPageSize ≠ some 0 := by decide
  have limit : 576 < Directory.positionLimit := by decide
  have short : package.body.length < Directory.positionLimit := by omega
  have same : (package.body.set 560 0).length = package.body.length := List.length_set
  rcases List.map_eq_singleton_iff.mp places with ⟨stored, single, place⟩
  simp only [Prod.mk.injEq] at place
  have member : stored ∈ package.key.files := by
    rw [single]
    exact List.mem_singleton.mpr rfl
  have inside : ∀ position, (package.body.set 560 0)[position]? ≠ package.body[position]? →
      ∃ stored ∈ package.key.files, stored.content.Covers position := by
    intro position differs
    have changed : 560 = position := by
      by_contra other
      exact differs (List.getElem?_set_ne other)
    refine ⟨stored, member, ?_⟩
    rw [Section.Covers, Section.stop, place.1, place.2, ← changed]
    decide
  have offers := MemoryStore.empty.offers_changeBody package (·.set 560 0)
  rcases build_tampered rfl files few built short verifies same inside offers paged
      with ⟨archive, cipher, opened, named, _, errors, _⟩
  cases named
  rcases errors stored member _ (refused stored member) with ⟨first, listed, fault, why, verified⟩
  rw [refused first listed] at why
  cases why
  exact ⟨package, rest, built, verifies, short, same, inside, archive, opened, verified⟩

end Missive
