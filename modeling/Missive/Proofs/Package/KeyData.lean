import Missive.Proofs.Package.Layout
import Missive.Proofs.Package.Lossless

/-!
# What a key says about a package

The key of a package is enough to open it: every section is described by the place of its
ciphertext, by the key data that open it, and by the checksum of the stored bytes. The key data of
all sections, put together in their order, are one run of the generator
(`Prepared.draws_of_write`), so no byte of it serves twice. `Draft.build_describes` says this of
every package that is built, together with the records that stand in the metadata section.
-/

namespace Missive

theorem Section.Tile.stop_le {start stop : Nat} {sections : List Section}
    (tile : Tile start sections stop) :
    start ≤ stop ∧ ∀ described ∈ sections, described.stop ≤ stop := by
  induction tile with
  | nil => exact ⟨Nat.le_refl _, nofun⟩
  | @cons described later stop _ ih =>
      exact ⟨Nat.le_trans described.offset_le_stop ih.1, List.forall_mem_cons.mpr ih⟩

/-! ### Sections with key data of their own -/

/-- What a section records about its encryption, if it was written with a cipher. -/
structure Section.Encrypted (described : Section) (cipher : Cipher) : Prop where
  name : described.cipher = if cipher = .none then none else some cipher.name
  keyData : described.keyData = if cipher = .none then none else some described.key
  fits : described.key.length = cipher.keyLength

namespace SectionWriter

variable {σ : Type} {writer : SectionWriter σ}

theorem key_described {key : Bytes} (fits : key.length = writer.cipher.keyLength)
    (ciphertext body : Bytes) : (writer.described key ciphertext body).key = key := by
  by_cases clear : writer.cipher = .none
  · rw [clear] at fits
    simp [described, Section.key, clear, List.length_eq_zero_iff.mp fits]
  · simp [described, Section.key, clear]

theorem draw_of_append {parts : List Bytes} {body longer : Bytes} {state rest : σ}
    {written : Section} (appended : writer.append parts body state = .ok (written, longer, rest)) :
    written.Encrypted writer.cipher ∧
      writer.generator.draw writer.cipher.keyLength state = (written.key, rest) := by
  rw [append_eq] at appended
  cases appended
  have fits := writer.generator.length_draw writer.cipher.keyLength state
  have key := key_described fits (writer.cipher.ciphertextOf
    (writer.generator.draw writer.cipher.keyLength state).1 parts.flatten) body
  refine ⟨⟨rfl, ?_, ?_⟩, ?_⟩
  · rw [key]
    rfl
  · rw [key, fits]
  · rw [key]

theorem draws_of_appendFiles {files : List DraftFile} {body longer : Bytes} {state rest : σ}
    {written : List FileSection}
    (appended : writer.appendFiles files body state = .ok (written, longer, rest)) :
    (∀ file ∈ written, file.content.Encrypted writer.cipher) ∧
      writer.generator.draw (writer.cipher.keyLength * written.length) state =
        ((written.map fun file => file.content.key).flatten, rest) := by
  induction files generalizing body state written with
  | nil =>
      cases appended
      exact ⟨nofun, rfl⟩
  | cons file files ih =>
      rw [appendFiles] at appended
      rcases bind_eq_ok_iff.mp appended with ⟨⟨content, middle, next⟩, first, appended⟩
      rcases bind_eq_ok_iff.mp appended with ⟨stored, made, appended⟩
      rcases bind_eq_ok_iff.mp appended with ⟨⟨others, last, final⟩, later, appended⟩
      cases appended
      rw [FileSection.make] at made
      split at made
      · cases made
        rcases draw_of_append first with ⟨encrypted, drawn⟩
        rcases ih later with ⟨encryptedToo, drawnLater⟩
        refine ⟨List.forall_mem_cons.mpr ⟨encrypted, encryptedToo⟩, ?_⟩
        rw [List.length_cons, Nat.mul_succ, Nat.add_comm, Generator.draw_add, drawn, drawnLater,
          List.map_cons, List.flatten_cons]
      · cases made

end SectionWriter

/-- The key data of a package are one run of the generator, in the order of the sections. -/
theorem Prepared.draws_of_write {σ : Type} {prepared : Prepared} {generator : Generator σ}
    {state rest : σ} {package : Package}
    (done : prepared.write generator state = .ok (package, rest)) :
    (∀ described ∈ package.key.sections, described.Encrypted prepared.cipher) ∧
      generator.draw (prepared.cipher.keyLength * package.key.sections.length) state =
        ((package.key.sections.map Section.key).flatten, rest) := by
  rcases exists_of_write done with ⟨front, next, first, others, _⟩
  rcases SectionWriter.draw_of_append first with ⟨encrypted, drawn⟩
  rcases SectionWriter.draws_of_appendFiles others with ⟨encryptedToo, drawnLater⟩
  refine ⟨?_, ?_⟩
  · rw [PackageKey.sections, List.forall_mem_cons, List.forall_mem_map]
    exact ⟨encrypted, encryptedToo⟩
  · rw [PackageKey.sections, List.length_cons, List.length_map, Nat.mul_succ, Nat.add_comm,
      Generator.draw_add, drawn, drawnLater, List.map_cons, List.flatten_cons, List.map_map]
    rfl

/-! ### Sections that are described -/

/-- What a section says about a text that is stored in a body. -/
structure Section.Describes (described : Section) (cipher : Cipher) (checksum : Option Checksum)
    (body text : Bytes) : Prop where
  encrypted : described.Encrypted cipher
  decrypts : cipher.decrypt described.key (described.bytesIn body) = .ok text
  name : described.checksum = checksum.map Checksum.name
  value : described.checksumValue = checksum.map (·.compute (described.bytesIn body))

theorem Section.Holds.describes {described : Section} {body text : Bytes} {cipher : Cipher}
    {checksum : Option Checksum} (holds : described.Holds .standard body text)
    (records : described.Records cipher checksum) (encrypted : described.Encrypted cipher) :
    described.Describes cipher checksum body text := by
  refine ⟨encrypted, ?_, records.checksum, ?_⟩
  · rcases holds.decrypted with ⟨used, known, decrypted⟩
    rw [Engines.cipherFor, records.cipher, Cipher.get_standard] at known
    cases known
    exact Cipher.decrypt_eq_ok_iff.mpr decrypted
  · cases checksum with
    | none =>
        have paired := (validate_eq_ok_iff.mp holds.valid).2.1
        rw [records.checksum] at paired
        exact Option.isNone_iff_eq_none.mp (by simpa using paired.symm)
    | some used =>
        rcases holds.checked used.name records.checksum with ⟨found, known, value⟩
        rw [Checksum.get_standard] at known
        cases known
        exact value

/-- A key that describes some texts in a body, one after the other and without a gap. -/
structure PackageKey.Describes (key : PackageKey) (cipher : Cipher) (checksum : Option Checksum)
    (body : Bytes) (texts : List Bytes) : Prop where
  tile : Section.Tile 0 key.sections body.length
  apart : key.sections.Pairwise Section.Apart
  within : key.checkWithin body.length = .ok ()
  sections : List.Forall₂ (·.Describes cipher checksum body) key.sections texts

/-! ### Records that are stored -/

/-- The records that are stored of a draft, with the signature on that of the message. -/
inductive Draft.Stores (draft : Draft) (engines : Engines) :
    MessageRecord → (signature : Bytes) → List FileRecord → Prop
  /-- Without an identity, the records are stored as they are. -/
  | unsigned (anonymous : draft.identity = none) :
    Stores draft engines draft.record [] (draft.files.map DraftFile.record)
  /-- The record names the author, and is signed; each file carries a signature of its content. -/
  | signed {identity : Identity} {signer : Signer} {record : MessageRecord} {signature : Bytes}
    {files : List FileRecord} (author : draft.identity = some identity)
    (found : Signer.resolve engines identity draft.keyFormat = .ok signer)
    (stamped : signer.stamp draft.record = .ok record)
    (marked : signer.sign (Record.encode record) = .ok signature)
    (marks : List.Forall₂ (fun file stored => ∃ mark, signer.sign file.content = .ok mark ∧
      stored = file.record.signed signer.signatureFormat.name mark) draft.files files) :
    Stores draft engines record signature files

theorem Draft.stores_of_prepare {draft : Draft} {engines : Engines} {prepared : Prepared}
    (made : draft.prepare engines = .ok prepared) :
    draft.Stores engines prepared.signed.record prepared.signed.signature
        (prepared.signed.files.map DraftFile.record) ∧
      prepared.signed.files.map DraftFile.plain = draft.files.map DraftFile.plain := by
  rcases exists_of_prepare made with ⟨_, _, _, resolved, stored⟩
  cases author : draft.identity with
  | none =>
      rw [author] at resolved
      rw [← Except.ok.inj resolved] at stored
      rw [← Except.ok.inj stored]
      exact ⟨.unsigned author, rfl⟩
  | some identity =>
      rw [author] at resolved
      rcases bind_eq_ok_iff.mp resolved with ⟨signer, found, resolved⟩
      rw [← Except.ok.inj resolved] at stored
      rcases bind_eq_ok_iff.mp stored with ⟨record, stamped, stored⟩
      rcases bind_eq_ok_iff.mp stored with ⟨files, others, stored⟩
      rcases bind_eq_ok_iff.mp stored with ⟨signature, marked, stored⟩
      rw [← Except.ok.inj stored]
      refine ⟨.signed author found stamped marked ?_, (Signer.exists_of_signFiles others).1⟩
      rw [List.forall₂_map_right_iff]
      refine (forall₂_of_mapM others).imp ?_
      intro file written done
      rcases Signer.exists_of_signFile done with ⟨mark, made, rfl⟩
      exact ⟨mark, made, rfl⟩

/-! ### Packages that are built -/

theorem Prepared.Layout.describes {prepared : Prepared} {package : Package}
    (layout : prepared.Layout package)
    (encrypted : ∀ described ∈ package.key.sections, described.Encrypted prepared.cipher)
    (small : package.body.length < UInt64.size) :
    package.key.Describes prepared.cipher prepared.checksum package.body
      (Packed.pack prepared.signed.blobs :: prepared.signed.files.map DraftFile.content) := by
  refine ⟨layout.tile, layout.tile.pairwise_apart, ?_, ?_⟩
  · refine forM_eq_ok_iff.mpr ?_
    intro described member
    have bounded := layout.tile.stop_le.2 described member
    exact if_pos ⟨by omega, bounded⟩
  · have known : ∀ described ∈ package.key.sections,
        described.Records prepared.cipher prepared.checksum ∧
          described.Encrypted prepared.cipher := by
      intro described member
      exact ⟨layout.records described member, encrypted described member⟩
    rw [PackageKey.sections, List.forall_mem_cons, List.forall_mem_map] at known
    refine .cons (layout.written.metadata.describes known.1.1 known.1.2) ?_
    rw [List.forall₂_map_left_iff, List.forall₂_map_right_iff]
    have pairs := (List.forall₂_and_left _ _).mpr ⟨known.2, layout.written.files.flip⟩
    refine pairs.imp ?_
    rintro stored file ⟨⟨records, encrypted⟩, holds⟩
    exact holds.holds.describes records encrypted

/--
Every package that is built is described by its key, provided that its body is short enough for
its bytes to be counted: the metadata section holds the stored records, and the sections of the
files hold their contents. All key data are consecutive draws.
-/
theorem Draft.build_describes {σ : Type} {draft : Draft} {engines : Engines}
    {generator : Generator σ} {state rest : σ} {package : Package}
    (built : draft.build engines generator state = .ok (package, rest))
    (small : package.body.length < UInt64.size) :
    ∃ cipher checksum signature records,
      engines.ciphers.get draft.cipher = .ok cipher ∧
      draft.checksum.mapM engines.checksums.get = .ok checksum ∧
      draft.Stores engines package.record signature records ∧
      package.key.files.map FileSection.path = draft.files.map DraftFile.path ∧
      package.key.Describes cipher checksum package.body
        (Packed.pack (Record.encode package.record :: signature :: records.map Record.encode) ::
          draft.files.map DraftFile.content) ∧
      generator.draw (cipher.keyLength * package.key.sections.length) state =
        ((package.key.sections.map Section.key).flatten, rest) := by
  rcases bind_eq_ok_iff.mp built with ⟨prepared, made, written⟩
  have layout := Prepared.layout_of_write written small
  rcases Prepared.draws_of_write written with ⟨encrypted, drawn⟩
  rcases exists_of_prepare made with ⟨_, cipher, checksum, _, _⟩
  rcases stores_of_prepare made with ⟨stores, plain⟩
  have paths := congrArg (List.map Prod.fst) plain
  have contents := congrArg (List.map Prod.snd) plain
  rw [List.map_map, List.map_map] at paths contents
  have describes := layout.describes encrypted small
  rw [Signed.blobs, ← layout.written.record] at describes
  rw [← layout.written.record] at stores
  refine ⟨prepared.cipher, prepared.checksum, prepared.signed.signature, _, cipher, checksum,
    stores, ?_, ?_, drawn⟩
  · rw [DraftFile.paths_of_storedIn layout.written.files]
    exact paths
  · have texts : prepared.signed.files.map DraftFile.content =
        draft.files.map DraftFile.content := contents
    rw [← texts, List.map_map]
    exact describes

/-- Three sections in cipher block chaining, under 144 bytes of a generator that counts up. -/
theorem Draft.build_describes_sample :
    ∃ package rest, sample.build .standard ⟨fun byte => (byte, byte + 1)⟩ 0 = .ok (package, rest) ∧
      package.body.length < UInt64.size ∧
      (package.key.sections.map Section.key).flatten = (List.range 144).map UInt8.ofNat ∧
      rest = 144 ∧
      ∃ texts, package.key.Describes .chaining (some .crc32) package.body
        (texts :: [[1, 2, 3], []]) := by
  have built : (sample.build .standard ⟨fun byte => (byte, byte + 1)⟩ (0 : UInt8)).toOption.map
      (fun outcome => (outcome.1.body.length, outcome.1.key.sections.length)) = some (256, 3) := by
    decide +kernel
  rcases Option.map_eq_some_iff.mp built with ⟨⟨package, rest⟩, known, shape⟩
  rcases Prod.mk.inj shape with ⟨length, count⟩
  have written := eq_ok_of_toOption known
  have small : package.body.length < UInt64.size := by
    rw [length]
    decide
  rcases build_describes written small
    with ⟨cipher, checksum, signature, records, named, summed, _, _, describes, drawn⟩
  have chaining : cipher = .chaining := by
    cases named
    rfl
  have crc : checksum = some .crc32 := by
    cases summed
    rfl
  subst chaining crc
  rw [count] at drawn
  have keys := (congrArg Prod.fst drawn).symm
  have final := (congrArg Prod.snd drawn).symm
  exact ⟨package, rest, written, small, keys.trans (by decide +kernel),
    final.trans (by decide +kernel), _, describes⟩

end Missive
