import Mathlib.Data.List.Forall2
import Missive.Package.Draft
import Missive.Proofs.Checksum.Pieces
import Missive.Proofs.Cipher.RoundTrip
import Missive.Proofs.Outcome
import Missive.Proofs.Package.Prepare

/-!
# Sections that hold a text

`Section.Holds` says that a described range of a body is the ciphertext of a text, with all that
is needed to read it back. Every section that is appended to a body holds what was written, and
goes on to hold it while further sections come after it. So a package holds the records of its
draft and the content of its files (`Prepared.exists_write`).
-/

namespace Missive

theorem exists_of_forall₂ {α β : Type} {related : α → β → Prop} {items : List α} {others : List β}
    (pairs : List.Forall₂ related items others) {item : α} (member : item ∈ items) :
    ∃ other ∈ others, related item other := by
  induction pairs with
  | nil => cases member
  | cons first _ ih =>
      rcases List.mem_cons.mp member with rfl | later
      · exact ⟨_, List.mem_cons_self, first⟩
      · rcases ih later with ⟨found, listed, holds⟩
        exact ⟨found, List.mem_cons_of_mem _ listed, holds⟩

/-- The bytes of a section in a body. -/
def Section.bytesIn (described : Section) (body : Bytes) : Bytes :=
  body.slice described.offset.toNat described.length.toNat

/-- A section that lies in a body and holds a text there. -/
structure Section.Holds (described : Section) (engines : Engines) (body text : Bytes) : Prop where
  inside : described.stop ≤ body.length
  valid : described.validate = .ok ()
  decrypted : ∃ cipher, engines.cipherFor described.cipher = .ok cipher ∧
    cipher.textOf? described.key (described.bytesIn body) = some text
  checked : ∀ name ∈ described.checksum, ∃ checksum, engines.checksums.get name = .ok checksum ∧
    described.checksumValue = some (checksum.compute (described.bytesIn body))

theorem Section.validate_eq_ok_iff {described : Section} :
    described.validate = .ok () ↔ ¬(described.cipher.isNone ∧ described.keyData.isSome) ∧
      described.checksum.isSome = described.checksumValue.isSome ∧
      described.stop < UInt64.size := by
  simp only [validate, guard_eq_ok_iff, guard_eq_ok_iff', Decidable.not_not, Nat.not_le, ne_eq]

/-- What a section holds depends on its own bytes only. -/
theorem Section.Holds.of_bytesIn {described : Section} {engines : Engines}
    {body altered text : Bytes} (holds : described.Holds engines body text)
    (inside : described.stop ≤ altered.length)
    (same : described.bytesIn altered = described.bytesIn body) :
    described.Holds engines altered text := by
  refine ⟨inside, holds.valid, ?_, ?_⟩
  · rw [same]
    exact holds.decrypted
  · rw [same]
    exact holds.checked

theorem Section.Holds.append {described : Section} {engines : Engines} {body text : Bytes}
    (holds : described.Holds engines body text) (more : Bytes) :
    described.Holds engines (body ++ more) text := by
  have inside := holds.inside
  rw [Section.stop] at inside
  have same : described.bytesIn (body ++ more) = described.bytesIn body := by
    rw [bytesIn, Bytes.slice, List.drop_append_of_le_length (by omega),
      List.take_append_of_le_length (by rw [List.length_drop]; omega)]
    rfl
  refine holds.of_bytesIn ?_ same
  rw [Section.stop, List.length_append]
  omega

theorem Section.length_bytesIn {described : Section} {body : Bytes}
    (inside : described.stop ≤ body.length) :
    (described.bytesIn body).length = described.length.toNat := by
  rw [Section.stop] at inside
  rw [bytesIn, Bytes.slice, List.length_take, List.length_drop]
  omega

/-- The length of the sections of some files. -/
def Cipher.storedLengths (cipher : Cipher) : List DraftFile → Nat
  | [] => 0
  | file :: files => cipher.storedLength file.content.length + cipher.storedLengths files

/-- A section that holds the content of a file, under its path. -/
structure DraftFile.StoredIn (file : DraftFile) (stored : FileSection) (body : Bytes) : Prop where
  path : stored.path = file.path
  holds : stored.content.Holds .standard body file.content

namespace DraftFile

variable {files : List DraftFile} {written : List FileSection} {body : Bytes}

theorem paths_of_storedIn
    (stored : List.Forall₂ (·.StoredIn · body) files written) :
    written.map FileSection.path = files.map DraftFile.path := by
  induction stored with
  | nil => rfl
  | cons first _ ih => rw [List.map_cons, List.map_cons, first.path, ih]

end DraftFile

/-- Among items with different names each is found under its own. -/
theorem find?_of_nodup {α β : Type} [DecidableEq β] {name : α → β} {items : List α} {item : α}
    (distinct : (items.map name).Nodup) (member : item ∈ items) :
    (items.find? fun other => name other = name item) = some item := by
  induction items with
  | nil => cases member
  | cons first items ih =>
      rw [List.map_cons, List.nodup_cons] at distinct
      rcases List.mem_cons.mp member with rfl | later
      · exact List.find?_cons_of_pos (decide_eq_true rfl)
      · have other : name first ≠ name item := by
          intro same
          exact distinct.1 (same ▸ List.mem_map_of_mem later)
        rw [List.find?_cons_of_neg (by simpa using other)]
        exact ih distinct.2 later

namespace SectionWriter

variable {σ : Type}

/-- What is recorded about a section that is written. -/
def described (writer : SectionWriter σ) (key ciphertext body : Bytes) : Section where
  offset := UInt64.ofNat body.length
  length := UInt64.ofNat ciphertext.length
  cipher := if writer.cipher = .none then none else some writer.cipher.name
  keyData := if writer.cipher = .none then none else some key
  checksum := writer.checksum.map Checksum.name
  checksumValue := writer.checksum.map (·.compute ciphertext)

theorem append_eq (writer : SectionWriter σ) (parts : List Bytes) (body : Bytes) (state : σ) :
    let draw := writer.generator.draw writer.cipher.keyLength state
    let ciphertext := writer.cipher.ciphertextOf draw.1 parts.flatten
    writer.append parts body state =
      .ok (writer.described draw.1 ciphertext body, body ++ ciphertext, draw.2) := by
  intro draw ciphertext
  have fits : draw.1.length = writer.cipher.keyLength := writer.generator.length_draw _ _
  have finished : ∀ input ∈ parts.map ByteStream.ofBytes, input.ending = .finished := by
    simp
  have whole : ((parts.map ByteStream.ofBytes).map ByteStream.content).flatten = parts.flatten := by
    simp [Function.comp_def]
  rcases Cipher.encryptStreams_of_finished fits finished
    (writer.checksum.toList.map Checksum.start) with ⟨view, _, content, encrypted⟩
  rw [whole] at content
  have observed : ∀ checksum : Checksum,
      (checksum.start.observe view).value = checksum.compute ciphertext := by
    intro checksum
    rw [checksum.value_observe, content]
  simp only [append, draw, encrypted, content]
  cases shape : writer.checksum with
  | none =>
      by_cases clear : writer.cipher = .none
      · simp [described, shape, clear, ciphertext, draw, Section.plain, pure, Except.pure]
      · simp [described, shape, clear, ciphertext, draw, Section.plain, Section.withCipher, pure,
          Except.pure]
  | some checksum =>
      by_cases clear : writer.cipher = .none
      · simp [described, shape, clear, ciphertext, draw, observed, Section.plain,
          Section.withChecksum, pure, Except.pure]
      · simp [described, shape, clear, ciphertext, draw, observed, Section.plain,
          Section.withCipher, Section.withChecksum, pure, Except.pure]

theorem holds_described {writer : SectionWriter σ} {key text body : Bytes}
    (fits : key.length = writer.cipher.keyLength)
    (small : body.length + writer.cipher.storedLength text.length < UInt64.size) :
    let ciphertext := writer.cipher.ciphertextOf key text
    (writer.described key ciphertext body).Holds .standard (body ++ ciphertext) text := by
  intro ciphertext
  have size : ciphertext.length = writer.cipher.storedLength text.length :=
    Cipher.length_ciphertextOf fits text
  have offset : (writer.described key ciphertext body).offset.toNat = body.length :=
    UInt64.toNat_ofNat_of_lt' (by omega)
  have length : (writer.described key ciphertext body).length.toNat = ciphertext.length :=
    UInt64.toNat_ofNat_of_lt' (by omega)
  have stored : (writer.described key ciphertext body).bytesIn (body ++ ciphertext) =
      ciphertext := by
    rw [Section.bytesIn, offset, length, Bytes.slice, List.drop_left, List.take_length]
  refine ⟨?_, ?_, ?_, ?_⟩
  · exact Nat.le_of_eq (by rw [Section.stop, offset, length, List.length_append])
  · have bounded : ¬UInt64.size ≤ (writer.described key ciphertext body).stop := by
      rw [Section.stop, offset, length]
      omega
    refine Section.validate_eq_ok_iff.mpr ⟨?_, ?_, Nat.not_le.mp bounded⟩
    · by_cases clear : writer.cipher = .none <;> simp [described, clear]
    · cases shape : writer.checksum <;> simp [described, shape]
  · rw [stored]
    have decrypted : writer.cipher.textOf? key ciphertext = some text :=
      Cipher.textOf?_ciphertextOf fits text
    cases shape : writer.cipher with
    | none =>
        rw [shape] at decrypted
        simp only [described, shape, if_true, Section.key]
        exact ⟨.none, rfl, decrypted⟩
    | counter =>
        rw [shape] at decrypted
        simp only [described, shape, reduceCtorEq, if_false, Section.key]
        exact ⟨.counter, rfl, decrypted⟩
    | chaining =>
        rw [shape] at decrypted
        simp only [described, shape, reduceCtorEq, if_false, Section.key]
        exact ⟨.chaining, rfl, decrypted⟩
  · rw [stored]
    intro name recorded
    cases shape : writer.checksum with
    | none => simp [described, shape] at recorded
    | some checksum =>
        simp only [described, shape, Option.map_some, Option.mem_some] at recorded
        refine ⟨checksum, ?_, by simp [described, shape]⟩
        rw [← recorded]
        cases checksum <;> rfl

/-- A part that is appended is held there, and nothing before it changes. -/
theorem exists_append (writer : SectionWriter σ) (parts : List Bytes) (body : Bytes) (state : σ)
    (small : body.length + writer.cipher.storedLength parts.flatten.length < UInt64.size) :
    ∃ written ciphertext rest,
      writer.append parts body state = .ok (written, body ++ ciphertext, rest) ∧
      ciphertext.length = writer.cipher.storedLength parts.flatten.length ∧
      written.Holds .standard (body ++ ciphertext) parts.flatten := by
  have fits := writer.generator.length_draw writer.cipher.keyLength state
  exact ⟨_, _, _, writer.append_eq parts body state, Cipher.length_ciphertextOf fits _,
    holds_described fits small⟩

theorem exists_appendFiles (writer : SectionWriter σ) (files : List DraftFile) (body : Bytes)
    (state : σ) (paths : ∀ file ∈ files, Path.validate file.path = .ok ())
    (small : body.length + writer.cipher.storedLengths files < UInt64.size) :
    ∃ written more rest,
      writer.appendFiles files body state = .ok (written, body ++ more, rest) ∧
      more.length = writer.cipher.storedLengths files ∧
      List.Forall₂ (·.StoredIn · (body ++ more)) files written := by
  induction files generalizing body state with
  | nil => exact ⟨[], [], state, by rw [List.append_nil]; rfl, rfl, .nil⟩
  | cons file files ih =>
      rw [Cipher.storedLengths] at small
      rw [List.forall_mem_cons] at paths
      have whole : [file.content].flatten = file.content := List.flatten_singleton
      rcases exists_append writer [file.content] body state (by rw [whole]; omega)
          with ⟨content, ciphertext, later, appended, length, holds⟩
      rw [whole] at length holds
      rcases ih (body ++ ciphertext) later paths.2 (by rw [List.length_append, length]; omega)
          with ⟨written, more, rest, others, total, stored⟩
      refine ⟨⟨file.path, content⟩ :: written, ciphertext ++ more, rest, ?_, ?_, ?_⟩
      · simp only [appendFiles, appended, FileSection.make, paths.1, others, bind, Except.bind,
          pure, Except.pure, List.append_assoc]
      · rw [List.length_append, length, total, Cipher.storedLengths]
      · rw [← List.append_assoc]
        exact .cons ⟨rfl, holds.append more⟩ stored

end SectionWriter

/-! ### Packages -/

namespace PackageKey

theorem validate_eq_ok_iff {key : PackageKey} :
    key.validate = .ok () ↔ (∀ described ∈ key.sections, described.validate = .ok ()) ∧
      Path.validateAll (key.files.map FileSection.path) = .ok () ∧
      key.signatureFormat.isSome = key.signature.isSome := by
  simp only [validate, bind_unit_eq_ok_iff, forM_eq_ok_iff, guard_eq_ok_iff', ne_eq,
    Decidable.not_not]

theorem validate_signed {key : PackageKey} (valid : key.validate = .ok ()) (format : String)
    (signature : Bytes) : (key.signed format signature).validate = .ok () := by
  rw [validate_eq_ok_iff] at valid ⊢
  exact ⟨valid.1, valid.2.1, rfl⟩

end PackageKey

namespace Prepared

/-- The length of the body of a package. -/
def bodyLength (prepared : Prepared) : Nat :=
  prepared.cipher.storedLength (Packed.pack prepared.signed.blobs).length +
    prepared.cipher.storedLengths prepared.signed.files

/-- A package that holds what was prepared, under a valid key. -/
structure WrittenTo (prepared : Prepared) (package : Package) : Prop where
  record : package.record = prepared.signed.record
  length : package.body.length = prepared.bodyLength
  valid : Record.validate package.key = .ok ()
  metadata : package.key.metadata.Holds .standard package.body
    (Packed.pack prepared.signed.blobs)
  files : List.Forall₂ (·.StoredIn · package.body) prepared.signed.files package.key.files

theorem WrittenTo.exists_holds {prepared : Prepared} {package : Package}
    (written : prepared.WrittenTo package) :
    ∀ described ∈ package.key.sections, ∃ text, described.Holds .standard package.body text := by
  intro described member
  rcases List.mem_cons.mp member with rfl | member
  · exact ⟨_, written.metadata⟩
  · rcases List.mem_map.mp member with ⟨file, listed, rfl⟩
    rcases exists_of_forall₂ written.files.flip listed with ⟨original, _, stored⟩
    exact ⟨_, stored.holds⟩

theorem WrittenTo.signed {prepared : Prepared} {package : Package}
    (written : prepared.WrittenTo package) (format : String) (signature : Bytes) :
    prepared.WrittenTo { package with key := package.key.signed format signature } :=
  ⟨written.record, written.length, PackageKey.validate_signed written.valid format signature,
    written.metadata, written.files⟩

/-- A section that holds something is valid, so the sections of a package can stand in a key. -/
theorem validate_key_of_holds {prepared : Prepared} {metadata : Section}
    {written : List FileSection} {body text : Bytes}
    (paths : Path.validateAll (prepared.signed.files.map DraftFile.path) = .ok ())
    (header : metadata.Holds .standard body text)
    (stored : List.Forall₂ (·.StoredIn · body) prepared.signed.files written) :
    PackageKey.validate ⟨metadata, written, none, none⟩ = .ok () := by
  refine PackageKey.validate_eq_ok_iff.mpr ⟨?_, ?_, rfl⟩
  · intro described member
    rcases List.mem_cons.mp member with rfl | member
    · exact header.valid
    · rcases List.mem_map.mp member with ⟨file, listed, rfl⟩
      rcases exists_of_forall₂ stored.flip listed with ⟨original, _, holds⟩
      exact holds.holds.valid
  · exact DraftFile.paths_of_storedIn stored ▸ paths

/-- What is prepared can be written, unless its body is longer than a position can count. -/
theorem exists_write {σ : Type} {prepared : Prepared} {draft : Draft} (keeps : prepared.Keeps draft)
    (validated : draft.validate = .ok ()) (small : prepared.bodyLength < UInt64.size)
    (generator : Generator σ) (state : σ) :
    ∃ package rest, prepared.write generator state = .ok (package, rest) ∧
      prepared.WrittenTo package := by
  rcases Draft.validate_eq_ok_iff.mp validated with ⟨valid, distinct, _⟩
  have paths : Path.validateAll (prepared.signed.files.map DraftFile.path) = .ok () := by
    rw [keeps.carries.paths]
    exact Path.validateAll_eq_ok_iff.mpr ⟨List.forall_mem_map.mpr valid, distinct⟩
  have packed : (Packed.header (prepared.signed.blobs.map List.length) ::
      prepared.signed.blobs).flatten = Packed.pack prepared.signed.blobs := List.flatten_cons
  rw [bodyLength] at small
  have room : ([] : Bytes).length + prepared.cipher.storedLength
      (Packed.header (prepared.signed.blobs.map List.length) ::
        prepared.signed.blobs).flatten.length < UInt64.size := by
    rw [packed, List.length_nil]
    omega
  rcases SectionWriter.exists_append ⟨prepared.cipher, prepared.checksum, generator⟩ _ [] state
      room with ⟨metadata, ciphertext, later, first, length, header⟩
  rw [packed] at length header
  rw [List.nil_append] at first header
  rcases SectionWriter.exists_appendFiles ⟨prepared.cipher, prepared.checksum, generator⟩
      prepared.signed.files ciphertext later
      (List.forall_mem_map.mp (Path.validateAll_eq_ok_iff.mp paths).1) (by rw [length]; omega)
      with ⟨written, more, rest, others, total, stored⟩
  have checked : PackageKey.make metadata written = .ok ⟨metadata, written, none, none⟩ :=
    Record.checked_eq_ok_iff.mpr ⟨rfl, validate_key_of_holds paths (header.append more) stored⟩
  have unsigned : prepared.WrittenTo
      ⟨prepared.signed.record, ciphertext ++ more, ⟨metadata, written, none, none⟩⟩ := by
    refine ⟨rfl, ?_, ?_, header.append more, stored⟩
    · rw [List.length_append, length, total, bodyLength]
    · exact validate_key_of_holds paths (header.append more) stored
  cases author : prepared.signer with
  | none =>
      refine ⟨_, rest, ?_, unsigned⟩
      simp only [write, first, others, checked, author, bind, Except.bind, pure,
        Except.pure]
  | some signer =>
      rcases keeps.signer signer author ⟨metadata, written, none, none⟩
          with ⟨format, signature, signed⟩
      refine ⟨_, rest, ?_, unsigned.signed format signature⟩
      simp only [write, first, others, checked, author, signed, bind, Except.bind, pure,
        Except.pure]

end Prepared

end Missive
