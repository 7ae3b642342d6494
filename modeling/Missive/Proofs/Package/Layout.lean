import Mathlib.Data.List.Pairwise
import Missive.Proofs.Package.Sections
import Missive.Proofs.Package.Signing

/-!
# The layout of a package

The sections of a package tile its body: each begins where the one before it ends, the metadata
section first, and the last one ends with the body. So every byte of a body lies in a section, and
in one only. `Prepared.layout_of_write` says this of every package that is written, whatever it
was signed with, together with what each section records about its encryption and checksum.
-/

namespace Missive

/-! ### Consecutive sections -/

namespace Section

/-- Whether a position of a body lies in a section. -/
def Covers (described : Section) (position : Nat) : Prop :=
  described.offset.toNat ≤ position ∧ position < described.stop

/-- Two sections without a common position. -/
def Apart (described other : Section) : Prop :=
  described.stop ≤ other.offset.toNat ∨ other.stop ≤ described.offset.toNat

/-- Sections of which each begins where the one before it ends. -/
inductive Tile : (start : Nat) → List Section → (stop : Nat) → Prop
  | nil (start : Nat) : Tile start [] start
  | cons {described : Section} {later : List Section} {stop : Nat}
    (tiled : Tile described.stop later stop) :
    Tile described.offset.toNat (described :: later) stop

/-- Bodies that are the same wherever a section lies have the same section. -/
theorem bytesIn_congr {described : Section} {body altered : Bytes}
    (same : ∀ position, described.Covers position → altered[position]? = body[position]?) :
    described.bytesIn altered = described.bytesIn body := by
  apply List.ext_getElem?
  intro index
  rw [bytesIn, bytesIn, Bytes.slice, Bytes.slice, List.getElem?_take, List.getElem?_take,
    List.getElem?_drop, List.getElem?_drop]
  split
  · refine same _ ⟨Nat.le_add_right _ _, ?_⟩
    rw [stop]
    omega
  · rfl

theorem Covers.not_apart {described other : Section} {position : Nat}
    (covers : described.Covers position) (apart : described.Apart other) :
    ¬other.Covers position := by
  rintro ⟨begins, ends⟩
  rcases covers with ⟨beginsToo, endsToo⟩
  rcases apart with before | after
  · omega
  · omega

namespace Tile

variable {start stop : Nat} {sections : List Section}

theorem le_offset (tile : Tile start sections stop) :
    ∀ described ∈ sections, start ≤ described.offset.toNat := by
  induction tile with
  | nil => simp
  | cons tiled ih =>
      rename_i described later stop
      intro other member
      rcases List.mem_cons.mp member with rfl | member
      · exact Nat.le_refl _
      · exact Nat.le_trans described.offset_le_stop (ih other member)

theorem pairwise_apart (tile : Tile start sections stop) : sections.Pairwise Apart := by
  induction tile with
  | nil => exact .nil
  | cons tiled ih =>
      apply List.Pairwise.cons _ ih
      intro other member
      exact .inl (tiled.le_offset other member)

end Tile

end Section

/-! ### Sections that are written -/

/-- What a section records, if it was written with the given engines. -/
structure Section.Records (described : Section) (cipher : Cipher) (checksum : Option Checksum) :
    Prop where
  cipher : described.cipher.getD Cipher.none.name = cipher.name
  checksum : described.checksum = checksum.map Checksum.name

namespace SectionWriter

variable {σ : Type} {writer : SectionWriter σ}

/-- A section that has been appended. -/
structure Appends (writer : SectionWriter σ) (text body longer : Bytes) (written : Section) :
    Prop where
  holds : written.Holds .standard longer text
  records : written.Records writer.cipher writer.checksum
  begins : written.offset.toNat = body.length
  ends : written.stop = longer.length

theorem records_described (writer : SectionWriter σ) (key ciphertext body : Bytes) :
    (writer.described key ciphertext body).Records writer.cipher writer.checksum := by
  refine ⟨?_, rfl⟩
  cases shape : writer.cipher <;> simp [described, shape]

/-- What appending a section has done, if the longer body is still short enough. -/
theorem exists_of_append {parts : List Bytes} {body longer : Bytes} {state rest : σ}
    {written : Section} (appended : writer.append parts body state = .ok (written, longer, rest)) :
    ∃ ciphertext, longer = body ++ ciphertext ∧
      ciphertext.length = writer.cipher.storedLength parts.flatten.length ∧
      (longer.length < UInt64.size → writer.Appends parts.flatten body longer written) := by
  rw [append_eq] at appended
  cases appended
  have fits := writer.generator.length_draw writer.cipher.keyLength state
  have size := Cipher.length_ciphertextOf fits parts.flatten
  refine ⟨_, rfl, size, ?_⟩
  intro small
  rw [List.length_append] at small
  have begins : (UInt64.ofNat body.length).toNat = body.length :=
    UInt64.toNat_ofNat_of_lt' (by omega)
  refine ⟨holds_described fits (by omega), writer.records_described _ _ _, begins, ?_⟩
  have length := UInt64.toNat_ofNat_of_lt' (by omega :
    (writer.cipher.ciphertextOf (writer.generator.draw writer.cipher.keyLength state).1
      parts.flatten).length < UInt64.size)
  rw [Section.stop, described, begins, length, List.length_append]

theorem exists_of_appendFiles {files : List DraftFile} {body longer : Bytes} {state rest : σ}
    {written : List FileSection}
    (appended : writer.appendFiles files body state = .ok (written, longer, rest)) :
    ∃ more, longer = body ++ more ∧ more.length = writer.cipher.storedLengths files ∧
      (longer.length < UInt64.size →
        List.Forall₂ (·.StoredIn · longer) files written ∧
          Section.Tile body.length (written.map FileSection.content) longer.length ∧
          ∀ file ∈ written, file.content.Records writer.cipher writer.checksum) := by
  induction files generalizing body state written with
  | nil =>
      cases appended
      refine ⟨[], by rw [List.append_nil], rfl, ?_⟩
      intro _
      exact ⟨.nil, .nil _, fun _ member => nomatch member⟩
  | cons file files ih =>
      rw [appendFiles] at appended
      rcases bind_eq_ok_iff.mp appended with ⟨⟨content, middle, next⟩, first, appended⟩
      rcases bind_eq_ok_iff.mp appended with ⟨stored, made, appended⟩
      rcases bind_eq_ok_iff.mp appended with ⟨⟨others, last, final⟩, later, appended⟩
      cases appended
      have shape : stored = ⟨file.path, content⟩ := by
        rw [FileSection.make] at made
        split at made
        · cases made
          rfl
        · cases made
      subst shape
      have whole : [file.content].flatten = file.content := List.flatten_singleton
      rcases exists_of_append first with ⟨ciphertext, rfl, length, appends⟩
      rcases ih later with ⟨more, rfl, total, known⟩
      rw [whole] at length appends
      refine ⟨ciphertext ++ more, List.append_assoc _ _ _, ?_, ?_⟩
      · rw [List.length_append, length, total, Cipher.storedLengths]
      · intro small
        have shorter : (body ++ ciphertext).length < UInt64.size := by
          rw [List.length_append] at small
          omega
        rcases known small with ⟨storedLater, tile, recorded⟩
        have here := appends shorter
        refine ⟨.cons ⟨rfl, here.holds.append more⟩ storedLater, ?_, ?_⟩
        · rw [List.map_cons, ← here.begins]
          apply Section.Tile.cons
          rw [here.ends]
          exact tile
        · rw [List.forall_mem_cons]
          exact ⟨here.records, recorded⟩

end SectionWriter

/-! ### Engines of a reader -/

theorem Cipher.get_standard (cipher : Cipher) :
    Engines.standard.ciphers.get cipher.name = .ok cipher := by
  cases cipher <;> rfl

theorem Checksum.get_standard (checksum : Checksum) :
    Engines.standard.checksums.get checksum.name = .ok checksum := by
  cases checksum <;> rfl

/-- A section that is written is read by all engines that know its cipher and its checksum. -/
theorem Section.Holds.of_records {described : Section} {prepared : Prepared} {engines : Engines}
    {body text : Bytes} (holds : described.Holds .standard body text)
    (records : described.Records prepared.cipher prepared.checksum)
    (registered : prepared.Registered engines) : described.Holds engines body text := by
  have cipherFor : ∀ readers : Engines, readers.cipherFor described.cipher =
      readers.ciphers.get prepared.cipher.name := by
    intro readers
    rw [Engines.cipherFor, records.cipher]
  refine ⟨holds.inside, holds.valid, ?_, ?_⟩
  · rcases holds.decrypted with ⟨cipher, known, decrypted⟩
    rw [cipherFor, Cipher.get_standard] at known
    cases known
    exact ⟨_, (cipherFor engines).trans registered.cipher, decrypted⟩
  · intro name recorded
    rcases holds.checked name recorded with ⟨checksum, known, value⟩
    have named := recorded
    rw [records.checksum, Option.mem_def, Option.map_eq_some_iff] at named
    rcases named with ⟨used, chosen, rfl⟩
    rw [Checksum.get_standard] at known
    cases known
    exact ⟨_, registered.checksum _ chosen, value⟩

/-! ### Packages that are written -/

namespace Prepared

/-- How a package is laid out that was written from a prepared draft. -/
structure Layout (prepared : Prepared) (package : Package) : Prop where
  written : prepared.WrittenTo package
  tile : Section.Tile 0 package.key.sections package.body.length
  records : ∀ described ∈ package.key.sections,
    described.Records prepared.cipher prepared.checksum
  /-- The signer has signed the key without its signature. -/
  signed : ∀ signer ∈ prepared.signer, signer.signKey package.key.unsigned = .ok package.key

namespace Layout

variable {prepared : Prepared} {package : Package} {position : Nat}

theorem metadata_not_covers (layout : prepared.Layout package) {file : FileSection}
    (listed : file ∈ package.key.files) (covers : file.content.Covers position) :
    ¬package.key.metadata.Covers position := by
  have apart := layout.tile.pairwise_apart
  rw [PackageKey.sections, List.pairwise_cons] at apart
  intro header
  exact header.not_apart (apart.1 _ (List.mem_map_of_mem listed)) covers

end Layout

theorem signKey_eq_ok_iff {signer : Signer} {key result : PackageKey} :
    signer.signKey key = .ok result ↔
      ∃ signature, signer.sign (Record.encode key) = .ok signature ∧
        result = key.signed signer.signatureFormat.name signature := by
  rw [Signer.signKey, bind_eq_ok_iff]
  constructor
  · rintro ⟨signature, made, result⟩
    cases result
    exact ⟨signature, made, rfl⟩
  · rintro ⟨signature, made, rfl⟩
    exact ⟨signature, made, rfl⟩

theorem exists_of_write {σ : Type} {prepared : Prepared} {generator : Generator σ} {state rest : σ}
    {package : Package} (done : prepared.write generator state = .ok (package, rest)) :
    let writer : SectionWriter σ := ⟨prepared.cipher, prepared.checksum, generator⟩
    let header := Packed.header (prepared.signed.blobs.map List.length)
    ∃ front next,
      writer.append (header :: prepared.signed.blobs) [] state =
        .ok (package.key.metadata, front, next) ∧
      writer.appendFiles prepared.signed.files front next =
        .ok (package.key.files, package.body, rest) ∧
      package.record = prepared.signed.record ∧ Record.validate package.key = .ok () ∧
      ∀ signer ∈ prepared.signer, signer.signKey package.key.unsigned = .ok package.key := by
  intro writer header
  rcases bind_eq_ok_iff.mp done with ⟨⟨metadata, front, next⟩, first, done⟩
  rcases bind_eq_ok_iff.mp done with ⟨⟨files, body, final⟩, others, done⟩
  rcases bind_eq_ok_iff.mp done with ⟨unsigned, made, done⟩
  rcases Record.checked_eq_ok_iff.mp made with ⟨rfl, valid⟩
  cases author : prepared.signer with
  | none =>
      rw [author] at done
      cases done
      refine ⟨front, next, first, others, rfl, valid, ?_⟩
      intro signer member
      cases member
  | some signer =>
      rw [author] at done
      rcases bind_eq_ok_iff.mp done with ⟨key, keyed, done⟩
      rcases signKey_eq_ok_iff.mp keyed with ⟨signature, _, rfl⟩
      cases done
      refine ⟨front, next, first, others, rfl, PackageKey.validate_signed valid _ _, ?_⟩
      intro other member
      cases member
      exact keyed

/-- The layout of every package, if its body is short enough for its bytes to be counted. -/
theorem layout_of_write {σ : Type} {prepared : Prepared} {generator : Generator σ} {state rest : σ}
    {package : Package} (done : prepared.write generator state = .ok (package, rest))
    (small : package.body.length < UInt64.size) : prepared.Layout package := by
  rcases exists_of_write done with ⟨front, next, first, others, record, valid, signed⟩
  have packed : (Packed.header (prepared.signed.blobs.map List.length) ::
      prepared.signed.blobs).flatten = Packed.pack prepared.signed.blobs := List.flatten_cons
  rcases SectionWriter.exists_of_append first with ⟨ciphertext, shape, length, appends⟩
  rcases SectionWriter.exists_of_appendFiles others with ⟨more, whole, total, known⟩
  rw [List.nil_append] at shape
  subst shape
  rw [packed] at length appends
  have header := appends (by rw [whole, List.length_append] at small; omega)
  rcases known small with ⟨stored, tile, recorded⟩
  refine ⟨⟨record, ?_, valid, whole ▸ header.holds.append more, stored⟩, ?_, ?_, signed⟩
  · rw [whole, List.length_append, length, total, bodyLength]
  · have begins : package.key.metadata.offset.toNat = 0 := header.begins
    rw [← begins]
    apply Section.Tile.cons
    rw [header.ends]
    exact tile
  · intro described member
    rcases List.mem_cons.mp member with rfl | member
    · exact header.records
    · rcases List.mem_map.mp member with ⟨file, listed, rfl⟩
      exact recorded file listed

end Prepared

/-- A package that is built is laid out from what has been prepared of its draft. -/
theorem Draft.exists_layout_of_build {σ : Type} {draft : Draft} {engines : Engines}
    {generator : Generator σ} {state rest : σ} {package : Package}
    (built : draft.build engines generator state = .ok (package, rest))
    (small : package.body.length < UInt64.size) :
    ∃ prepared, draft.prepare engines = .ok prepared ∧ prepared.Layout package := by
  rcases bind_eq_ok_iff.mp built with ⟨prepared, made, written⟩
  exact ⟨prepared, made, Prepared.layout_of_write written small⟩

end Missive
