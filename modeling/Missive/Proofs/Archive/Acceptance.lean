import Missive.Proofs.Archive.OnePass
import Missive.Proofs.Package.Layout
import Missive.Proofs.Packed.Canonical
import Missive.Proofs.Record.Key
import Missive.Proofs.Record.RoundTrip

/-!
# Keys that are accepted

A section that holds a text is read as this text (`BodyReader.readAll_of_holds`). So the key of a
package is accepted wherever the metadata section holds the records of the package, whatever the
rest of the body is (`Archive.tryKey_of_holds`); and if a source offers a single key, the message
stands or falls with it.
-/

namespace Missive

/-! ### Sections that hold a text -/

namespace BodyReader

variable {reader : BodyReader} {described : Section} {body key text : Bytes} {verify : Bool}
  {label : String}

theorem readAll_of_holds (offers : reader.source.Offers reader.number body key)
    (holds : described.Holds reader.engines body text) (verify : Bool) (label : String) :
    reader.readAll verify label described = .ok text := by
  rcases holds.decrypted with ⟨cipher, known, decrypted⟩
  rw [readAll_eq_ok_iff offers holds.inside]
  refine ⟨⟨cipher, known, Cipher.decrypt_eq_ok_iff.mpr decrypted⟩, ?_⟩
  cases verify with
  | false => exact ⟨none, rfl, rfl⟩
  | true =>
      cases shape : described.checksum with
      | none => exact ⟨none, by simp only [checksumFor, shape]; rfl, rfl⟩
      | some name =>
          rcases holds.checked name shape with ⟨checksum, found, value⟩
          refine ⟨some checksum, ?_, ?_⟩
          · simp only [checksumFor, shape, found]
            rfl
          · simp only [compareSum, value, if_pos]

end BodyReader

/-! ### Records in the metadata section -/

theorem Cipher.length_le_storedLength (cipher : Cipher) (length : Nat) :
    length ≤ cipher.storedLength length := by
  cases cipher with
  | none => exact Nat.le_refl length
  | counter => exact Nat.le_refl length
  | chaining =>
      rw [storedLength, Block.size]
      omega

namespace Prepared

variable {prepared : Prepared} {draft : Draft} {package : Package}

theorem WrittenTo.checkWithin (written : prepared.WrittenTo package)
    (short : prepared.bodyLength < UInt64.size) :
    package.key.checkWithin package.body.length = .ok () := by
  refine forM_eq_ok_iff.mpr ?_
  intro described member
  rcases written.exists_holds described member with ⟨_, holds⟩
  have bounded := written.length ▸ holds.inside
  exact if_pos ⟨by omega, holds.inside⟩

theorem unpack_blobs
    (few : prepared.signed.files.length + 2 < Packed.signLimit Packed.countWidth)
    (short : prepared.bodyLength < Directory.positionLimit) :
    Packed.unpack (Packed.pack prepared.signed.blobs) = .ok prepared.signed.blobs := by
  have shorter :=
    prepared.cipher.length_le_storedLength (Packed.pack prepared.signed.blobs).length
  have limit : Directory.positionLimit = Packed.signLimit Packed.lengthWidth := by decide
  rw [bodyLength] at short
  refine Packed.unpack_pack ?_ (by omega)
  rw [Signed.blobs, List.length_cons, List.length_cons, List.length_map]
  exact few

theorem WrittenTo.recordsOf (written : prepared.WrittenTo package)
    (carries : prepared.signed.Carries draft) :
    Archive.recordsOf package.number package.key.files.length prepared.signed.blobs =
      .ok (package.record, Record.encode package.record, prepared.signed.signature,
        prepared.signed.files.map DraftFile.record) := by
  have record := MessageRecord.decode_encode carries.record
  have files : (prepared.signed.files.map fun file => Record.encode file.record).mapM
      Record.decode = .ok (prepared.signed.files.map DraftFile.record) := by
    rw [List.mapM_map]
    apply mapM_eq_ok_map
    intro file member
    exact FileRecord.decode_encode (carries.files file member)
  simp only [Archive.recordsOf, Signed.blobs, List.length_map, written.files.length_eq, ne_eq,
    not_true_eq_false, if_false, record, files, Package.number, written.record, bind, Except.bind,
    pure, Except.pure]

end Prepared

/-! ### Archives over a source -/

namespace History

theorem mem_insert {history : History} {number other : UInt64} :
    other ∈ (history.insert number).numbers ↔ other = number ∨ other ∈ history.numbers :=
  mem_place

theorem mem_foldl_insert {numbers : List UInt64} {history : History} {number : UInt64} :
    number ∈ (numbers.foldl insert history).numbers ↔
      number ∈ numbers ∨ number ∈ history.numbers := by
  induction numbers generalizing history with
  | nil => simp
  | cons first numbers ih =>
      rw [List.foldl_cons, ih, mem_insert, List.mem_cons]
      tauto

/-- A history of numbers contains them and no other ones. -/
theorem contains_ofNumbers {numbers : List UInt64} {number : UInt64} :
    (ofNumbers numbers).contains number ↔ number ∈ numbers := by
  rw [contains, decide_eq_true_iff, ofNumbers, mem_foldl_insert]
  simp [empty]

end History

namespace Archive

variable {source : Source} {archive : Archive} {number : UInt64} {body key : Bytes}

theorem ofSource_eq_ok_iff {engines : Engines} {settings : ContentSettings} :
    ofSource source engines settings = .ok archive ↔ settings.maxPageSize ≠ some 0 ∧
      ∃ numbers, source.numbers = .ok numbers ∧
        archive = ⟨source, .ofNumbers numbers, engines, settings⟩ := by
  rw [ofSource, guard_eq_ok_iff, bind_eq_ok_iff]
  simp [pure, Except.pure, eq_comm]

/-- A source that offers a message is opened, unless no page may hold a number. -/
theorem exists_ofSource (offers : source.Offers number body key) (engines : Engines)
    {settings : ContentSettings} (paged : settings.maxPageSize ≠ some 0) :
    ∃ archive, ofSource source engines settings = .ok archive ∧ archive.source = source ∧
      archive.engines = engines ∧ archive.settings = settings ∧
      archive.history.contains number = true := by
  rcases offers.listed with ⟨numbers, known, listed⟩
  refine ⟨⟨source, .ofNumbers numbers, engines, settings⟩, ?_, rfl, rfl, rfl,
    History.contains_ofNumbers.mpr listed⟩
  simp only [ofSource, if_neg paged, known, bind, Except.bind, pure, Except.pure]

/-- The single key of a message is tried, and the message stands or falls with it. -/
theorem resolve_eq (offers : archive.source.Offers number body key)
    (listed : archive.history.contains number = true) :
    archive.resolve number = (archive.tryKey number body.length key).map some := by
  simp only [resolve, listed, offers.bodyLength, offers.candidates, firstAccepted,
    Bool.true_eq_false, if_false, bind, Except.bind, pure, Except.pure]
  cases archive.tryKey number body.length key <;> rfl

/-! ### Packages that are accepted -/

/-- A written package, as it is resolved. -/
def resolvedOf (prepared : Prepared) (package : Package) : Resolved where
  key := package.key
  record := package.record
  recordBytes := Record.encode package.record
  signature := prepared.signed.signature
  files := prepared.signed.files.map DraftFile.record

variable {prepared : Prepared} {draft : Draft} {package : Package}

/--
The key of a written package is accepted if the metadata section holds the records in a body of
the same length, and if the signature on the key is valid or need not be.
-/
theorem tryKey_of_holds (carries : prepared.signed.Carries draft)
    (written : prepared.WrittenTo package)
    (few : draft.files.length + 2 < Packed.signLimit Packed.countWidth)
    (short : package.body.length < Directory.positionLimit)
    (offers : archive.source.Offers package.number body (Record.encode package.key))
    (length : body.length = package.body.length)
    (header : package.key.metadata.Holds archive.engines body
      (Packed.pack prepared.signed.blobs))
    (author : archive.settings.verifyKeySignature = true →
      archive.keyStatus (resolvedOf prepared package) = .ok .valid) :
    archive.tryKey package.number body.length (Record.encode package.key) =
      .ok (resolvedOf prepared package) := by
  have size : Directory.positionLimit < UInt64.size := by decide
  rw [← carries.length_files] at few
  rw [written.length] at short
  have within : package.key.checkWithin body.length = .ok () := by
    rw [length]
    exact written.checkWithin (by omega)
  have read : (archive.reader package.number).readAll true metadataLabel
      package.key.metadata = .ok (Packed.pack prepared.signed.blobs) :=
    BodyReader.readAll_of_holds offers header true metadataLabel
  simp only [tryKey, PackageKey.decode_encode written.valid, within, read,
    Prepared.unpack_blobs few short, written.recordsOf carries, bind, Except.bind, pure,
    Except.pure]
  by_cases wanted : archive.settings.verifyKeySignature = true
  · have status := author wanted
    rw [resolvedOf] at status
    simp only [wanted, if_true, status, ne_eq, not_true_eq_false, if_false]
    rfl
  · simp only [wanted]
    rfl

/--
A package of more files than can be counted is refused by every reader, since the list of its
records cannot be unpacked.
-/
theorem exists_tryKey_error_of_many (carries : prepared.signed.Carries draft)
    (written : prepared.WrittenTo package)
    (many : Packed.signLimit Packed.countWidth ≤ draft.files.length + 2)
    (short : package.body.length < Directory.positionLimit)
    (offers : archive.source.Offers package.number package.body (Record.encode package.key))
    (header : package.key.metadata.Holds archive.engines package.body
      (Packed.pack prepared.signed.blobs)) :
    ∃ fault, archive.tryKey package.number package.body.length (Record.encode package.key) =
      .error (.format fault) := by
  have size : Directory.positionLimit < UInt64.size := by decide
  rw [written.length] at short
  have within : package.key.checkWithin package.body.length = .ok () :=
    written.checkWithin (by omega)
  have read : (archive.reader package.number).readAll true metadataLabel
      package.key.metadata = .ok (Packed.pack prepared.signed.blobs) :=
    BodyReader.readAll_of_holds offers header true metadataLabel
  have counted : Packed.signLimit Packed.countWidth ≤ prepared.signed.blobs.length := by
    rw [Signed.blobs, List.length_cons, List.length_cons, List.length_map, carries.length_files]
    exact many
  have refused : ∀ blobs, Packed.unpack (Packed.pack prepared.signed.blobs) ≠ .ok blobs := by
    intro blobs accepted
    rw [Packed.unpack, mapError_eq_ok_iff] at accepted
    exact Packed.read_pack_ne_ok counted blobs accepted
  rcases Packed.exists_unpack_eq_error refused with ⟨fault, unpacked⟩
  refine ⟨fault, ?_⟩
  simp only [tryKey, PackageKey.decode_encode written.valid, within, read, unpacked, bind,
    Except.bind]

end Archive

end Missive
