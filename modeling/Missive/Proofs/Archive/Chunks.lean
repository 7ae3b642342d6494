import Missive.Archive
import Missive.Proofs.Checksum.Pieces
import Missive.Proofs.Cipher.Ranges
import Missive.Proofs.Outcome
import Missive.Proofs.Store.Bodies

/-!
# Chunks of a logical file

A chunk is read from a place of its own in the body, and only the blocks that cover it are
decrypted. A key may describe any sections, also ones that overlap; but a section that can be
read as a whole lies within its body and has a text, and then every chunk of it is a part of
this text, or out of range.
-/

namespace Missive

theorem FileSection.mem_of_find? {key : PackageKey} {path : String} {index : Nat}
    {file : FileSection} (found : key.find? path = some (index, file)) : file ∈ key.files := by
  simp only [PackageKey.find?, Option.bind_eq_bind, Option.bind_eq_some_iff, Option.pure_def,
    Option.some.injEq, Prod.mk.injEq] at found
  rcases found with ⟨_, _, _, there, _, rfl⟩
  exact List.mem_of_getElem? there

theorem ByteStream.reading_eq_ok_iff {stream : ByteStream} {text : Bytes} :
    stream.reading = .ok text ↔ stream.ending = .finished ∧ stream.content = text := by
  rw [reading, mapError_eq_ok_iff, readToEnd]
  cases stream.ending with
  | finished => simp [Ending.error?]
  | failing error => simp [Ending.error?]
  | rejected error => simp [Ending.error?]

/-! ### Messages under an accepted key -/

namespace Archive

variable {archive : Archive} {number : UInt64} {resolved : Resolved}

theorem checkWithin_of_tryKey {bodyLength : Nat} {candidate : Bytes}
    (accepted : archive.tryKey number bodyLength candidate = .ok resolved) :
    resolved.key.checkWithin bodyLength = .ok () := by
  rw [tryKey] at accepted
  rcases bind_eq_ok_iff.mp accepted with ⟨key, _, accepted⟩
  rcases bind_eq_ok_iff.mp accepted with ⟨_, within, accepted⟩
  rcases bind_eq_ok_iff.mp accepted with ⟨packed, _, accepted⟩
  rcases bind_eq_ok_iff.mp accepted with ⟨blobs, _, accepted⟩
  rcases bind_eq_ok_iff.mp accepted with ⟨records, _, accepted⟩
  -- A signature on the key can only lead to a refusal.
  have same : resolved.key = key := by
    dsimp only at accepted
    split at accepted
    · rcases bind_eq_ok_iff.mp accepted with ⟨status, _, accepted⟩
      split at accepted
      · cases accepted
      · cases accepted
        rfl
    · cases accepted
      rfl
  rw [same]
  exact within

theorem exists_of_firstAccepted {bodyLength : Nat} {lastError : Error} {candidates : List Bytes}
    (accepted : archive.firstAccepted number bodyLength lastError candidates = .ok resolved) :
    ∃ candidate ∈ candidates, archive.tryKey number bodyLength candidate = .ok resolved := by
  induction candidates generalizing lastError with
  | nil => cases accepted
  | cons candidate candidates ih =>
      rw [firstAccepted] at accepted
      split at accepted
      · rename_i first success
        cases accepted
        exact ⟨candidate, List.mem_cons_self, success⟩
      · rcases ih accepted with ⟨later, member, success⟩
        exact ⟨later, List.mem_cons_of_mem candidate member, success⟩

/-- The key of a message fits its body. -/
theorem checkWithin_of_resolve (found : archive.resolve number = .ok (some resolved)) :
    ∃ bodyLength, archive.source.bodyLength number = .ok (some bodyLength) ∧
      resolved.key.checkWithin bodyLength = .ok () := by
  rw [resolve] at found
  split at found
  · cases found
  · rcases bind_eq_ok_iff.mp found with ⟨length, known, found⟩
    cases length with
    | none => cases found
    | some length =>
        rcases bind_eq_ok_iff.mp found with ⟨candidates, _, found⟩
        rcases bind_eq_ok_iff.mp found with ⟨first, accepted, found⟩
        cases found
        rcases exists_of_firstAccepted accepted with ⟨candidate, _, accepted⟩
        exact ⟨length, known, checkWithin_of_tryKey accepted⟩

theorem withFile_eq {α : Type} {path : String} {index : Nat} {file : FileSection}
    (found : archive.resolve number = .ok (some resolved))
    (listed : resolved.key.find? path = some (index, file))
    (read : FileSection → Except Error α) :
    archive.withFile number path read = (read file).map some := by
  simp only [withFile, found, bind, Except.bind, Option.bind, listed]
  cases read file <;> rfl

theorem exists_of_withFile {α : Type} {path : String} {read : FileSection → Except Error α}
    {value : α} (known : archive.withFile number path read = .ok (some value)) :
    ∃ resolved index file, archive.resolve number = .ok (some resolved) ∧
      resolved.key.find? path = some (index, file) ∧ read file = .ok value := by
  rw [withFile] at known
  rcases bind_eq_ok_iff.mp known with ⟨answer, found, known⟩
  cases answer with
  | none => cases known
  | some resolved =>
      cases listed : resolved.key.find? path with
      | none =>
          simp only [Option.bind, listed] at known
          cases known
      | some entry =>
          simp only [Option.bind, listed] at known
          rcases bind_eq_ok_iff.mp known with ⟨result, outcome, known⟩
          cases known
          exact ⟨resolved, entry.1, entry.2, found, listed, outcome⟩

end Archive

/-! ### Sections that can be read as a whole -/

namespace BodyReader

variable {reader : BodyReader} {described : Section}

/-- What a successful reading of a whole section has met. -/
structure Readable (reader : BodyReader) (described : Section) (text : Bytes) where
  cipher : Cipher
  stored : ByteStream
  cipherFor : reader.engines.cipherFor described.cipher = .ok cipher
  opened : reader.stored described 0 = .ok stored
  length : stored.content.length = described.length.toNat
  finished : stored.ending = .finished
  decrypted : cipher.textOf? described.key stored.content = some text

theorem exists_of_stored {origin : Nat} {stream : ByteStream}
    (opened : reader.stored described origin = .ok stream) :
    ∃ body, reader.source.openBody reader.number (described.offset.toNat + origin) = .ok body ∧
      stream = body.limited (described.length.toNat - origin) := by
  rcases bind_eq_ok_iff.mp opened with ⟨body, there, limited⟩
  cases limited
  exact ⟨body, there, rfl⟩

theorem readable_of_readAll {verify : Bool} {label : String} {text : Bytes}
    (read : reader.readAll verify label described = .ok text) :
    Nonempty (reader.Readable described text) := by
  rw [readAll] at read
  rcases bind_eq_ok_iff.mp read with ⟨cipher, known, read⟩
  rcases bind_eq_ok_iff.mp read with ⟨checksum, _, read⟩
  rcases bind_eq_ok_iff.mp read with ⟨stored, opened, read⟩
  rcases bind_eq_ok_iff.mp read with ⟨plaintext, shown, read⟩
  rcases bind_eq_ok_iff.mp read with ⟨bytes, reading, read⟩
  rcases ByteStream.reading_eq_ok_iff.mp reading with ⟨ended, content⟩
  rw [Tally.observe_start] at read
  dsimp only at read
  split at read
  · cases read
  · rename_i complete
    rcases bind_eq_ok_iff.mp read with ⟨_, _, read⟩
    cases read
    have length : stored.content.length = described.length.toNat := Decidable.not_not.mp complete
    have finished : stored.ending = .finished := by
      rcases exists_of_stored opened with ⟨body, _, rfl⟩
      rw [Nat.sub_zero, ByteStream.content_limited, List.length_take] at length
      rw [Nat.sub_zero, ByteStream.ending_limited, if_pos]
      omega
    have decrypted := Cipher.textOf?_of_reader finished shown ended
    rw [content] at decrypted
    exact ⟨⟨cipher, stored, known, opened, length, finished, decrypted⟩⟩

/-- From an origin within a readable section on, the rest of its ciphertext is stored. -/
theorem Readable.stored_origin {text : Bytes} {bodyLength origin : Nat}
    (readable : reader.Readable described text) (steady : reader.source.Steady reader.number)
    (known : reader.source.bodyLength reader.number = .ok (some bodyLength))
    (within : described.stop ≤ bodyLength) (inside : origin ≤ described.length.toNat) :
    ∃ stream, reader.stored described origin = .ok stream ∧
      stream.content = readable.stored.content.drop origin ∧ stream.ending = .finished := by
  rw [Section.stop] at within
  rcases steady with ⟨body, positions⟩
  rcases positions bodyLength known (described.offset.toNat + 0) (by omega)
      with ⟨whole, there, content⟩
  rcases positions bodyLength known (described.offset.toNat + origin) (by omega)
      with ⟨rest, later, tail⟩
  -- The section is a slice of the body, since all of it has been read.
  rcases exists_of_stored readable.opened with ⟨same, opened, limited⟩
  rw [there] at opened
  cases opened
  have length := readable.length
  rw [limited, Nat.sub_zero, ByteStream.content_limited, content] at length ⊢
  rw [List.length_take, List.length_drop] at length
  refine ⟨rest.limited (described.length.toNat - origin), ?_, ?_, ?_⟩
  · simp only [BodyReader.stored, later, pure, Except.pure, bind, Except.bind]
  · rw [ByteStream.content_limited, tail, List.drop_take, List.drop_drop, Nat.add_zero]
  · rw [ByteStream.ending_limited, if_pos]
    rw [tail, List.length_drop]
    omega

/-- A range of a readable section is the part of its text, or it is out of range. -/
theorem Readable.readRange {text : Bytes} {bodyLength : Nat}
    (readable : reader.Readable described text) (steady : reader.source.Steady reader.number)
    (known : reader.source.bodyLength reader.number = .ok (some bodyLength))
    (within : described.stop ≤ bodyLength) (offset length : UInt64) :
    (offset.toNat + length.toNat ≤ text.length →
      reader.readRange described offset length = .ok (text.slice offset.toNat length.toNat)) ∧
    (text.length < offset.toNat + length.toNat →
      ∃ limit, reader.readRange described offset length =
        .error (.range offset length limit)) := by
  have shorter := Cipher.length_textOf?_le readable.decrypted
  rw [readable.length] at shorter
  by_cases inside : offset.toNat + length.toNat ≤ described.length.toNat
  · have origin := Cipher.seekOrigin_le readable.cipher offset
    obtain ⟨stream, opened, content, finished⟩ :=
      readable.stored_origin steady known within (by omega : readable.cipher.seekOrigin offset ≤ _)
    have checked : described.checkRange offset length = .ok () := by
      rw [Section.checkRange, if_pos inside]
    simp only [BodyReader.readRange, checked, readable.cipherFor, opened, bind, Except.bind,
      Cipher.randomAccessStream]
    rcases Cipher.openRange_of_textOf? length finished content readable.decrypted with
      ⟨part, shown, rest, ended, reached⟩ | ⟨beyond, limit, refused, _⟩
    · have start := reached (by rw [readable.length]; omega)
      simp only [shown, ByteStream.copy_of_finished ended, rest, Cipher.length_slice]
      constructor
      · intro enough
        rw [if_neg (by omega)]
        rfl
      · intro short
        refine ⟨offset.toNat + min length.toNat (text.length - offset.toNat), ?_⟩
        rw [if_pos (by omega)]
        rfl
    · simp only [refused]
      exact ⟨fun enough => by omega, fun _ => ⟨limit, rfl⟩⟩
  · have refused : described.checkRange offset length =
        .error (.range offset length described.length.toNat) := by
      rw [Section.checkRange, if_neg inside]
    simp only [BodyReader.readRange, refused, bind, Except.bind]
    exact ⟨fun enough => by omega, fun _ => ⟨_, rfl⟩⟩

end BodyReader

/--
Chunks agree with the whole file: where a file can be read as a whole, a chunk within it is the
part of the file there, and every other chunk is out of range.
-/
theorem Archive.chunk_of_content {archive : Archive} {number : UInt64} {path : String}
    {text : Bytes} (steady : archive.source.Steady number)
    (whole : archive.content number path = .ok (some text)) (offset length : UInt64) :
    (offset.toNat + length.toNat ≤ text.length →
      archive.chunk number path offset length =
        .ok (some (text.slice offset.toNat length.toNat))) ∧
    (text.length < offset.toNat + length.toNat →
      ∃ limit, archive.chunk number path offset length =
        .error (.range offset length limit)) := by
  rcases exists_of_withFile whole with ⟨resolved, index, file, found, listed, read⟩
  rcases checkWithin_of_resolve found with ⟨bodyLength, known, fits⟩
  have member : file.content ∈ resolved.key.sections :=
    List.mem_cons_of_mem _ (List.mem_map_of_mem (FileSection.mem_of_find? listed))
  have within : file.content.stop ≤ bodyLength :=
    (Section.checkWithin_eq_ok_iff.mp (forM_eq_ok_iff.mp fits _ member)).2
  rcases BodyReader.readable_of_readAll read with ⟨readable⟩
  have range := readable.readRange steady known within offset length
  rw [chunk, withFile_eq found listed]
  constructor
  · intro enough
    rw [range.1 enough]
    rfl
  · intro short
    rcases range.2 short with ⟨limit, refused⟩
    exact ⟨limit, by rw [refused]; rfl⟩

/-- A metadata section for a message with one file. -/
def Overlap.body : Bytes :=
  Packed.pack [Record.encode (MessageRecord.start 7 "p"), [],
    Record.encode (FileRecord.start .createOrOverride)]

/-- A key by which the file lies within the metadata section, encrypted by itself. -/
def Overlap.key : PackageKey :=
  ⟨.plain 0 (UInt64.ofNat Overlap.body.length),
    [⟨"a", (Section.plain 20 10).withCipher "AES-256-CTR" (List.replicate 48 255)⟩], none, none⟩

/-- An archive of this message alone. -/
def Overlap.archive : Archive :=
  ⟨(MemoryStore.empty.insert 7 Overlap.body [Record.encode Overlap.key]).source,
    .ofNumbers [7], .standard, {}⟩

theorem Overlap.content_archive : Overlap.archive.content 7 "a" =
    .ok (some [213, 249, 61, 109, 51, 17, 203, 18, 228, 1]) := by
  apply eq_ok_of_toOption
  decide +kernel

/-- A chunk at the end of a file that overlaps the metadata, and one with too large a sum. -/
theorem Archive.chunk_of_content_overlap :
    Overlap.archive.source.Steady 7 ∧
      Overlap.archive.content 7 "a" =
        .ok (some [213, 249, 61, 109, 51, 17, 203, 18, 228, 1]) ∧
      Overlap.archive.chunk 7 "a" 8 2 = .ok (some [228, 1]) ∧
      ∃ limit, Overlap.archive.chunk 7 "a" 9 18446744073709551615 =
        .error (.range 9 18446744073709551615 limit) := by
  have steady : Overlap.archive.source.Steady 7 := MemoryStore.steady_source _ 7
  have whole := Overlap.content_archive
  refine ⟨steady, whole, ?_, ?_⟩
  · exact (chunk_of_content steady whole 8 2).1 (by decide)
  · exact (chunk_of_content steady whole 9 18446744073709551615).2 (by decide)

end Missive
