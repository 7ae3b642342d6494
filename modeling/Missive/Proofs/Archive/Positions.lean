import Missive.Archive.BodyReader
import Missive.Record.Key
import Missive.Proofs.Cipher.Buffer
import Missive.Proofs.Checksum.Pieces
import Missive.Proofs.Packed.Positions

/-!
# Reading with exact positions

All reads of a section, and all reads of a part of a ciphertext, written with positions that are
words: the place of the section in the body with the place where decryption begins, what is left
of the section from there on, the number of stored bytes that have been read, and the position
that is reported where a read ends early. Only the end of a part in the clear is a checked sum.
What makes all others exact is that a key is not used before its sections have been found to lie
within the body, and a section not read before the range has been found to lie within it.
-/

namespace Missive

theorem ByteStream.eq_of_readToEnd {stream : ByteStream} {bytes : Bytes}
    (read : stream.readToEnd = .ok bytes) : bytes = stream.content := by
  rw [readToEnd] at read
  split at read
  · cases read
    rfl
  · cases read

namespace Cipher

/-- Where in the ciphertext a read of the plaintext from `offset` on begins. -/
def originAt? (cipher : Cipher) (offset : UInt64) : Option UInt64 :=
  match cipher with
  | none | counter => some offset
  | chaining => Chaining.originAt? offset

/-- The plaintext from `offset` on, of a ciphertext that begins at its origin. -/
def openingAt? (cipher : Cipher) (key : Bytes) (offset : UInt64) (ciphertext : ByteStream) :
    Exact Error ByteStream :=
  match cipher with
  | none => return ciphertext
  | counter => do
    let data ← Exact.of (keyData key (decryptKeyFault counter))
    return Counter.view data.cipher data.start offset.toNat ciphertext
  | chaining => do
    let data ← Exact.of (keyData key (decryptKeyFault chaining))
    Chaining.openingAt? data.cipher data.start offset ciphertext

/-- Opens a ciphertext for a read of `length` bytes. -/
def openingRange? (cipher : Cipher) (key : Bytes) (offset length : UInt64)
    (ciphertext : ByteStream) : Exact Error ByteStream := do
  let plaintext ← (cipher.openingAt? key offset ciphertext).adapt (withLength length)
  return plaintext.limited length.toNat

/-- The part of a text in the clear; the place where it stops is checked. -/
def clearPartAt? (text : Bytes) (offset length : UInt64) : Exact Error Bytes := do
  let limit ← Position.ofNat? text.length
  match Position.add? offset length with
  | Option.none => throw (.range offset length limit.toNat)
  | some stop =>
    if stop ≤ limit then liftM (text.between? offset stop)
    else throw (.range offset length limit.toNat)

/-- Reports how far a read has come that was given less than it asked for. -/
def complete? (offset length : UInt64) (given : Nat) : Exact Error Unit := do
  let given ← Position.ofNat? given
  if given < length then
    let reached ← Position.add? offset given
    throw (.range offset length reached.toNat)

/-- The part of the plaintext of an encrypted text. -/
def encryptedPartAt? (cipher : Cipher) (key ciphertext : Bytes) (offset length : UInt64) :
    Exact Error Bytes := do
  let limit ← Position.ofNat? ciphertext.length
  let origin ← cipher.originAt? offset
  if limit < origin then throw (.range offset length limit.toNat)
  let rest ← ciphertext.between? origin limit
  let part ← cipher.openingRange? key offset length (.ofBytes rest)
  let bytes ← Exact.of (part.readToEnd.mapError StreamError.toError)
  complete? offset length bytes.length
  return bytes

/-- The part of the plaintext at `offset`, `length` bytes long; all of it must be there. -/
def partAt? (cipher : Cipher) (key ciphertext : Bytes) (offset length : UInt64) :
    Exact Error Bytes :=
  match cipher with
  | none => clearPartAt? ciphertext offset length
  | _ => cipher.encryptedPartAt? key ciphertext offset length

/-- Copies at most `length` bytes of the plaintext from `offset` on to an output. -/
def copyAt? (cipher : Cipher) (key : Bytes) (offset length : UInt64) (ciphertext : ByteStream) :
    Option Transfer := do
  match ← (cipher.openingRange? key offset length ciphertext).run with
  | .ok part => return part.copy
  | .error error => return ⟨[], 0, some error⟩

variable {cipher : Cipher} {key : Bytes} {offset length : UInt64} {stream : ByteStream}

theorem exists_originAt? (cipher : Cipher) (offset : UInt64) :
    ∃ origin, cipher.originAt? offset = some origin ∧
      origin.toNat = cipher.seekOrigin offset := by
  cases cipher with
  | none => exact ⟨offset, rfl, rfl⟩
  | counter => exact ⟨offset, rfl, rfl⟩
  | chaining => exact Chaining.exists_originAt? offset

/-- Decryption begins less than two blocks before the offset. -/
theorem lt_seekOrigin (cipher : Cipher) (offset : UInt64) :
    offset.toNat < cipher.seekOrigin offset + 2 * Block.size := by
  cases cipher with
  | none => exact Nat.lt_add_of_pos_right (by decide)
  | counter => exact Nat.lt_add_of_pos_right (by decide)
  | chaining =>
      simp only [seekOrigin, Chaining.seekOrigin, Block.size]
      omega

theorem openingAt?_eq (short : stream.content.length < UInt64.size) :
    cipher.openingAt? key offset stream = .of (cipher.openAt key offset stream) := by
  cases cipher with
  | none => rfl
  | counter =>
      simp only [openingAt?, openAt]
      cases keyData key (decryptKeyFault counter) <;> rfl
  | chaining =>
      simp only [openingAt?, openAt, Chaining.openingAt?_eq short]
      cases keyData key (decryptKeyFault chaining) <;> rfl

theorem openingRange?_eq (short : stream.content.length < UInt64.size) :
    cipher.openingRange? key offset length stream =
      .of (cipher.openRange key offset length stream) := by
  rw [openingRange?, openingAt?_eq short, openRange]
  cases cipher.openAt key offset stream <;> rfl

theorem copyAt?_eq (short : stream.content.length < UInt64.size) :
    cipher.copyAt? key offset length stream =
      some (cipher.randomAccessStream key offset length stream) := by
  rw [copyAt?, openingRange?_eq short, randomAccessStream]
  cases cipher.openRange key offset length stream <;> rfl

/-- What is opened for a range is no longer than the range, nor than the ciphertext. -/
theorem length_openRange_le {part : ByteStream}
    (opened : cipher.openRange key offset length stream = .ok part) :
    part.content.length ≤ length.toNat ∧ part.content.length ≤ stream.content.length := by
  rcases bind_eq_ok_iff.mp opened with ⟨plaintext, whole, result⟩
  cases result
  rw [mapError_eq_ok_iff] at whole
  have few := length_openAt_le whole
  rw [ByteStream.content_limited, List.length_take]
  exact ⟨Nat.min_le_left _ _, Nat.le_trans (Nat.min_le_right _ _) few⟩

variable {ciphertext : Bytes}

/-- In the clear, the only sum is checked, and the part is cut out within the text. -/
theorem clearPartAt?_eq (short : ciphertext.length < UInt64.size) :
    clearPartAt? ciphertext offset length =
      .of (none.randomAccess key ciphertext offset length) := by
  obtain ⟨limit, counted, value⟩ := Position.exists_ofNat? short
  simp only [clearPartAt?, randomAccess, counted, value, Exact.liftM_some_bind]
  by_cases large : UInt64.size ≤ offset.toNat + length.toNat
  · have unbounded : Position.add? offset length = .none := if_neg (Nat.not_lt.mpr large)
    simp only [unbounded, if_neg (by omega : ¬offset.toNat + length.toNat ≤ ciphertext.length)]
    rfl
  · obtain ⟨stop, added, sum⟩ := Position.exists_add? (Nat.not_le.mp large)
    have inside : stop ≤ limit ↔ offset.toNat + length.toNat ≤ ciphertext.length := by
      rw [UInt64.le_iff_toNat_le, sum, value]
    simp only [added, inside]
    by_cases within : offset.toNat + length.toNat ≤ ciphertext.length
    · have cut : ciphertext.between? offset stop =
          some (ciphertext.slice offset.toNat length.toNat) := by
        rw [Bytes.between?, if_pos (by omega), sum, Nat.add_sub_cancel_left]
      simp only [if_pos within, cut]
      rfl
    · simp only [if_neg within]
      rfl

theorem complete?_eq {given : Nat} (fits : offset.toNat + given < UInt64.size) :
    complete? offset length given = .of (
      if given < length.toNat then .error (.range offset length (offset.toNat + given))
      else .ok ()) := by
  obtain ⟨count, counted, value⟩ := @Position.exists_ofNat? given (by omega)
  obtain ⟨reached, added, sum⟩ := @Position.exists_add? offset count (by omega)
  have early : count < length ↔ given < length.toNat := by
    rw [UInt64.lt_iff_toNat_lt, value]
  simp only [complete?, counted, early, Exact.liftM_some_bind]
  by_cases less : given < length.toNat
  · simp only [if_pos less, added, sum, value, Exact.liftM_some_bind]
    rfl
  · simp only [if_neg less]
    rfl

/-- Where a part ends early, the position that is reported lies near the end of the ciphertext. -/
theorem encryptedPartAt?_eq (encrypted : cipher ≠ none)
    (short : ciphertext.length < UInt64.size / 2) :
    cipher.encryptedPartAt? key ciphertext offset length =
      .of (cipher.randomAccess key ciphertext offset length) := by
  obtain ⟨limit, counted, value⟩ := @Position.exists_ofNat? ciphertext.length (by omega)
  obtain ⟨origin, started, place⟩ := exists_originAt? cipher offset
  have near := lt_seekOrigin cipher offset
  have outside : limit < origin ↔ ciphertext.length < cipher.seekOrigin offset := by
    rw [UInt64.lt_iff_toNat_lt, value, place]
  have tail : 2 * Block.size < UInt64.size / 2 := by decide
  rw [randomAccess_eq encrypted]
  simp only [encryptedPartAt?, counted, started, outside, value, Exact.liftM_some_bind]
  apply Exact.guard_eq
  intro inside
  have rest : ciphertext.between? origin limit =
      some (ciphertext.drop (cipher.seekOrigin offset)) := by
    rw [Bytes.between?, if_pos (by omega), Bytes.slice, value, place, ← List.length_drop,
      List.take_length]
  rw [rest, Exact.liftM_some_bind]
  generalize remaining : ByteStream.ofBytes (ciphertext.drop (cipher.seekOrigin offset)) = stream
  have length_stream : stream.content.length = ciphertext.length - cipher.seekOrigin offset := by
    rw [← remaining, ByteStream.content_ofBytes, List.length_drop]
  rw [openingRange?_eq (by omega)]
  refine Exact.of_bind_eq fun part opened => Exact.of_bind_eq fun bytes read => ?_
  have few := (length_openRange_le opened).2
  rw [ByteStream.eq_of_readToEnd (mapError_eq_ok_iff.mp read), complete?_eq (by omega)]
  by_cases early : part.content.length < length.toNat
  · rw [if_pos early, if_pos early]
    rfl
  · rw [if_neg early, if_neg early]
    rfl

theorem partAt?_eq (short : ciphertext.length < UInt64.size / 2) :
    cipher.partAt? key ciphertext offset length =
      .of (cipher.randomAccess key ciphertext offset length) := by
  cases cipher with
  | none => exact clearPartAt?_eq (by omega)
  | counter => exact encryptedPartAt?_eq (by decide) short
  | chaining => exact encryptedPartAt?_eq (by decide) short

/-- No more is copied than was asked for. -/
theorem written_le (cipher : Cipher) (key : Bytes) (offset length : UInt64)
    (stream : ByteStream) :
    (cipher.randomAccessStream key offset length stream).written ≤ length.toNat := by
  rw [randomAccessStream]
  cases opened : cipher.openRange key offset length stream with
  | error error => exact Nat.zero_le _
  | ok part =>
      simp only [ByteStream.copy_eq]
      exact (length_openRange_le opened).1

end Cipher

namespace BodyReader

/-- The stored bytes of a section from `origin` on. -/
def storedAt? (reader : BodyReader) (described : Section) (origin : UInt64) :
    Exact Error ByteStream := do
  let position ← Position.add? described.offset origin
  let body ← Exact.of (reader.source.openBody reader.number position.toNat)
  return body.limited (Position.monus described.length origin).toNat

/-- A number of bytes, and that of the reads that follow. -/
def countFrom? : (count : UInt64) → List Bytes → Option UInt64
  | count, [] => some count
  | count, piece :: pieces => do
    let size ← Position.ofNat? piece.length
    let count ← Position.add? count size
    countFrom? count pieces

/-- The plaintext of a whole section. -/
def wholeAt? (reader : BodyReader) (verify : Bool) (label : String) (described : Section) :
    Exact Error Bytes := do
  let cipher ← Exact.of (reader.engines.cipherFor described.cipher)
  let checksum ← Exact.of (reader.checksumFor verify described)
  let stored ← reader.storedAt? described 0
  let count ← countFrom? 0 stored.pieces
  let plaintext ← cipher.openingAt? described.key 0 stored
  let bytes ← Exact.of plaintext.reading
  if count ≠ described.length then
    throw (.format (.bodyEnded label count.toNat described.length))
  Exact.of (checkSum label described ((Tally.start checksum).observe stored).checksum)
  return bytes

/-- The part of the plaintext of a section at `offset`, `length` bytes long. -/
def rangeAt? (reader : BodyReader) (described : Section) (offset length : UInt64) :
    Exact Error Bytes := do
  Exact.of (described.checkRange offset length)
  let cipher ← Exact.of (reader.engines.cipherFor described.cipher)
  let origin ← cipher.originAt? offset
  let stored ← reader.storedAt? described origin
  let transfer ← cipher.copyAt? described.key offset length stored
  if let some error := transfer.failure then throw error
  Cipher.complete? offset length transfer.written
  return transfer.output

/-- The plaintext of a section as a stream. -/
def sectionAt? (reader : BodyReader) (described : Section) : Exact Error ByteStream := do
  let cipher ← Exact.of (reader.engines.cipherFor described.cipher)
  let stored ← reader.storedAt? described 0
  cipher.openingAt? described.key 0 stored

variable {reader : BodyReader} {described : Section}

/-- A place in a section has a place in the body, if the section has. -/
theorem storedAt?_eq (bounded : described.stop < UInt64.size) {origin : UInt64}
    (inside : origin.toNat ≤ described.length.toNat) :
    reader.storedAt? described origin = .of (reader.stored described origin.toNat) := by
  rw [Section.stop] at bounded
  obtain ⟨position, added, sum⟩ := @Position.exists_add? described.offset origin (by omega)
  rw [storedAt?, stored, added, Exact.liftM_some_bind, sum, Position.toNat_monus]
  exact Exact.of_bind_eq fun body _ => rfl

theorem length_stored_le {origin : Nat} {stream : ByteStream}
    (opened : reader.stored described origin = .ok stream) :
    stream.content.length ≤ described.length.toNat - origin := by
  rcases bind_eq_ok_iff.mp opened with ⟨body, _, result⟩
  cases result
  rw [ByteStream.content_limited, List.length_take]
  exact Nat.min_le_left _ _

/-- Bytes are counted exactly as long as there are no more of them than a word can count. -/
theorem exists_countFrom? {count : UInt64} {pieces : List Bytes}
    (short : count.toNat + pieces.flatten.length < UInt64.size) :
    ∃ sum, countFrom? count pieces = some sum ∧
      sum.toNat = count.toNat + pieces.flatten.length := by
  induction pieces generalizing count with
  | nil => exact ⟨count, rfl, rfl⟩
  | cons piece pieces ih =>
      rw [List.flatten_cons, List.length_append] at short ⊢
      obtain ⟨size, sized, length⟩ := @Position.exists_ofNat? piece.length (by omega)
      obtain ⟨next, added, sum⟩ := @Position.exists_add? count size (by omega)
      obtain ⟨total, counted, value⟩ := @ih next (by omega)
      refine ⟨total, ?_, by omega⟩
      simp only [countFrom?, sized, added, Option.bind_eq_bind, Option.bind_some]
      exact counted

theorem sectionAt?_eq (bounded : described.stop < UInt64.size) :
    reader.sectionAt? described = .of (reader.openSection described) := by
  refine Exact.of_bind_eq fun cipher _ => ?_
  rw [storedAt?_eq bounded (Nat.zero_le _)]
  refine Exact.of_bind_eq fun stored opened => ?_
  have few := length_stored_le opened
  have bound := described.length.toNat_lt_size
  exact Cipher.openingAt?_eq (by omega)

theorem wholeAt?_eq (bounded : described.stop < UInt64.size) (verify : Bool) (label : String) :
    reader.wholeAt? verify label described = .of (reader.readAll verify label described) := by
  refine Exact.of_bind_eq fun cipher _ => Exact.of_bind_eq fun checksum _ => ?_
  rw [storedAt?_eq bounded (Nat.zero_le _)]
  refine Exact.of_bind_eq fun stored opened => ?_
  have few := length_stored_le opened
  have bound := described.length.toNat_lt_size
  obtain ⟨count, counted, total⟩ := @exists_countFrom? 0 stored.pieces (by
    rw [UInt64.toNat_zero, Nat.zero_add]
    exact Nat.lt_of_le_of_lt few bound)
  rw [UInt64.toNat_zero, Nat.zero_add] at total
  rw [counted, Exact.liftM_some_bind, Cipher.openingAt?_eq (by omega)]
  refine Exact.of_bind_eq fun plaintext _ => Exact.of_bind_eq fun bytes _ => ?_
  have tallied : ((Tally.start checksum).observe stored).count = count.toNat := by
    rw [Tally.observe_start, total]
    rfl
  have whole : count ≠ described.length ↔
      ((Tally.start checksum).observe stored).count ≠ described.length.toNat := by
    rw [tallied]
    exact not_congr UInt64.toNat_inj.symm
  simp only [whole, ← tallied]
  refine Exact.guard_eq fun _ => ?_
  refine Exact.of_bind_eq fun _ _ => rfl

/-- Behind the check of the range, every position lies in the section. -/
theorem rangeAt?_eq (bounded : described.stop < UInt64.size) (offset length : UInt64) :
    reader.rangeAt? described offset length = .of (reader.readRange described offset length) := by
  refine Exact.of_bind_eq fun _ checked => Exact.of_bind_eq fun cipher _ => ?_
  have inside : offset.toNat + length.toNat ≤ described.length.toNat := by
    rw [Section.checkRange] at checked
    split at checked
    · assumption
    · cases checked
  obtain ⟨origin, started, place⟩ := Cipher.exists_originAt? cipher offset
  have before := Cipher.seekOrigin_le cipher offset
  rw [started, Exact.liftM_some_bind, storedAt?_eq bounded (by omega), place]
  refine Exact.of_bind_eq fun stored opened => ?_
  have few := length_stored_le opened
  have bound := described.length.toNat_lt_size
  rw [Cipher.copyAt?_eq (by omega), Exact.liftM_some_bind]
  generalize copied : cipher.randomAccessStream described.key offset length stored = transfer
  have fewer : transfer.written ≤ length.toNat := by
    rw [← copied]
    exact Cipher.written_le _ _ _ _ _
  rw [Cipher.complete?_eq (by omega)]
  rcases transfer with ⟨output, written, failure⟩
  cases failure with
  | some error => rfl
  | none =>
      by_cases early : written < length.toNat
      · simp only [if_pos early]
        rfl
      · simp only [if_neg early]
        rfl

/-- Every section of a key that has been checked has an end that is a word. -/
theorem stop_lt_of_checkWithin {key : PackageKey} {bodyLength : Nat}
    (within : key.checkWithin bodyLength = .ok ()) (listed : described ∈ key.sections) :
    described.stop < UInt64.size := by
  rw [PackageKey.checkWithin, forM_eq_ok_iff] at within
  exact (Section.checkWithin_eq_ok_iff.mp (within described listed)).1

end BodyReader

/--
No position leaves the range of a word: with positions that are words, and with no result where
one of them is not exact, every read gives what it gives with natural numbers. This holds for all
reads of the sections of a key that has been checked for its body, at every offset and for every
length; for reads of a part of a ciphertext under every cipher, and for the reads of what has been
opened, into buffers of any size; and for the list in a packed buffer.
-/
theorem positions_exact :
    (∀ (key : PackageKey) (bodyLength : Nat), key.validate = .ok () →
      key.checkWithin bodyLength = .ok () → ∀ described ∈ key.sections, ∀ reader : BodyReader,
        (∀ offset length, reader.rangeAt? described offset length =
          .of (reader.readRange described offset length)) ∧
        (∀ verify label, reader.wholeAt? verify label described =
          .of (reader.readAll verify label described)) ∧
        reader.sectionAt? described = .of (reader.openSection described)) ∧
    (∀ (cipher : Cipher) (key : Bytes) (offset length : UInt64),
      (cipher.originAt? offset).map UInt64.toNat = some (cipher.seekOrigin offset) ∧
      (∀ ciphertext : Bytes, ciphertext.length < UInt64.size / 2 →
        cipher.partAt? key ciphertext offset length =
          .of (cipher.randomAccess key ciphertext offset length)) ∧
      ∀ stream : ByteStream, stream.content.length < UInt64.size →
        cipher.copyAt? key offset length stream =
          some (cipher.randomAccessStream key offset length stream) ∧
        ∀ part, cipher.openAt key offset stream = .ok part → ∀ rooms : List UInt64,
          (Chaining.Buffer.ofStream part).reads? rooms =
            some (part.reads (rooms.map UInt64.toNat))) ∧
    ∀ buffer : Bytes, buffer.length < UInt64.size →
      Packed.countedUnpack? buffer = .of (Packed.unpack buffer) := by
  refine ⟨?_, ?_, fun buffer short => Packed.countedUnpack?_eq short⟩
  · intro key bodyLength _ within described listed reader
    have bounded := BodyReader.stop_lt_of_checkWithin within listed
    exact ⟨BodyReader.rangeAt?_eq bounded, BodyReader.wholeAt?_eq bounded,
      BodyReader.sectionAt?_eq bounded⟩
  · intro cipher key offset length
    refine ⟨?_, fun ciphertext short => Cipher.partAt?_eq short, ?_⟩
    · obtain ⟨origin, started, place⟩ := Cipher.exists_originAt? cipher offset
      rw [started, Option.map_some, place]
    · intro stream short
      exact ⟨Cipher.copyAt?_eq short,
        fun part opened rooms => Cipher.reads?_of_openAt opened short rooms⟩

/-- Key data of an AES cipher. -/
def Margin.key : Bytes := List.replicate 48 255

/-- A text of one byte as a chained block, all but this byte of which are padding. -/
def Margin.stored : Bytes :=
  [224, 29, 228, 112, 155, 125, 192, 120, 118, 140, 47, 62, 229, 204, 151, 178]

/-- A section that holds the text, behind three other bytes. -/
def Margin.described : Section :=
  (Section.plain 3 16).withCipher "AES-256-CBC" key

/-- A reader of the body. -/
def Margin.reader : BodyReader :=
  ⟨⟨.ok [7], fun _ => .ok [], fun _ => .ok (some 19), fun _ position =>
    .ok (.ofBytes (([1, 2, 3] ++ stored).drop position))⟩, .standard, 7⟩

/-- Reads at the start of a text, in the padding behind it, and at the last of all offsets. -/
theorem positions_exact_margin :
    let index : PackageKey := ⟨Margin.described, [], none, none⟩
    let last : UInt64 := 18446744073709551615
    let stream : ByteStream := ⟨[Margin.stored.take 5, Margin.stored.drop 5], .finished⟩
    let buffer : Bytes := [0, 0, 0, 1, 0, 0, 0, 0, 0, 0, 0, 2, 7, 9]
    index.validate = .ok () ∧ index.checkWithin 19 = .ok () ∧
      Margin.described ∈ index.sections ∧
      Margin.reader.rangeAt? Margin.described 0 1 = .of (.ok [9]) ∧
      Margin.reader.rangeAt? Margin.described 5 3 = .of (.error (.range 5 3 1)) ∧
      Margin.reader.wholeAt? true "letter" Margin.described = .of (.ok [9]) ∧
      Margin.stored.length < UInt64.size / 2 ∧
      Cipher.chaining.partAt? Margin.key Margin.stored last last =
        .of (.error (.range last last 16)) ∧
      stream.content.length < UInt64.size ∧
      Cipher.chaining.copyAt? Margin.key last 2 stream =
        some ⟨[], 0, some (.range last 2 18446744073709551599)⟩ ∧
      (∃ part, Cipher.chaining.openAt Margin.key 0 stream = .ok part ∧
        (Chaining.Buffer.ofStream part).reads? [1, 4] = some [.ok [9], .ok []]) ∧
      buffer.length < UInt64.size ∧
      Packed.countedUnpack? buffer = .of (.ok [[7, 9]]) := by
  intro index last stream buffer
  have valid : index.validate = .ok () := rfl
  have within : index.checkWithin 19 = .ok () := rfl
  have listed : Margin.described ∈ index.sections := List.mem_cons_self
  have few : Margin.stored.length < UInt64.size / 2 := by decide
  have short : stream.content.length < UInt64.size := by decide
  have small : buffer.length < UInt64.size := by decide
  rcases positions_exact with ⟨sections, parts, lists⟩
  rcases sections index 19 valid within _ listed Margin.reader with ⟨ranges, wholes, _⟩
  have opened : Cipher.chaining.openAt Margin.key 0 stream = .ok ⟨[[9]], .finished⟩ := by
    decide +kernel
  refine ⟨valid, within, listed, ?_, ?_, ?_, few, ?_, short, ?_, ?_, small, ?_⟩
  · rw [ranges]
    apply congrArg Exact.of
    decide +kernel
  · rw [ranges]
    apply congrArg Exact.of
    decide +kernel
  · rw [wholes]
    apply congrArg Exact.of
    decide +kernel
  · rw [(parts .chaining Margin.key last last).2.1 _ few]
    apply congrArg Exact.of
    decide +kernel
  · rw [((parts .chaining Margin.key last 2).2.2 _ short).1]
    apply congrArg some
    decide +kernel
  · refine ⟨_, opened, ?_⟩
    rw [((parts .chaining Margin.key 0 0).2.2 _ short).2 _ opened]
    rfl
  · rw [lists _ small]
    apply congrArg Exact.of
    decide +kernel

end Missive
