import Missive.Proofs.Archive.Chunks
import Missive.Proofs.Package.Sections

/-!
# Sections read in one pass

While a section is decrypted, its stored bytes are counted and given to the checksum, all from one
stream. What comes of this is what comes of the section when it is cut out of its body
(`BodyReader.recover`): its bytes are decrypted as a whole, and then their checksum is compared. No
other byte of the body has any influence (`BodyReader.readAll_slice`).
-/

namespace Missive

/-! ### Reading ciphertexts -/

theorem ByteStream.reading_congr {stream other : ByteStream}
    (content : stream.content = other.content) (ending : stream.ending = other.ending) :
    stream.reading = other.reading := by
  simp only [reading, readToEnd, content, ending]

namespace Cipher

theorem reading_decryptedView_congr (cipher : Cipher) (key : Bytes) {stream other : ByteStream}
    (content : stream.content = other.content) (ending : stream.ending = other.ending) :
    (cipher.decryptedView key false stream >>= ByteStream.reading) =
      (cipher.decryptedView key false other >>= ByteStream.reading) := by
  cases cipher with
  | none => exact ByteStream.reading_congr content ending
  | counter =>
      simp only [decryptedView, keyData]
      cases KeyData.ofBytes? key with
      | none => rfl
      | some data =>
          apply ByteStream.reading_congr
          · rw [Counter.content_view, Counter.content_view, content]
          · exact ending
  | chaining =>
      simp only [decryptedView, keyData]
      cases KeyData.ofBytes? key with
      | none => rfl
      | some data =>
          have first := Chaining.view_decryptView data.cipher data.start
            ⟨false, some (.decrypt .emptyCiphertext)⟩ stream
          have second := Chaining.view_decryptView data.cipher data.start
            ⟨false, some (.decrypt .emptyCiphertext)⟩ other
          rw [content, ending] at first
          exact ByteStream.reading_congr (first.1.trans second.1.symm) (first.2.trans second.2.symm)

/-- Reading a ciphertext to its end is decrypting it, also where that fails. -/
theorem reading_reader (cipher : Cipher) (key : Bytes) {stream : ByteStream}
    (finished : stream.ending = .finished) :
    (cipher.reader key stream >>= ByteStream.reading) = cipher.decrypt key stream.content := by
  have whole := cipher.reading_decryptedView_congr key
    (ByteStream.content_ofBytes stream.content).symm finished
  have skipped : ∀ view : ByteStream,
      (if cipher = chaining then view.skip 0 else view).reading = view.reading := by
    intro view
    split
    · exact ByteStream.reading_congr (by simp) rfl
    · rfl
  rw [reader_eq]
  refine Eq.trans ?_ whole
  cases cipher.decryptedView key false stream with
  | error error => rfl
  | ok view => exact skipped view

end Cipher

/-! ### Sections inside a body -/

namespace BodyReader

variable {reader : BodyReader} {described : Section} {stream : ByteStream} {body text : Bytes}
  {verify : Bool} {label : String}

/-- What is stored of a section are its bytes, whatever the stream does after them. -/
theorem stored_of_openBody
    (opened : reader.source.openBody reader.number described.offset.toNat = .ok stream)
    (content : stream.content = body.drop described.offset.toNat)
    (inside : described.stop ≤ body.length) :
    ∃ stored, reader.stored described 0 = .ok stored ∧
      stored.content = described.bytesIn body ∧ stored.ending = .finished := by
  rw [Section.stop] at inside
  refine ⟨stream.limited described.length.toNat, ?_, ?_, ?_⟩
  · simp only [stored, Nat.add_zero, opened, bind, Except.bind, pure, Except.pure, Nat.sub_zero]
  · rw [ByteStream.content_limited, content]
    rfl
  · rw [ByteStream.ending_limited, if_pos]
    rw [content, List.length_drop]
    omega

theorem exists_stored {key : Bytes} (offers : reader.source.Offers reader.number body key)
    (inside : described.stop ≤ body.length) :
    ∃ stream, reader.stored described 0 = .ok stream ∧
      stream.content = described.bytesIn body ∧ stream.ending = .finished := by
  rcases offers.openBody _ (Nat.le_trans described.offset_le_stop inside)
      with ⟨stream, opened, content, _⟩
  exact stored_of_openBody opened content inside

/-- Compares the checksum of a byte string with the one that is recorded for a section. -/
def compareSum (label : String) (described : Section) (checksum : Option Checksum)
    (bytes : Bytes) : Except Error Unit :=
  match checksum, described.checksumValue with
  | some checksum, some expected =>
    if checksum.compute bytes = expected then .ok ()
    else .error (.checksumMismatch label (Hex.text expected) (Hex.text (checksum.compute bytes)))
  | _, _ => .ok ()

theorem checkSum_observe (checksum : Option Checksum) (stream : ByteStream) :
    checkSum label described ((Tally.start checksum).observe stream).checksum =
      compareSum label described checksum stream.content := by
  rw [Tally.observe_start]
  cases checksum with
  | none => rfl
  | some checksum =>
      unfold checkSum compareSum
      cases described.checksumValue with
      | none => rfl
      | some expected => simp only [Option.map_some, Checksum.value_observe]

/-- The plaintext of a section of which all stored bytes are at hand. -/
def recover (reader : BodyReader) (verify : Bool) (label : String) (described : Section)
    (bytes : Bytes) : Except Error Bytes := do
  let cipher ← reader.engines.cipherFor described.cipher
  let checksum ← reader.checksumFor verify described
  let text ← cipher.decrypt described.key bytes
  compareSum label described checksum bytes
  return text

/-- A section inside a body is read as if it had been cut out of the body. -/
theorem readAll_eq_recover
    (opened : reader.source.openBody reader.number described.offset.toNat = .ok stream)
    (content : stream.content = body.drop described.offset.toNat)
    (inside : described.stop ≤ body.length) :
    reader.readAll verify label described =
      reader.recover verify label described (described.bytesIn body) := by
  rcases stored_of_openBody opened content inside with ⟨stored, there, bytes, finished⟩
  have first (next : ByteStream → Except Error Bytes) :
      reader.stored described 0 >>= next = next stored := by
    rw [there]
    rfl
  -- The cipher reads to the end of what is stored, so every byte of the section has been noted.
  have count (checksum : Option Checksum) :
      ((Tally.start checksum).observe stored).count = described.length.toNat := by
    rw [Tally.observe_start, bytes, Section.length_bytesIn inside]
  have decrypt (cipher : Cipher) : cipher.decrypt described.key (described.bytesIn body) =
      cipher.reader described.key stored >>= ByteStream.reading := by
    rw [← bytes, cipher.reading_reader described.key finished]
  have compare (checksum : Option Checksum) :
      checkSum label described ((Tally.start checksum).observe stored).checksum =
        compareSum label described checksum (described.bytesIn body) := by
    rw [checkSum_observe, bytes]
  simp only [readAll, recover, first, decrypt, bind_assoc, count, compare, ne_eq,
    not_true_eq_false, if_false]

theorem readAll_of_offers {key : Bytes} (offers : reader.source.Offers reader.number body key)
    (inside : described.stop ≤ body.length) :
    reader.readAll verify label described =
      reader.recover verify label described (described.bytesIn body) := by
  rcases offers.openBody _ (Nat.le_trans described.offset_le_stop inside)
      with ⟨stream, opened, content, _⟩
  exact readAll_eq_recover opened content inside

theorem readAll_eq_ok_iff {key : Bytes} (offers : reader.source.Offers reader.number body key)
    (inside : described.stop ≤ body.length) :
    reader.readAll verify label described = .ok text ↔
      (∃ cipher, reader.engines.cipherFor described.cipher = .ok cipher ∧
        cipher.decrypt described.key (described.bytesIn body) = .ok text) ∧
      ∃ checksum, reader.checksumFor verify described = .ok checksum ∧
        compareSum label described checksum (described.bytesIn body) = .ok () := by
  rw [readAll_of_offers offers inside]
  constructor
  · intro read
    rcases bind_eq_ok_iff.mp read with ⟨cipher, known, read⟩
    rcases bind_eq_ok_iff.mp read with ⟨checksum, looked, read⟩
    rcases bind_eq_ok_iff.mp read with ⟨bytes, decrypted, read⟩
    rcases bind_unit_eq_ok_iff.mp read with ⟨compared, result⟩
    cases result
    exact ⟨⟨cipher, known, decrypted⟩, checksum, looked, compared⟩
  · rintro ⟨⟨cipher, known, decrypted⟩, checksum, looked, compared⟩
    simp only [recover, known, looked, decrypted, compared, bind, Except.bind, pure, Except.pure]

/-! ### Sections with and without a checksum to verify -/

variable {cipher : Cipher} {name : String} {expected bytes : Bytes}

theorem recover_of_unverified (known : reader.engines.cipherFor described.cipher = .ok cipher)
    (skipped : verify = false ∨ described.checksum = none) :
    reader.recover verify label described bytes = cipher.decrypt described.key bytes := by
  have looked : reader.checksumFor verify described = .ok none := by
    rcases skipped with rfl | missing
    · rfl
    · cases verify with
      | false => rfl
      | true =>
          simp only [checksumFor, missing]
          rfl
  have compared : compareSum label described none bytes = .ok () := rfl
  simp only [recover, known, looked, compared, bind, Except.bind, pure, Except.pure]
  cases cipher.decrypt described.key bytes <;> rfl

theorem recover_of_recorded (known : reader.engines.cipherFor described.cipher = .ok cipher)
    (recorded : described.checksum = some name) (value : described.checksumValue = some expected) :
    reader.recover true label described bytes = (do
      let checksum ← reader.engines.checksums.get name
      let text ← cipher.decrypt described.key bytes
      if checksum.compute bytes = expected then return text
      throw (.checksumMismatch label (Hex.text expected)
        (Hex.text (checksum.compute bytes)))) := by
  have looked :
      reader.checksumFor true described = (reader.engines.checksums.get name).map some := by
    simp only [checksumFor, recorded]
    cases reader.engines.checksums.get name <;> rfl
  simp only [recover, known, looked, compareSum, value, bind, Except.bind]
  cases reader.engines.checksums.get name with
  | error error => rfl
  | ok checksum =>
      cases cipher.decrypt described.key bytes with
      | error error => rfl
      | ok text =>
          by_cases same : checksum.compute bytes = expected
          · simp only [same, if_true, Except.map]
          · simp only [same, if_false, Except.map]
            rfl

/-- A verified checksum is the one that is recorded, of a registered algorithm. -/
theorem recover_eq_ok_iff (known : reader.engines.cipherFor described.cipher = .ok cipher)
    (paired : described.checksum.isSome = described.checksumValue.isSome) :
    reader.recover verify label described bytes = .ok text ↔
      cipher.decrypt described.key bytes = .ok text ∧
      (verify = true → ∀ name ∈ described.checksum, ∃ checksum,
        reader.engines.checksums.get name = .ok checksum ∧
        described.checksumValue = some (checksum.compute bytes)) := by
  cases verify with
  | false =>
      rw [recover_of_unverified known (.inl rfl)]
      simp
  | true =>
      cases recorded : described.checksum with
      | none =>
          rw [recover_of_unverified known (.inr recorded)]
          simp
      | some name =>
          rw [recorded] at paired
          rcases Option.isSome_iff_exists.mp paired.symm with ⟨expected, value⟩
          rw [recover_of_recorded known recorded value, value]
          constructor
          · intro recovered
            rcases bind_eq_ok_iff.mp recovered with ⟨checksum, found, recovered⟩
            rcases bind_eq_ok_iff.mp recovered with ⟨plain, decrypted, recovered⟩
            split at recovered
            · rename_i same
              cases recovered
              refine ⟨decrypted, ?_⟩
              rintro _ _ ⟨⟩
              exact ⟨checksum, found, congrArg some same.symm⟩
            · cases recovered
          · rintro ⟨decrypted, verified⟩
            rcases verified rfl name rfl with ⟨checksum, found, same⟩
            have equal := (Option.some.inj same).symm
            simp only [found, decrypted, equal, if_true, bind, Except.bind, pure, Except.pure]

theorem recover_of_unknown (known : reader.engines.cipherFor described.cipher = .ok cipher)
    (recorded : described.checksum = some name)
    (unknown : reader.engines.checksums.contains name = false) :
    reader.recover true label described bytes =
      .error (.unknownAlgorithm reader.engines.checksums.family name) := by
  have missing : reader.engines.checksums.find? name = none :=
    Option.isSome_eq_false_iff.mp unknown |> Option.isNone_iff_eq_none.mp
  simp only [recover, known, checksumFor, recorded, Registry.get, missing, bind, Except.bind]

theorem recover_of_undecryptable {error : Error}
    (known : reader.engines.cipherFor described.cipher = .ok cipher)
    (undecryptable : cipher.decrypt described.key bytes = .error error)
    (registered : verify = true → ∀ name ∈ described.checksum,
      reader.engines.checksums.contains name) :
    reader.recover verify label described bytes = .error error := by
  have looked : ∃ checksum, reader.checksumFor verify described = .ok checksum := by
    cases verify with
    | false => exact ⟨none, rfl⟩
    | true =>
        cases recorded : described.checksum with
        | none => exact ⟨none, by simp only [checksumFor, recorded]; rfl⟩
        | some name =>
            rcases Registry.exists_get_iff.mpr (registered rfl name recorded)
                with ⟨checksum, found⟩
            refine ⟨some checksum, ?_⟩
            simp only [checksumFor, recorded, found]
            rfl
  rcases looked with ⟨checksum, looked⟩
  simp only [recover, known, looked, undecryptable, bind, Except.bind]

/-! ### The whole reading -/

/--
A section of a valid key that lies inside the body is sliced, verified and decrypted, in whatever
pieces the body is read. An unknown checksum algorithm is reported before all else, then what the
cipher reports of the slice, then a checksum that differs. Every other reader that finds the same
slice in some body comes to the same result.
-/
theorem readAll_slice {key : PackageKey} (valid : key.validate = .ok ())
    (member : described ∈ key.sections)
    (known : reader.engines.cipherFor described.cipher = .ok cipher)
    (within : described.checkWithin body.length = .ok ())
    (opened : reader.source.openBody reader.number described.offset.toNat = .ok stream)
    (content : stream.content = body.drop described.offset.toNat)
    (verify : Bool) (label : String) :
    (∀ text, reader.readAll verify label described = .ok text ↔
      cipher.decrypt described.key (described.bytesIn body) = .ok text ∧
      (verify = true → ∀ name ∈ described.checksum, ∃ checksum,
        reader.engines.checksums.get name = .ok checksum ∧
        described.checksumValue = some (checksum.compute (described.bytesIn body)))) ∧
    (∀ name ∈ described.checksum, verify = true →
      reader.engines.checksums.contains name = false →
      reader.readAll verify label described =
        .error (.unknownAlgorithm reader.engines.checksums.family name)) ∧
    (∀ error, cipher.decrypt described.key (described.bytesIn body) = .error error →
      (verify = true → ∀ name ∈ described.checksum, reader.engines.checksums.contains name) →
      reader.readAll verify label described = .error error) ∧
    (∀ text name checksum expected, verify = true →
      cipher.decrypt described.key (described.bytesIn body) = .ok text →
      described.checksum = some name → reader.engines.checksums.get name = .ok checksum →
      described.checksumValue = some expected →
      checksum.compute (described.bytesIn body) ≠ expected →
      reader.readAll verify label described =
        .error (.checksumMismatch label (Hex.text expected)
          (Hex.text (checksum.compute (described.bytesIn body))))) ∧
    (∀ (other : BodyReader) (altered : Bytes) (rest : ByteStream),
      other.engines = reader.engines →
      other.source.openBody other.number described.offset.toNat = .ok rest →
      rest.content = altered.drop described.offset.toNat → described.stop ≤ altered.length →
      described.bytesIn altered = described.bytesIn body →
      other.readAll verify label described = reader.readAll verify label described) := by
  have inside := (Section.checkWithin_eq_ok_iff.mp within).2
  have sound := (PackageKey.validate_eq_ok_iff.mp valid).1 described member
  have paired := (Section.validate_eq_ok_iff.mp sound).2.1
  rw [readAll_eq_recover opened content inside]
  refine ⟨?_, ?_, ?_, ?_, ?_⟩
  · intro text
    exact recover_eq_ok_iff known paired
  · rintro name recorded rfl unknown
    exact recover_of_unknown known recorded unknown
  · intro error undecryptable registered
    exact recover_of_undecryptable known undecryptable registered
  · rintro text name checksum expected rfl decrypted recorded found value differs
    rw [recover_of_recorded known recorded value]
    simp only [found, decrypted, if_neg differs, bind, Except.bind]
    rfl
  · intro other altered rest engines reopened continued fits same
    rw [readAll_eq_recover reopened continued fits, same]
    simp only [recover, checksumFor, engines]
end BodyReader

/-- A section of three bytes, with its checksum. -/
def Between.described : Section :=
  (Section.plain 1 3).withChecksum "ADLER32" [0, 13, 0, 7]

/-- A reader of a body that is handed out in two reads, after which reading fails. -/
def Between.reader (body : Bytes) : BodyReader :=
  ⟨⟨.ok [7], fun _ => .ok [], fun _ => .ok (some body.length), fun _ position =>
    .ok ⟨[body.slice position 1, body.drop (position + 1)], .failing (.input .isDirectory)⟩⟩,
    .standard, 7⟩

/-- A section between other bytes is read; where one of its bytes differs, its checksum does. -/
theorem BodyReader.readAll_slice_between :
    (Between.reader [9, 1, 2, 3, 9]).readAll true "letter" Between.described = .ok [1, 2, 3] ∧
      (Between.reader [9, 1, 2, 4, 9]).readAll true "letter" Between.described =
        .error (.checksumMismatch "letter" "000d0007" "000e0008") := by
  have valid : PackageKey.validate ⟨Between.described, [], none, none⟩ = .ok () := rfl
  have known : Engines.standard.cipherFor none = .ok .none := rfl
  have within (byte : UInt8) :
      Between.described.checkWithin [9, 1, 2, byte, 9].length = .ok () := rfl
  have opened (byte : UInt8) :
      (Between.reader [9, 1, 2, byte, 9]).source.openBody 7 Between.described.offset.toNat =
        .ok ⟨[[1], [2, byte, 9]], .failing (.input .isDirectory)⟩ := rfl
  constructor
  · have slice := readAll_slice valid List.mem_cons_self known (within 3) (opened 3) rfl true
      "letter"
    refine (slice.1 _).mpr ⟨rfl, ?_⟩
    rintro _ name ⟨⟩
    exact ⟨.adler32, rfl, by decide +kernel⟩
  · have slice := readAll_slice valid List.mem_cons_self known (within 4) (opened 4) rfl true
      "letter"
    exact slice.2.2.2.1 _ _ .adler32 _ rfl rfl rfl rfl rfl (by decide +kernel)

end Missive
