import Missive.Cipher
import Missive.Proofs.Cipher.Aes256
import Missive.Proofs.Cipher.Chaining
import Missive.Proofs.Cipher.Counter
import Missive.Proofs.Outcome

/-!
# Whole texts under a section cipher

`ciphertextOf` is the ciphertext of a whole text, and `textOf?` the text of a whole ciphertext,
both without any stream. The operations on streams agree with them, however the streams are cut;
and what has been encrypted is decrypted as it was (`textOf?_ciphertextOf`).
-/

namespace Missive

/-- AES-256 can be undone under every key. -/
theorem KeyData.inverts_cipher (data : KeyData) : data.cipher.Inverts :=
  Aes256.inverts_cipher data.key

theorem KeyData.exists_ofBytes? {key : Bytes} (fits : key.length = KeyData.length) :
    ∃ data, KeyData.ofBytes? key = some data := by
  rw [KeyData.ofBytes?, dif_pos fits]
  exact ⟨_, rfl⟩

namespace Cipher

/-- The ciphertext of a whole text, for key data of the right length. -/
def ciphertextOf (cipher : Cipher) (key text : Bytes) : Bytes :=
  match cipher, KeyData.ofBytes? key with
  | counter, some data => Counter.mask data.cipher data.start 0 text
  | chaining, some data => Chaining.encrypt data.cipher data.start text
  | _, _ => text

/-- The text of a whole ciphertext, if the key data and the ciphertext are in order. -/
def textOf? (cipher : Cipher) (key ciphertext : Bytes) : Option Bytes :=
  match cipher, KeyData.ofBytes? key with
  | none, _ => some ciphertext
  | counter, some data => some (Counter.mask data.cipher data.start 0 ciphertext)
  | chaining, some data =>
    if Block.remainder ciphertext = [] then
      Chaining.text? data.cipher data.start (Block.split ciphertext)
    else Option.none
  | _, _ => Option.none

/-- The number of bytes that a cipher stores for a text of the given length. -/
def storedLength : Cipher → Nat → Nat
  | none, length | counter, length => length
  | chaining, length => Block.size * (length / Block.size + 1)

theorem length_ciphertextOf {cipher : Cipher} {key : Bytes} (fits : key.length = cipher.keyLength)
    (text : Bytes) : (cipher.ciphertextOf key text).length = cipher.storedLength text.length := by
  cases cipher with
  | none => rfl
  | counter =>
      rcases KeyData.exists_ofBytes? fits with ⟨data, known⟩
      simp [ciphertextOf, known, storedLength]
  | chaining =>
      rcases KeyData.exists_ofBytes? fits with ⟨data, known⟩
      simp [ciphertextOf, known, storedLength]

/-- Decrypting what has been encrypted gives the text back. -/
theorem textOf?_ciphertextOf {cipher : Cipher} {key : Bytes}
    (fits : key.length = cipher.keyLength) (text : Bytes) :
    cipher.textOf? key (cipher.ciphertextOf key text) = some text := by
  cases cipher with
  | none => rfl
  | counter =>
      rcases KeyData.exists_ofBytes? fits with ⟨data, known⟩
      simp only [textOf?, ciphertextOf, known, Counter.mask_mask]
  | chaining =>
      rcases KeyData.exists_ofBytes? fits with ⟨data, known⟩
      simp only [textOf?, ciphertextOf, known, Chaining.remainder_encrypt, if_true,
        Chaining.text?_split_encrypt data.inverts_cipher]

/-! ### Streams that are encrypted -/

theorem encryptedView_of_finished {cipher : Cipher} {key : Bytes}
    (fits : key.length = cipher.keyLength) {stream : ByteStream}
    (finished : stream.ending = .finished) :
    ∃ view, cipher.encryptedView key stream = .ok view ∧
      view.content = cipher.ciphertextOf key stream.content ∧ view.ending = .finished := by
  cases cipher with
  | none => exact ⟨stream, rfl, rfl, finished⟩
  | counter =>
      rcases KeyData.exists_ofBytes? fits with ⟨data, known⟩
      refine ⟨Counter.view data.cipher data.start 0 stream, ?_, ?_, finished⟩
      · simp only [encryptedView, keyData, known, pure, Except.pure, bind, Except.bind]
      · simp only [Counter.content_view, ciphertextOf, known]
  | chaining =>
      rcases KeyData.exists_ofBytes? fits with ⟨data, known⟩
      have view := Chaining.content_encryptView data.cipher data.start finished
      refine ⟨Chaining.encryptView data.cipher data.start stream, ?_, ?_, view.2⟩
      · simp only [encryptedView, keyData, known, pure, Except.pure, bind, Except.bind]
      · simp only [view.1, ciphertextOf, known]

/-! ### Streams that are decrypted -/

theorem decryptedView_of_textOf? {cipher : Cipher} {key : Bytes} {stream : ByteStream}
    {text : Bytes} (finished : stream.ending = .finished)
    (decrypted : cipher.textOf? key stream.content = some text) (allowPartial : Bool) :
    ∃ view, cipher.decryptedView key allowPartial stream = .ok view ∧
      view.content = text ∧ view.ending = .finished := by
  cases cipher with
  | none =>
      have same : stream.content = text := by simpa [textOf?] using decrypted
      exact ⟨stream, rfl, same, finished⟩
  | counter =>
      cases known : KeyData.ofBytes? key with
      | none => simp [textOf?, known] at decrypted
      | some data =>
          refine ⟨Counter.view data.cipher data.start 0 stream, ?_, ?_, finished⟩
          · simp only [decryptedView, keyData, known, pure, Except.pure, bind, Except.bind]
          · simpa [textOf?, known] using decrypted
  | chaining =>
      cases known : KeyData.ofBytes? key with
      | none => simp [textOf?, known] at decrypted
      | some data =>
          simp only [textOf?, known] at decrypted
          split at decrypted
          · rename_i whole
            have view := Chaining.view_of_text? data.cipher
              ⟨allowPartial, if allowPartial then Option.none else some (.decrypt .emptyCiphertext)⟩
              finished whole decrypted
            refine ⟨_, ?_, view⟩
            simp only [decryptedView, keyData, known, pure, Except.pure, bind, Except.bind]
          · simp at decrypted

theorem textOf?_of_decryptedView {cipher : Cipher} {key : Bytes} {stream view : ByteStream}
    (finished : stream.ending = .finished)
    (opened : cipher.decryptedView key false stream = .ok view)
    (ended : view.ending = .finished) :
    cipher.textOf? key stream.content = some view.content := by
  cases cipher with
  | none =>
      cases opened
      rfl
  | counter =>
      cases known : KeyData.ofBytes? key with
      | none => simp [decryptedView, keyData, known, bind, Except.bind] at opened
      | some data =>
          simp only [decryptedView, keyData, known, pure, Except.pure, bind, Except.bind,
            Except.ok.injEq] at opened
          subst opened
          simp only [textOf?, known, Counter.content_view]
  | chaining =>
      cases known : KeyData.ofBytes? key with
      | none => simp [decryptedView, keyData, known, bind, Except.bind] at opened
      | some data =>
          simp only [decryptedView, keyData, known, pure, Except.pure, bind, Except.bind,
            Except.ok.injEq, Bool.false_eq_true, if_false] at opened
          subst opened
          rcases Chaining.text?_of_view data.cipher finished ended with ⟨whole, decrypted⟩
          simp only [textOf?, known, whole, if_true, decrypted]

/-- A reader of a whole ciphertext gives what the decrypted view gives. -/
theorem reader_eq (cipher : Cipher) (key : Bytes) (stream : ByteStream) :
    cipher.reader key stream = (cipher.decryptedView key false stream).map
      fun view => if cipher = chaining then view.skip 0 else view := by
  cases cipher with
  | none => rfl
  | counter =>
      simp only [reader, openAt, decryptedView, keyData]
      cases KeyData.ofBytes? key <;> rfl
  | chaining =>
      simp only [reader, openAt, decryptedView, keyData]
      cases KeyData.ofBytes? key with
      | none => rfl
      | some data =>
          simp only [Chaining.openAt_zero, pure, Except.pure, bind, Except.bind, Except.map,
            if_true, Bool.false_eq_true, if_false]

theorem reader_of_textOf? {cipher : Cipher} {key : Bytes} {stream : ByteStream}
    {text : Bytes} (finished : stream.ending = .finished)
    (decrypted : cipher.textOf? key stream.content = some text) :
    ∃ view, cipher.reader key stream = .ok view ∧
      view.content = text ∧ view.ending = .finished := by
  rcases decryptedView_of_textOf? finished decrypted false with ⟨view, opened, content, ended⟩
  refine ⟨if cipher = chaining then view.skip 0 else view, ?_, ?_, ?_⟩
  · rw [reader_eq, opened, Except.map]
  · split
    · rw [ByteStream.content_skip, List.drop_zero, content]
    · exact content
  · split
    · exact ended
    · exact ended

/-- What a reader reports as the end of a ciphertext is the end of its text. -/
theorem textOf?_of_reader {cipher : Cipher} {key : Bytes} {stream view : ByteStream}
    (finished : stream.ending = .finished) (opened : cipher.reader key stream = .ok view)
    (ended : view.ending = .finished) :
    cipher.textOf? key stream.content = some view.content := by
  rw [reader_eq] at opened
  cases whole : cipher.decryptedView key false stream with
  | error error => simp [whole, Except.map] at opened
  | ok text =>
      simp only [whole, Except.map, Except.ok.injEq] at opened
      have same : view.content = text.content ∧ view.ending = text.ending := by
        rw [← opened]
        split
        · exact ⟨by simp, rfl⟩
        · exact ⟨rfl, rfl⟩
      rw [same.1]
      exact textOf?_of_decryptedView finished whole (same.2.symm.trans ended)

/-- Decrypting a whole ciphertext succeeds exactly when it has a text, and gives the text. -/
theorem decrypt_eq_ok_iff {cipher : Cipher} {key ciphertext text : Bytes} :
    cipher.decrypt key ciphertext = .ok text ↔ cipher.textOf? key ciphertext = some text := by
  constructor
  · intro decrypted
    cases opened : cipher.decryptedView key false (.ofBytes ciphertext) with
    | error error => simp [decrypt, opened, bind, Except.bind] at decrypted
    | ok view =>
        simp only [decrypt, opened, bind, Except.bind, ByteStream.readToEnd] at decrypted
        cases failure : view.ending.error? with
        | some error => simp [failure, mapError_error] at decrypted
        | none =>
            simp only [failure, mapError_ok, Except.ok.injEq] at decrypted
            have ended : view.ending = .finished := by
              cases shape : view.ending <;> simp_all [Ending.error?]
            rw [← decrypted, ← textOf?_of_decryptedView (ByteStream.ending_ofBytes _) opened ended,
              ByteStream.content_ofBytes]
  · intro decrypted
    rcases decryptedView_of_textOf?
      (ByteStream.ending_ofBytes ciphertext) (by rwa [ByteStream.content_ofBytes]) false
        with ⟨view, opened, content, ended⟩
    simp only [decrypt, opened, bind, Except.bind, ByteStream.readToEnd_of_finished ended,
      mapError_ok, content]

end Cipher

end Missive
