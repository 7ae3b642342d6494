import Missive.Proofs.Cipher.Whole

/-!
# Decrypting undoes encrypting

The plaintext may come as several streams and the ciphertext may be read back as another stream,
each of them cut into pieces in any way. What has been encrypted is decrypted as it was, all at
once, to an output, or buffer by buffer.
-/

namespace Missive.Cipher

variable {cipher : Cipher} {key : Bytes}

theorem encryptStreams_of_finished (fits : key.length = cipher.keyLength)
    {inputs : List ByteStream} (finished : ∀ input ∈ inputs, input.ending = .finished)
    (observers : List Checksum.State) :
    ∃ view : ByteStream, view.ending = .finished ∧
      view.content = cipher.ciphertextOf key (inputs.map ByteStream.content).flatten ∧
      cipher.encryptStreams key inputs observers =
        (⟨view.content, view.content.length, Option.none⟩, observers.map (·.observe view)) := by
  have plaintext := ByteStream.concat_of_finished finished
  rcases encryptedView_of_finished fits plaintext.2 with ⟨view, encrypted, content, ended⟩
  refine ⟨view, ended, ?_, ?_⟩
  · rw [content, plaintext.1]
  · simp only [encryptStreams, encrypted, ByteStream.copy_of_finished ended]

theorem decryptStream_of_textOf? {stream : ByteStream} {text : Bytes}
    (finished : stream.ending = .finished)
    (decrypted : cipher.textOf? key stream.content = some text) (allowPartial : Bool) :
    cipher.decryptStream key allowPartial stream = ⟨text, text.length, Option.none⟩ := by
  rcases decryptedView_of_textOf? finished decrypted allowPartial
      with ⟨view, opened, content, ended⟩
  simp only [decryptStream, opened, ByteStream.copy_of_finished ended, content]

/--
Encrypting reports the number of bytes that it wrote, and each way to decrypt them gives the
text back, for every cut of the inputs, of the ciphertext and of the reads of the text.
-/
theorem decrypt_encryptStreams (fits : key.length = cipher.keyLength)
    {inputs : List ByteStream} (finished : ∀ input ∈ inputs, input.ending = .finished)
    (observers : List Checksum.State) :
    let text := (inputs.map ByteStream.content).flatten
    ∃ ciphertext : Bytes,
      (cipher.encryptStreams key inputs observers).1 =
        ⟨ciphertext, ciphertext.length, Option.none⟩ ∧
      ciphertext.length = cipher.storedLength text.length ∧
      cipher.decrypt key ciphertext = .ok text ∧
      ∀ stream : ByteStream, stream.content = ciphertext → stream.ending = .finished →
        (∀ allowPartial, cipher.decryptStream key allowPartial stream =
          ⟨text, text.length, Option.none⟩) ∧
        ∃ view, cipher.reader key stream = .ok view ∧
          ∀ sizes : Nat → Nat, (∀ index, 0 < sizes index) →
            view.drain sizes = ⟨text, Option.none, ⟨[], .finished⟩⟩ := by
  intro text
  rcases encryptStreams_of_finished fits finished observers with ⟨written, _, content, encrypted⟩
  have decrypted : cipher.textOf? key written.content = some text := by
    rw [content]
    exact textOf?_ciphertextOf fits text
  refine ⟨written.content, ?_, ?_, decrypt_eq_ok_iff.mpr decrypted, ?_⟩
  · rw [encrypted]
  · rw [content]
    exact length_ciphertextOf fits text
  · intro stream same ended
    rw [← same] at decrypted
    refine ⟨decryptStream_of_textOf? ended decrypted, ?_⟩
    rcases reader_of_textOf? ended decrypted with ⟨view, opened, plain, closed⟩
    refine ⟨view, opened, ?_⟩
    intro sizes room
    rw [ByteStream.drain_eq room, plain, closed]
    rfl

/-- Seventeen bytes in three reads of two streams, under a key of sevens. -/
theorem decrypt_encryptStreams_seventeen :
    let key : Bytes := List.replicate 48 7
    let inputs : List ByteStream :=
      [⟨[List.replicate 15 1, [2]], .finished⟩, ⟨[[3]], .finished⟩]
    let text : Bytes := List.replicate 15 1 ++ [2, 3]
    key.length = chaining.keyLength ∧ (∀ input ∈ inputs, input.ending = .finished) ∧
      ∃ ciphertext : Bytes,
        (chaining.encryptStreams key inputs []).1 = ⟨ciphertext, 32, Option.none⟩ ∧
        chaining.decrypt key ciphertext = .ok text ∧
        ∃ view, chaining.reader key (.ofBytes ciphertext) = .ok view ∧
          view.drain (fun _ => 1) = ⟨text, Option.none, ⟨[], .finished⟩⟩ := by
  intro key inputs text
  have fits : key.length = chaining.keyLength := by simp [key, keyLength, KeyData.length]
  have finished : ∀ input ∈ inputs, input.ending = .finished := by simp [inputs]
  rcases decrypt_encryptStreams fits finished [] with ⟨ciphertext, written, length, decrypted, read⟩
  have whole : ciphertext.length = 32 := by
    rw [length]
    decide
  rcases (read (.ofBytes ciphertext) (by simp) rfl).2 with ⟨view, opened, drained⟩
  refine ⟨fits, finished, ciphertext, ?_, decrypted, view, opened, ?_⟩
  · rw [written, whole]
  · exact drained (fun _ => 1) (fun _ => Nat.one_pos)

end Missive.Cipher
