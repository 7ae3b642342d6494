import Missive.Proofs.Cipher.Blockwise

/-!
# Truncated ciphertexts

A tolerant decryptor of chained blocks takes a ciphertext that has been cut off somewhere, and
gives out the text of the blocks that are complete. A cut between two blocks does not show: where
the text up to there ends like a padded one, the bytes that are left are the whole ciphertext of a
shorter text, and no decryptor can tell the two apart. This one takes such bytes as they stand,
and drops the padding (`Cipher.decryptStream_truncated`).
-/

namespace Missive

theorem Block.split_take {bytes : Bytes} {count : Nat} (inside : count ≤ bytes.length) :
    split (bytes.take count) = (split bytes).take (count / size) := by
  have counted : (split (bytes.take count)).length = count / size := by
    rw [length_split, List.length_take_of_le inside]
  have parts := split_append (bytes.take count) (bytes.drop count)
  rw [List.take_append_drop] at parts
  rw [parts, List.take_left' counted]

namespace Chaining

variable {cipher : BlockCipher} {start : Block} {text inner : Bytes} {count : Nat}

theorem encryptBlocks_take (cipher : BlockCipher) (chain : Block) (blocks : List Block)
    (count : Nat) :
    encryptBlocks cipher chain (blocks.take count) =
      (encryptBlocks cipher chain blocks).take count := by
  by_cases inside : count ≤ blocks.length
  · have parts := encryptBlocks_append cipher chain (blocks.take count) (blocks.drop count)
    rw [List.take_append_drop] at parts
    rw [parts, List.take_left' (by simp [inside])]
  · have long : blocks.length ≤ count := Nat.le_of_not_le inside
    simp [List.take_of_length_le, long]

/-- The bytes of a text in the blocks that a part of its ciphertext contains. -/
theorem length_kept (cut : count < (encrypt cipher start text).length) :
    Block.size * (count / Block.size) ≤ text.length := by
  simp only [length_encrypt, Block.size] at cut ⊢
  omega

/-- The complete blocks of a part of a ciphertext are the ones of the text. -/
theorem split_take_encrypt (cut : count < (encrypt cipher start text).length) :
    Block.split ((encrypt cipher start text).take count) =
      encryptBlocks cipher start
        (Block.split (text.take (Block.size * (count / Block.size)))) := by
  have kept := length_kept cut
  have blocks : count / Block.size ≤ (Block.split text).length := by
    rw [Block.length_split]
    simp only [Block.size] at kept ⊢
    omega
  rcases split_pad text with ⟨last, padded, _⟩
  rw [Block.split_take (Nat.le_of_lt cut), encrypt, Block.split_join, ← encryptBlocks_take, padded,
    List.take_append_of_le_length blocks, Block.split_take kept,
    Nat.mul_div_cancel_left _ (by decide)]

theorem join_plainBlocks_take (inverts : cipher.Inverts)
    (cut : count < (encrypt cipher start text).length) :
    Block.join (plainBlocks cipher start ((encrypt cipher start text).take count)) =
      text.take (Block.size * (count / Block.size)) := by
  rw [← decryptBlocks_split, split_take_encrypt cut, decryptBlocks_encryptBlocks inverts]
  apply Block.join_split_of_dvd
  rw [List.length_take_of_le (length_kept cut), Nat.mul_mod_right]

/-- A part of a ciphertext carries a text where it ends with a block that ends in padding. -/
theorem carries_take_iff (inverts : cipher.Inverts)
    (cut : count < (encrypt cipher start text).length) :
    Carries cipher start ((encrypt cipher start text).take count) inner ↔
      count % Block.size = 0 ∧ Padded inner (text.take (Block.size * (count / Block.size))) := by
  have length : ((encrypt cipher start text).take count).length = count :=
    List.length_take_of_le (Nat.le_of_lt cut)
  constructor
  · rintro ⟨_, whole, padded⟩
    rw [join_plainBlocks_take inverts cut] at padded
    exact ⟨length ▸ whole, padded⟩
  · rintro ⟨whole, padded⟩
    refine ⟨?_, length.symm ▸ whole, ?_⟩
    · rw [length]
      apply Nat.pos_of_ne_zero
      rintro rfl
      exact padded.ne_nil (by simp)
    · rwa [join_plainBlocks_take inverts cut]

/-- Whole blocks that end in padding are a filled text. -/
theorem pad_of_padded {filled : Bytes} (padded : Padded inner filled)
    (whole : filled.length % Block.size = 0) : pad inner = filled := by
  rcases padded with ⟨number, positive, small, rfl⟩
  have same : Block.size - inner.length % Block.size = number := by
    simp only [List.length_append, List.length_replicate, Block.size] at whole small ⊢
    omega
  simp only [pad, same]

/-- Where a part of a ciphertext carries a text, it is the ciphertext of this text. -/
theorem encrypt_of_padded (cut : count < (encrypt cipher start text).length)
    (whole : count % Block.size = 0)
    (padded : Padded inner (text.take (Block.size * (count / Block.size)))) :
    encrypt cipher start inner = (encrypt cipher start text).take count := by
  have length : ((encrypt cipher start text).take count).length % Block.size = 0 := by
    rwa [List.length_take_of_le (Nat.le_of_lt cut)]
  have filled := pad_of_padded padded (by
    rw [List.length_take_of_le (length_kept cut), Nat.mul_mod_right])
  rw [encrypt, filled, ← split_take_encrypt cut, Block.join_split_of_dvd length]

end Chaining

namespace Cipher

open Chaining (Carries Padded)

variable {key text inner : Bytes} {count : Nat} {stream : ByteStream}

theorem encrypt_eq_ciphertextOf {cipher : Cipher} (fits : key.length = cipher.keyLength)
    (text : Bytes) : cipher.encrypt key text = .ok (cipher.ciphertextOf key text) := by
  rcases encryptedView_of_finished fits (ByteStream.ending_ofBytes text)
    with ⟨view, encrypted, content, ended⟩
  rw [ByteStream.content_ofBytes] at content
  simp [encrypt, encrypted, ByteStream.readToEnd_of_finished ended, content, mapError_ok, bind,
    Except.bind]

theorem exists_of_encrypt {ciphertext : Bytes} (fits : key.length = KeyData.length)
    (encrypted : chaining.encrypt key text = .ok ciphertext) :
    ∃ data, KeyData.ofBytes? key = some data ∧
      ciphertext = Chaining.encrypt data.cipher data.start text := by
  rcases KeyData.exists_ofBytes? fits with ⟨data, known⟩
  rw [encrypt_eq_ciphertextOf fits, Except.ok.injEq] at encrypted
  exact ⟨data, known, by simp only [← encrypted, ciphertextOf, known]⟩

/-- A part of a ciphertext that ends in padding is a ciphertext, and decrypted as such. -/
theorem decryptStream_of_padded {ciphertext : Bytes} (fits : key.length = KeyData.length)
    (encrypted : chaining.encrypt key text = .ok ciphertext) (cut : count < ciphertext.length)
    (finished : stream.ending = .finished) (content : stream.content = ciphertext.take count)
    (whole : count % Block.size = 0)
    (padded : Padded inner (text.take (Block.size * (count / Block.size)))) :
    chaining.encrypt key inner = .ok (ciphertext.take count) ∧
      chaining.decryptStream key true stream = ⟨inner, inner.length, Option.none⟩ := by
  rcases exists_of_encrypt fits encrypted with ⟨data, known, rfl⟩
  constructor
  · rw [encrypt_eq_ciphertextOf fits, ← Chaining.encrypt_of_padded cut whole padded]
    simp only [ciphertextOf, known]
  · have carries := (Chaining.carries_take_iff data.inverts_cipher cut).mpr ⟨whole, padded⟩
    rw [← content] at carries
    have view := Chaining.view_of_carries ⟨true, Option.none⟩ finished carries
    rw [decryptStream_chaining known, if_pos rfl, ByteStream.copy_of_finished view.2, view.1]

/-- Otherwise all complete blocks are given out. -/
theorem decryptStream_of_not_padded {ciphertext : Bytes} (fits : key.length = KeyData.length)
    (encrypted : chaining.encrypt key text = .ok ciphertext) (cut : count < ciphertext.length)
    (finished : stream.ending = .finished) (content : stream.content = ciphertext.take count)
    (unpadded : ∀ inner, count % Block.size = 0 →
      ¬Padded inner (text.take (Block.size * (count / Block.size)))) :
    chaining.decryptStream key true stream =
      ⟨text.take (Block.size * (count / Block.size)), Block.size * (count / Block.size),
        Option.none⟩ := by
  rcases exists_of_encrypt fits encrypted with ⟨data, known, rfl⟩
  have none : ∀ inner, ¬Carries data.cipher data.start stream.content inner := by
    intro inner carries
    rw [content, Chaining.carries_take_iff data.inverts_cipher cut] at carries
    exact unpadded inner carries.1 carries.2
  have view := Chaining.view_partial_of_not_carries finished none
  rw [content, Chaining.join_plainBlocks_take data.inverts_cipher cut] at view
  rw [decryptStream_chaining known, if_pos rfl, ByteStream.copy_of_finished view.2, view.1,
    List.length_take_of_le (Chaining.length_kept cut)]

/--
A block that is a text followed by its padding is the first one of a longer text. Cut off behind
it, the ciphertext gives fifteen bytes and not sixteen.
-/
theorem decryptStream_cut_behind_padding :
    let key : Bytes := List.replicate 48 7
    let text : Bytes := List.replicate 16 1
    ∃ ciphertext : Bytes, chaining.encrypt key text = .ok ciphertext ∧ 16 < ciphertext.length ∧
      text.take (16 * (16 / 16)) = List.replicate 16 1 ∧
      chaining.encrypt key (List.replicate 15 1) = .ok (ciphertext.take 16) ∧
      chaining.decryptStream key true (.ofBytes (ciphertext.take 16)) =
        ⟨List.replicate 15 1, 15, Option.none⟩ ∧
      chaining.decryptStream key true (.ofBytes (ciphertext.take 16)) ≠
        ⟨text.take (16 * (16 / 16)), 16, Option.none⟩ := by
  intro key text
  have fits : key.length = chaining.keyLength := by simp [key, keyLength, KeyData.length]
  have encrypted := encrypt_eq_ciphertextOf fits text
  have cut : 16 < (chaining.ciphertextOf key text).length := by
    rw [length_ciphertextOf fits]
    decide
  have padded : Padded (List.replicate 15 1) (text.take (Block.size * (16 / Block.size))) :=
    ⟨1, by decide, by decide, by decide⟩
  rcases decryptStream_of_padded fits encrypted cut (ByteStream.ending_ofBytes _)
    (ByteStream.content_ofBytes _) (by decide) padded with ⟨shorter, given⟩
  refine ⟨_, encrypted, cut, by decide, shorter, given, ?_⟩
  rw [given]
  decide

/--
Of a ciphertext that is cut off, a tolerant decryptor gives out the text of all complete blocks,
wherever the cut is and however the rest is read. Only where the cut is at the end of a block and
the text up to there ends in padding it gives out the text without the padding: what has been
left is the whole ciphertext of that text.
-/
theorem decryptStream_truncated {ciphertext : Bytes} (fits : key.length = KeyData.length)
    (encrypted : chaining.encrypt key text = .ok ciphertext) (cut : count < ciphertext.length)
    (finished : stream.ending = .finished) (content : stream.content = ciphertext.take count) :
    let kept := text.take (Block.size * (count / Block.size))
    kept.length = Block.size * (count / Block.size) ∧
      ((∀ inner, count % Block.size = 0 → ¬Padded inner kept) →
        chaining.decryptStream key true stream = ⟨kept, kept.length, Option.none⟩) ∧
      ∀ inner, count % Block.size = 0 → Padded inner kept →
        chaining.encrypt key inner = .ok (ciphertext.take count) ∧
          chaining.decryptStream key true stream = ⟨inner, inner.length, Option.none⟩ := by
  intro kept
  have length : kept.length = Block.size * (count / Block.size) := by
    rcases exists_of_encrypt fits encrypted with ⟨data, _, rfl⟩
    exact List.length_take_of_le (Chaining.length_kept cut)
  refine ⟨length, ?_, ?_⟩
  · intro unpadded
    rw [length]
    exact decryptStream_of_not_padded fits encrypted cut finished content unpadded
  · intro inner whole padded
    exact decryptStream_of_padded fits encrypted cut finished content whole padded

/-- Forty bytes, of which a cut within the third block leaves two, and one before it all but one. -/
theorem decryptStream_truncated_forty :
    let key : Bytes := List.replicate 48 7
    let text : Bytes := List.replicate 40 1
    ∃ ciphertext : Bytes, key.length = KeyData.length ∧
      chaining.encrypt key text = .ok ciphertext ∧ 39 < ciphertext.length ∧
      chaining.decryptStream key true (.ofBytes (ciphertext.take 39)) =
        ⟨List.replicate 32 1, 32, Option.none⟩ ∧
      chaining.decryptStream key true (.ofBytes (ciphertext.take 32)) =
        ⟨List.replicate 31 1, 31, Option.none⟩ := by
  intro key text
  have fits : key.length = chaining.keyLength := by simp [key, keyLength, KeyData.length]
  have encrypted := encrypt_eq_ciphertextOf fits text
  have cut : ∀ count < 48, count < (chaining.ciphertextOf key text).length := by
    rw [length_ciphertextOf fits]
    decide
  have inside := decryptStream_truncated fits encrypted (cut 39 (by decide))
    (ByteStream.ending_ofBytes _) (ByteStream.content_ofBytes _)
  have between := decryptStream_truncated fits encrypted (cut 32 (by decide))
    (ByteStream.ending_ofBytes _) (ByteStream.content_ofBytes _)
  have padded : Padded (List.replicate 31 1) (text.take (Block.size * (32 / Block.size))) :=
    ⟨1, by decide, by decide, by decide⟩
  refine ⟨_, fits, encrypted, cut 39 (by decide), ?_, ?_⟩
  · exact inside.2.1 fun _ whole => absurd whole (by decide)
  · exact (between.2.2 _ (by decide) padded).2

end Cipher

end Missive
