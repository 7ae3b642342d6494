import Missive.Proofs.Cipher.Whole

/-!
# Parts of a text

The plaintext of a ciphertext can be opened at an offset. Opening reads the ciphertext from
`seekOrigin` on, which for chained blocks is the block before the one of the offset. Whatever the
ciphertext is, as long as it has a text as a whole, what is opened is the text from the offset on,
and an offset after the end of the text gives nothing or a range error (`openRange_inside`,
`openRange_beyond`).
-/

namespace Missive

/-- A place in a ciphertext of whole blocks, just before the block that is numbered `index`. -/
theorem Block.exists_block {bytes : Bytes} {index : Nat} (whole : Block.remainder bytes = [])
    (inside : index * Block.size < bytes.length) :
    ∃ front block back, Block.split bytes = front ++ block :: back ∧ front.length = index ∧
      bytes.drop (index * Block.size) = block.toBytes ++ Block.join back := by
  have few : index < (Block.split bytes).length := by
    rw [Block.remainder_eq_nil_iff] at whole
    rw [Block.length_split]
    simp only [Block.size] at inside whole ⊢
    omega
  have parts : Block.split bytes = (Block.split bytes).take index ++
      (Block.split bytes)[index] :: (Block.split bytes).drop (index + 1) := by
    rw [← List.drop_eq_getElem_cons, List.take_append_drop]
  have count : ((Block.split bytes).take index).length = index := by
    rw [List.length_take]
    omega
  refine ⟨_, _, _, parts, count, ?_⟩
  have joined := Block.join_split_append_remainder bytes
  rw [whole, List.append_nil, parts, Block.join_append, Block.join_cons] at joined
  have length : (Block.join ((Block.split bytes).take index)).length = index * Block.size := by
    rw [Block.length_join, count, Nat.mul_comm]
  have dropped := congrArg (List.drop (index * Block.size)) joined
  rw [List.drop_left' length] at dropped
  exact dropped.symm

namespace Chaining

variable (cipher : BlockCipher)

/-! ### Places in a text -/

theorem skipWithin_of_le {offset : UInt64} {base skipped : Nat} {stream : ByteStream}
    (enough : skipped ≤ stream.content.length) :
    skipWithin offset base skipped stream = stream.skip skipped := by
  rw [skipWithin, if_neg]
  rintro ⟨_, short⟩
  omega

theorem skipWithin_of_lt {offset : UInt64} {base skipped : Nat} {stream : ByteStream}
    (finished : stream.ending = .finished) (short : stream.content.length < skipped) :
    skipWithin offset base skipped stream =
      ⟨[], .rejected (.ofError (.range offset 0 (base + stream.content.length)))⟩ := by
  rw [skipWithin, if_pos ⟨finished, short⟩]

theorem primed_of_finished {stream : ByteStream} (finished : stream.ending = .finished) :
    primed stream = .ok stream := by
  rw [primed, finished]
  cases stream.pieces <;> rfl

theorem primed_of_rejected (error : Error) :
    primed ⟨[], .rejected (.ofError error)⟩ = .error error := by
  simp only [primed, Ending.error?, StreamError.toError_ofError]

theorem decryptPieces_of_empty {strictness : Strictness} {ending : Ending} {chain : Block}
    {pieces : List Bytes} (empty : pieces.flatten = []) :
    decryptPieces cipher strictness ending chain none [] pieces =
      decryptPieces cipher strictness ending chain none [] [] := by
  induction pieces generalizing chain with
  | nil => rfl
  | cons piece pieces ih =>
      rw [List.flatten_cons, List.append_eq_nil_iff] at empty
      rcases empty with ⟨rfl, later⟩
      have nothing : Block.split [] = [] := Block.split_of_lt (by simp [Block.size])
      have same := @ih chain later
      simp only [decryptPieces, List.append_nil, nothing, decryptBlocks, Option.toList_none,
        List.getLast?_nil, List.getLastD_nil, Block.remainder, List.drop_nil, List.dropLast_nil,
        Block.join_nil, ByteStream.consPiece, List.isEmpty_nil, if_true] at same ⊢
      exact same

/-- A ciphertext without blocks is rejected before the first byte. -/
theorem decryptView_of_empty {start : Block} {error : Error} {stream : ByteStream}
    (finished : stream.ending = .finished) (empty : stream.content = []) :
    decryptView cipher start ⟨false, some error⟩ stream = ⟨[], .rejected (.ofError error)⟩ := by
  rw [decryptView, decryptPieces_of_empty cipher empty, finished]
  rfl

/-! ### Opening at an offset -/

/-- After the first block, decryption begins with the block before the one of the offset. -/
theorem openAt_of_splitExactly {start : Block} {offset : UInt64} {stream rest : ByteStream}
    {chain : Block} (later : offset.toNat / Block.size ≠ 0)
    (split : stream.splitExactly Block.size = .ok (chain.toBytes, rest)) :
    openAt cipher start offset stream =
      primed (skipWithin offset (offset.toNat / Block.size * Block.size)
        (offset.toNat % Block.size)
        (decryptView cipher chain
          ⟨false, some (.range offset 0 (offset.toNat / Block.size * Block.size - 1))⟩ rest)) := by
  have positive : offset ≠ 0 := by
    rintro rfl
    exact later rfl
  simp only [openAt, if_neg later]
  split
  · rename_i bytes other whole
    rw [split] at whole
    cases whole
    simp only [pure, Except.pure, bind, Except.bind, if_neg positive, Block.ofBytes_toBytes]
  · rename_i error failed
    rw [split] at failed
    cases failed

variable {start : Block} {offset : UInt64} {stream : ByteStream} {ciphertext text : Bytes}

/-- The text is opened from the block of the offset on, and the rest of the way is skipped. -/
def OpensBlock (cipher : BlockCipher) (start : Block) (offset : UInt64) (stream : ByteStream)
    (text : Bytes) : Prop :=
  ∃ view : ByteStream, view.ending = .finished ∧
    view.content = text.drop (offset.toNat / Block.size * Block.size) ∧
    offset.toNat / Block.size * Block.size ≤ text.length ∧
    openAt cipher start offset stream =
      primed (skipWithin offset (offset.toNat / Block.size * Block.size)
        (offset.toNat % Block.size) view)

theorem opensBlock_of_first (finished : stream.ending = .finished)
    (content : stream.content = ciphertext) (whole : Block.remainder ciphertext = [])
    (decrypted : text? cipher start (Block.split ciphertext) = some text)
    (first : offset.toNat / Block.size = 0) : OpensBlock cipher start offset stream text := by
  rw [← content] at whole decrypted
  have view := view_of_text? cipher ⟨false, some (.decrypt .emptyCiphertext)⟩ finished whole
    decrypted
  refine ⟨_, view.2, ?_, ?_, ?_⟩
  · rw [first, Nat.zero_mul, List.drop_zero]
    exact view.1
  · rw [first, Nat.zero_mul]
    exact Nat.zero_le _
  · simp only [openAt, if_pos first, pure, Except.pure, bind, Except.bind]
    by_cases zero : offset = 0
    · rw [if_pos zero, primed_of_finished]
      rw [zero, skipWithin_of_le (by simp)]
      exact view.2
    · rw [if_neg zero]

/-- The chained block is taken from the stream, and the text of the blocks after it remains. -/
theorem opensBlock_of_later (finished : stream.ending = .finished)
    (content : stream.content = ciphertext.drop (seekOrigin offset.toNat))
    (whole : Block.remainder ciphertext = [])
    (decrypted : text? cipher start (Block.split ciphertext) = some text)
    (inside : offset.toNat / Block.size * Block.size < ciphertext.length) {index : Nat}
    (next : offset.toNat / Block.size = index + 1) :
    OpensBlock cipher start offset stream text := by
  have later : offset.toNat / Block.size ≠ 0 := by omega
  have before : index * Block.size < ciphertext.length := by
    rw [next, Nat.succ_mul] at inside
    omega
  rcases Block.exists_block whole before with ⟨front, chain, back, blocks, count, place⟩
  rw [seekOrigin, next, Nat.succ_sub_one, place] at content
  have split : stream.splitExactly Block.size =
      .ok (chain.toBytes, stream.skip Block.size) := by
    rw [ByteStream.splitExactly_of_le, content, Block.take_toBytes_append]
    rw [content, List.length_append, Block.length_toBytes]
    exact Nat.le_add_right _ _
  have rest : (stream.skip Block.size).content = Block.join back := by
    rw [ByteStream.content_skip, content, Block.drop_toBytes_append]
  have present : back ≠ [] := by
    rintro rfl
    have length := congrArg List.length place
    rw [List.length_drop, List.length_append, Block.length_toBytes, Block.join_nil,
      List.length_nil] at length
    rw [next, Nat.succ_mul] at inside
    omega
  rw [blocks, List.append_cons, text?_append cipher start _ present, List.getLastD_concat,
    Option.map_eq_some_iff] at decrypted
  rcases decrypted with ⟨remaining, opened, parts⟩
  have length : (Block.join (decryptBlocks cipher start (front ++ [chain]))).length =
      offset.toNat / Block.size * Block.size := by
    rw [Block.length_join, length_decryptBlocks, List.length_append, count, next,
      List.length_singleton, Nat.mul_comm]
  have ended : (stream.skip Block.size).ending = .finished := finished
  have view := view_of_text? cipher
    ⟨false, some (.range offset 0 (offset.toNat / Block.size * Block.size - 1))⟩ ended
    (by rw [rest, Block.remainder_join]) (by rw [rest, Block.split_join, opened])
  refine ⟨_, view.2, ?_, ?_, openAt_of_splitExactly cipher later split⟩
  · rw [view.1, ← parts, List.drop_left' length]
  · rw [← parts, List.length_append, length]
    exact Nat.le_add_right _ _

/-- Where the block of the offset exists, the text is opened from this block on. -/
theorem openAt_of_block (finished : stream.ending = .finished)
    (content : stream.content = ciphertext.drop (seekOrigin offset.toNat))
    (whole : Block.remainder ciphertext = [])
    (decrypted : text? cipher start (Block.split ciphertext) = some text)
    (inside : offset.toNat / Block.size * Block.size < ciphertext.length) :
    OpensBlock cipher start offset stream text := by
  cases index : offset.toNat / Block.size with
  | zero =>
      rw [seekOrigin, index] at content
      exact opensBlock_of_first cipher finished content whole decrypted index
  | succ previous =>
      exact opensBlock_of_later cipher finished content whole decrypted inside index

/-- Where the block of the offset does not exist, the offset is out of range. -/
theorem openAt_of_no_block (finished : stream.ending = .finished)
    (content : stream.content = ciphertext.drop (seekOrigin offset.toNat))
    (present : ciphertext ≠ [])
    (beyond : ciphertext.length ≤ offset.toNat / Block.size * Block.size) :
    ∃ limit, openAt cipher start offset stream = .error (.range offset 0 limit) := by
  have later : offset.toNat / Block.size ≠ 0 := by
    intro first
    rw [first, Nat.zero_mul, Nat.le_zero, List.length_eq_zero_iff] at beyond
    exact present beyond
  refine ⟨offset.toNat / Block.size * Block.size - 1, ?_⟩
  by_cases enough : Block.size ≤ stream.content.length
  · have front : (stream.content.take Block.size).length = Block.size := by
      rw [List.length_take]
      omega
    have split := ByteStream.splitExactly_of_le enough
    rw [← Block.toBytes_ofBytes _ front] at split
    have nothing : (stream.skip Block.size).content = [] := by
      apply List.length_eq_zero_iff.mp
      rw [ByteStream.content_skip, content, List.length_drop, List.length_drop, seekOrigin,
        Nat.sub_mul, Nat.one_mul]
      omega
    have ended : (stream.skip Block.size).ending = .finished := finished
    rw [openAt_of_splitExactly cipher later split,
      decryptView_of_empty cipher ended nothing, skipWithin, if_neg (by simp)]
    exact primed_of_rejected _
  · have short := ByteStream.splitExactly_of_lt (Nat.lt_of_not_le enough)
    simp only [openAt, if_neg later]
    split
    · rename_i bytes rest whole
      rw [short] at whole
      cases whole
    · rename_i error failed
      rw [short, finished] at failed
      cases failed
      rfl

theorem openAt_inside (finished : stream.ending = .finished)
    (content : stream.content = ciphertext.drop (seekOrigin offset.toNat))
    (whole : Block.remainder ciphertext = [])
    (decrypted : text? cipher start (Block.split ciphertext) = some text)
    (inside : offset.toNat ≤ text.length) :
    ∃ part : ByteStream, openAt cipher start offset stream = .ok part ∧
      part.content = text.drop offset.toNat ∧ part.ending = .finished := by
  have place : offset.toNat / Block.size * Block.size + offset.toNat % Block.size =
      offset.toNat := Nat.div_add_mod' _ _
  have padded := length_text? cipher decrypted
  have blocks : Block.size * (Block.split ciphertext).length = ciphertext.length := by
    rw [← Block.length_join, Block.join_split_of_dvd]
    exact (Block.remainder_eq_nil_iff _).mp whole
  rcases openAt_of_block cipher finished content whole decrypted (by omega)
      with ⟨view, ended, rest, base, opened⟩
  have enough : offset.toNat % Block.size ≤ view.content.length := by
    rw [rest, List.length_drop]
    omega
  have skipped : (view.skip (offset.toNat % Block.size)).ending = .finished := ended
  rw [skipWithin_of_le enough, primed_of_finished skipped] at opened
  refine ⟨_, opened, ?_, ended⟩
  rw [ByteStream.content_skip, rest, List.drop_drop, place]

/-- An offset after the end of the text is out of range, also within the padding. -/
theorem openAt_beyond (finished : stream.ending = .finished)
    (content : stream.content = ciphertext.drop (seekOrigin offset.toNat))
    (whole : Block.remainder ciphertext = [])
    (decrypted : text? cipher start (Block.split ciphertext) = some text)
    (beyond : text.length < offset.toNat) :
    ∃ limit, openAt cipher start offset stream = .error (.range offset 0 limit) ∧
      (offset.toNat < ciphertext.length → limit = text.length) := by
  have place : offset.toNat / Block.size * Block.size + offset.toNat % Block.size =
      offset.toNat := Nat.div_add_mod' _ _
  by_cases inside : offset.toNat / Block.size * Block.size < ciphertext.length
  · rcases openAt_of_block cipher finished content whole decrypted inside
        with ⟨view, ended, rest, base, opened⟩
    have short : view.content.length < offset.toNat % Block.size := by
      rw [rest, List.length_drop]
      omega
    rw [skipWithin_of_lt ended short, primed_of_rejected] at opened
    refine ⟨_, opened, ?_⟩
    intro _
    rw [rest, List.length_drop]
    omega
  · have present : ciphertext ≠ [] := by
      rintro rfl
      have nothing : Block.split [] = [] := Block.split_of_lt (by simp [Block.size])
      rw [nothing] at decrypted
      cases decrypted
    rcases openAt_of_no_block cipher finished content present (Nat.le_of_not_lt inside)
        with ⟨limit, opened⟩
    refine ⟨limit, opened, ?_⟩
    intro before
    omega

end Chaining

namespace Cipher

variable {cipher : Cipher} {key ciphertext text : Bytes}

/-! ### Parts under any cipher -/

theorem seekOrigin_le (cipher : Cipher) (offset : UInt64) :
    cipher.seekOrigin offset ≤ offset.toNat := by
  cases cipher with
  | none => exact Nat.le_refl _
  | counter => exact Nat.le_refl _
  | chaining =>
      simp only [seekOrigin, Chaining.seekOrigin, Block.size]
      omega

theorem length_textOf?_le (decrypted : cipher.textOf? key ciphertext = some text) :
    text.length ≤ ciphertext.length := by
  cases cipher with
  | none =>
      cases decrypted
      exact Nat.le_refl _
  | counter =>
      cases known : KeyData.ofBytes? key with
      | none => simp [textOf?, known] at decrypted
      | some data =>
          simp only [textOf?, known, Option.some.injEq] at decrypted
          exact Nat.le_of_eq (by rw [← decrypted, Counter.length_mask])
  | chaining =>
      cases known : KeyData.ofBytes? key with
      | none => simp [textOf?, known] at decrypted
      | some data =>
          simp only [textOf?, known, Option.ite_none_right_eq_some] at decrypted
          have padded := (Chaining.length_text? data.cipher decrypted.2).1
          rw [Block.length_split] at padded
          have whole := Nat.mul_div_le ciphertext.length Block.size
          omega

/--
Opened at an offset, a ciphertext gives its text from there on. Chained blocks refuse an offset
after the end of the text; the other ciphers give nothing there.
-/
theorem openAt_of_textOf? {offset : UInt64} {stream : ByteStream}
    (finished : stream.ending = .finished)
    (content : stream.content = ciphertext.drop (cipher.seekOrigin offset))
    (decrypted : cipher.textOf? key ciphertext = some text) :
    (∃ part : ByteStream, cipher.openAt key offset stream = .ok part ∧
      part.content = text.drop offset.toNat ∧ part.ending = .finished ∧
      (cipher.seekOrigin offset ≤ ciphertext.length → offset.toNat ≤ text.length)) ∨
    (text.length < offset.toNat ∧
      ∃ limit, cipher.openAt key offset stream = .error (.range offset 0 limit) ∧
        (offset.toNat < ciphertext.length → limit = text.length)) := by
  cases cipher with
  | none =>
      cases decrypted
      exact .inl ⟨stream, rfl, content, finished, id⟩
  | counter =>
      cases known : KeyData.ofBytes? key with
      | none => simp [textOf?, known] at decrypted
      | some data =>
          simp only [textOf?, known, Option.some.injEq] at decrypted
          refine .inl
            ⟨Counter.view data.cipher data.start offset.toNat stream, ?_, ?_, finished, ?_⟩
          · simp only [openAt, keyData, known, pure, Except.pure, bind, Except.bind]
          · rw [Counter.content_view, content, ← decrypted, Counter.mask_drop, Nat.zero_add,
              seekOrigin]
          · rw [← decrypted, Counter.length_mask]
            exact id
  | chaining =>
      cases known : KeyData.ofBytes? key with
      | none => simp [textOf?, known] at decrypted
      | some data =>
          simp only [textOf?, known, Option.ite_none_right_eq_some] at decrypted
          simp only [openAt, keyData, known, bind, Except.bind]
          rcases Nat.lt_or_ge text.length offset.toNat with beyond | inside
          · exact .inr ⟨beyond, Chaining.openAt_beyond data.cipher finished content decrypted.1
              decrypted.2 beyond⟩
          · obtain ⟨part, opened, rest, ended⟩ :=
              Chaining.openAt_inside data.cipher finished content decrypted.1 decrypted.2 inside
            exact .inl ⟨part, opened, rest, ended, fun _ => inside⟩

/-- What is opened for a range is the part of the text there. -/
theorem openRange_of_textOf? {offset : UInt64} (length : UInt64) {stream : ByteStream}
    (finished : stream.ending = .finished)
    (content : stream.content = ciphertext.drop (cipher.seekOrigin offset))
    (decrypted : cipher.textOf? key ciphertext = some text) :
    (∃ part : ByteStream, cipher.openRange key offset length stream = .ok part ∧
      part.content = text.slice offset.toNat length.toNat ∧ part.ending = .finished ∧
      (cipher.seekOrigin offset ≤ ciphertext.length → offset.toNat ≤ text.length)) ∨
    (text.length < offset.toNat ∧
      ∃ limit, cipher.openRange key offset length stream = .error (.range offset length limit) ∧
        (offset.toNat < ciphertext.length → limit = text.length)) := by
  rcases openAt_of_textOf? finished content decrypted with
    ⟨part, opened, rest, ended, inside⟩ | ⟨beyond, limit, refused, reached⟩
  · refine .inl ⟨part.limited length.toNat, ?_, ?_, ?_, inside⟩
    · simp only [openRange, opened, mapError_ok, pure, Except.pure, bind, Except.bind]
    · rw [ByteStream.content_limited, rest, Bytes.slice]
    · exact ByteStream.ending_limited_of_finished _ ended
  · refine .inr ⟨beyond, limit, ?_, reached⟩
    simp only [openRange, refused, mapError_error, withLength, bind, Except.bind]

theorem length_slice (text : Bytes) (offset length : Nat) :
    (text.slice offset length).length = min length (text.length - offset) := by
  rw [Bytes.slice, List.length_take, List.length_drop]

/-- Without an encryption the part is cut out; otherwise it is opened and must be complete. -/
theorem randomAccess_eq (encrypted : cipher ≠ none) (offset length : UInt64) :
    cipher.randomAccess key ciphertext offset length =
      if ciphertext.length < cipher.seekOrigin offset then
        .error (.range offset length ciphertext.length)
      else do
        let part ← cipher.openRange key offset length
          (.ofBytes (ciphertext.drop (cipher.seekOrigin offset)))
        let bytes ← part.readToEnd.mapError StreamError.toError
        if bytes.length < length.toNat then
          .error (.range offset length (offset.toNat + bytes.length))
        else return bytes := by
  cases cipher with
  | none => exact absurd rfl encrypted
  | counter => rfl
  | chaining => rfl

/--
Reading a part of a ciphertext agrees with decrypting it as a whole. All of the part must lie
within the text; otherwise the range error says where the text ends, unless the offset is past
the end of both the text and the ciphertext.
-/
theorem randomAccess_of_decrypt (decrypted : cipher.decrypt key ciphertext = .ok text)
    (offset length : UInt64) :
    (offset.toNat + length.toNat ≤ text.length →
      cipher.randomAccess key ciphertext offset length =
        .ok (text.slice offset.toNat length.toNat)) ∧
    (text.length < offset.toNat + length.toNat →
      ∃ limit, cipher.randomAccess key ciphertext offset length =
          .error (.range offset length limit) ∧
        (offset.toNat ≤ text.length ∨ offset.toNat < ciphertext.length →
          limit = text.length)) := by
  rw [decrypt_eq_ok_iff] at decrypted
  by_cases clear : cipher = none
  · subst clear
    cases decrypted
    constructor
    · intro inside
      simp only [randomAccess, if_pos inside]
    · intro beyond
      refine ⟨ciphertext.length, ?_, fun _ => rfl⟩
      simp only [randomAccess, if_neg (Nat.not_le.mpr beyond)]
  · rw [randomAccess_eq clear]
    have shorter := length_textOf?_le decrypted
    have origin := seekOrigin_le cipher offset
    have content : (ByteStream.ofBytes (ciphertext.drop (cipher.seekOrigin offset))).content =
        ciphertext.drop (cipher.seekOrigin offset) := ByteStream.content_ofBytes _
    by_cases outside : ciphertext.length < cipher.seekOrigin offset
    · rw [if_pos outside]
      refine ⟨fun inside => by omega, fun _ => ⟨ciphertext.length, rfl, fun near => by omega⟩⟩
    · rw [if_neg outside]
      rcases openRange_of_textOf? length rfl content decrypted with
        ⟨part, opened, rest, ended, inside⟩ | ⟨beyond, limit, refused, reached⟩
      · have start := inside (Nat.le_of_not_lt outside)
        simp only [opened, bind, Except.bind, pure, Except.pure,
          ByteStream.readToEnd_of_finished ended, mapError_ok, rest, length_slice]
        constructor
        · intro enough
          rw [if_neg (by omega)]
        · intro short
          refine ⟨_, if_pos (by omega), ?_⟩
          intro _
          omega
      · refine ⟨fun inside => by omega, fun _ => ⟨limit, ?_, ?_⟩⟩
        · simp only [refused, bind, Except.bind]
        · intro near
          exact reached (by omega)

/-- Past the end, in the padding, and with a sum above the largest offset. -/
theorem randomAccess_of_decrypt_seventeen :
    let key : Bytes := List.replicate 48 255
    let text : Bytes := List.replicate 16 1 ++ [9]
    let ciphertext := chaining.ciphertextOf key text
    chaining.decrypt key ciphertext = .ok text ∧
      chaining.randomAccess key ciphertext 15 2 = .ok [1, 9] ∧
      chaining.randomAccess key ciphertext 18 0 = .error (.range 18 0 17) ∧
      chaining.randomAccess key ciphertext 17 18446744073709551615 =
        .error (.range 17 18446744073709551615 17) := by
  intro key text ciphertext
  have fits : key.length = chaining.keyLength := by simp [key, keyLength, KeyData.length]
  have decrypted : chaining.decrypt key ciphertext = .ok text :=
    decrypt_eq_ok_iff.mpr (textOf?_ciphertextOf fits text)
  have stored : ciphertext.length = 32 := by
    rw [length_ciphertextOf fits]
    decide
  refine ⟨decrypted, (randomAccess_of_decrypt decrypted 15 2).1 (by decide), ?_, ?_⟩
  · rcases (randomAccess_of_decrypt decrypted 18 0).2 (by decide) with ⟨limit, refused, reached⟩
    rw [refused, reached (.inr (by rw [stored]; decide))]
    rfl
  · rcases (randomAccess_of_decrypt decrypted 17 18446744073709551615).2 (by decide)
        with ⟨limit, refused, reached⟩
    rw [refused, reached (.inl (by decide))]
    rfl

end Cipher

end Missive
