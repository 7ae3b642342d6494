import Missive.Proofs.Cipher.Whole

/-!
# Chained ciphertexts, block by block

A decryptor of chained blocks carries bytes, a block and a chaining value from one read to the
next. What it makes of a ciphertext is said here without any of these: each block is decrypted and
masked with the one before it (`plainBlocks`), and the ciphertext carries a text if all of it is
whole blocks and the last one ends in its padding (`Carries`).

A decryptor gives out that text. Where there is none, everything but the last decrypted block has
been given out before the fault is found, and a tolerant decryptor gives out the last block, too.
The same goes for a reader with buffers of any sizes (`Cipher.chaining_blockwise`).
-/

namespace Missive.Chaining

/-- The blocks of a ciphertext, each decrypted and masked with the one before it. -/
def plainBlocks (cipher : BlockCipher) (start : Block) (ciphertext : Bytes) : List Block :=
  let blocks := Block.split ciphertext
  List.zipWith (fun block before => (cipher.decrypt block).xor before) blocks (start :: blocks)

/-- A ciphertext of whole blocks that decrypt to a padded text. -/
structure Carries (cipher : BlockCipher) (start : Block) (ciphertext text : Bytes) : Prop where
  present : 0 < ciphertext.length
  whole : ciphertext.length % Block.size = 0
  padded : Padded text (Block.join (plainBlocks cipher start ciphertext))

/-- What is wrong with a ciphertext that carries no text. -/
def fault (ciphertext : Bytes) : DecryptFault :=
  if ciphertext = [] then .emptyCiphertext
  else if ciphertext.length % Block.size ≠ 0 then
    .incompleteBlock (ciphertext.length % Block.size)
  else .invalidPadding

/-- What is given out before the end of a ciphertext is known: all blocks but the last one. -/
def released (cipher : BlockCipher) (start : Block) (ciphertext : Bytes) : Bytes :=
  (Block.join (plainBlocks cipher start ciphertext)).take
    (Block.size * (ciphertext.length / Block.size - 1))

variable {cipher : BlockCipher} {start : Block} {ciphertext text : Bytes} {stream : ByteStream}

/-! ### Blocks by themselves -/

theorem decryptBlocks_eq_zipWith (chain : Block) (blocks : List Block) :
    decryptBlocks cipher chain blocks =
      List.zipWith (fun block before => (cipher.decrypt block).xor before) blocks
        (chain :: blocks) := by
  induction blocks generalizing chain with
  | nil => rfl
  | cons block blocks ih => rw [decryptBlocks, ih, List.zipWith_cons_cons]

theorem decryptBlocks_split :
    decryptBlocks cipher start (Block.split ciphertext) = plainBlocks cipher start ciphertext :=
  decryptBlocks_eq_zipWith start (Block.split ciphertext)

theorem length_plainBlocks :
    (plainBlocks cipher start ciphertext).length = ciphertext.length / Block.size := by
  rw [← decryptBlocks_split, length_decryptBlocks, Block.length_split]

theorem join_dropLast (blocks : List Block) :
    Block.join blocks.dropLast = (Block.join blocks).take (Block.size * (blocks.length - 1)) := by
  rcases List.eq_nil_or_concat blocks with rfl | ⟨front, last, rfl⟩
  · rfl
  · rw [List.concat_eq_append, List.dropLast_concat, Block.join_append, List.length_append,
      List.length_singleton, Nat.add_sub_cancel, ← Block.length_join, List.take_left]

theorem join_dropLast_plainBlocks :
    Block.join (plainBlocks cipher start ciphertext).dropLast =
      released cipher start ciphertext := by
  rw [join_dropLast, length_plainBlocks, released]

theorem join_dropLast_append {blocks : List Block} {last : Block}
    (held : blocks.getLast? = some last) :
    Block.join blocks.dropLast ++ last.toBytes = Block.join blocks := by
  rcases List.getLast?_eq_some_iff.mp held with ⟨front, rfl⟩
  rw [List.dropLast_concat, Block.join_append, Block.join_cons, Block.join_nil, List.append_nil]

/-! ### Padded texts -/

theorem Padded.ne_nil {filled : Bytes} (padded : Padded text filled) : filled ≠ [] := by
  rcases padded with ⟨count, positive, _, rfl⟩
  intro nothing
  have counted := congrArg List.length nothing
  rw [List.length_append, List.length_replicate, List.length_nil] at counted
  omega

/-- The text of some blocks is the one that they are padded to. -/
theorem unpadded?_eq_some_iff {blocks : List Block} :
    unpadded? blocks = some text ↔ Padded text (Block.join blocks) := by
  rcases List.eq_nil_or_concat blocks with rfl | ⟨front, last, rfl⟩
  · refine iff_of_false (by simp [unpadded?]) ?_
    intro padded
    exact padded.ne_nil rfl
  · have parts : unpadded? (front ++ [last]) =
        (unpad? last).map (Block.join front ++ ·) := by
      rw [unpadded?_append front (List.cons_ne_nil last [])]
      simp [unpadded?]
    rw [List.concat_eq_append, parts, Option.map_eq_some_iff, Block.join_append, Block.join_cons,
      Block.join_nil, List.append_nil]
    constructor
    · rintro ⟨rest, unpadded, rfl⟩
      rcases unpad?_eq_some_iff.mp unpadded with ⟨count, positive, small, shape⟩
      exact ⟨count, positive, small, by rw [shape, List.append_assoc]⟩
    · rintro ⟨count, positive, small, shape⟩
      -- The padding fits into the last block, so the blocks before it are all text.
      have counted := congrArg List.length shape
      simp only [List.length_append, Block.length_toBytes, List.length_replicate] at counted
      have front_eq : text.take (Block.join front).length = Block.join front := by
        have taken := congrArg (List.take (Block.join front).length) shape
        rw [List.take_left, List.take_append_of_le_length (by omega)] at taken
        exact taken.symm
      refine ⟨text.drop (Block.join front).length, ?_, ?_⟩
      · refine unpad?_eq_some_iff.mpr ⟨count, positive, small, ?_⟩
        have dropped := congrArg (List.drop (Block.join front).length) shape
        rw [List.drop_left, List.drop_append_of_le_length (by omega)] at dropped
        exact dropped
      · have parts := List.take_append_drop (Block.join front).length text
        rwa [front_eq] at parts

theorem carries_iff :
    Carries cipher start ciphertext text ↔ Block.remainder ciphertext = [] ∧
      text? cipher start (Block.split ciphertext) = some text := by
  rw [text?, unpadded?_eq_some_iff, decryptBlocks_split, Block.remainder_eq_nil_iff]
  constructor
  · intro carries
    exact ⟨carries.whole, carries.padded⟩
  · rintro ⟨whole, padded⟩
    refine ⟨?_, whole, padded⟩
    apply Nat.pos_of_ne_zero
    intro empty
    apply padded.ne_nil
    rw [← List.length_eq_zero_iff, Block.length_join, length_plainBlocks, empty, Nat.zero_div,
      Nat.mul_zero]

/-! ### Decrypted views -/

theorem view_of_carries (strictness : Strictness) (finished : stream.ending = .finished)
    (carries : Carries cipher start stream.content text) :
    (decryptView cipher start strictness stream).content = text ∧
      (decryptView cipher start strictness stream).ending = .finished := by
  rcases carries_iff.mp carries with ⟨whole, decrypted⟩
  exact view_of_text? cipher strictness finished whole decrypted

/-- A view of a ciphertext, by the blocks and the bytes that are left at its end. -/
theorem view_eq (cipher : BlockCipher) (start : Block) (strictness : Strictness)
    (stream : ByteStream) :
    (decryptView cipher start strictness stream).content = released cipher start stream.content ++
        (closing strictness stream.ending (plainBlocks cipher start stream.content).getLast?
          (Block.remainder stream.content)).1 ∧
      (decryptView cipher start strictness stream).ending =
        (closing strictness stream.ending (plainBlocks cipher start stream.content).getLast?
          (Block.remainder stream.content)).2 := by
  rcases view_decryptView cipher start strictness stream with ⟨content, ending⟩
  rw [decryptBlocks_split] at content ending
  rw [join_dropLast_plainBlocks] at content
  exact ⟨content, ending⟩

/-- In a ciphertext without a text, a last block that nothing comes after has no padding. -/
theorem unpad?_of_not_carries {last : Block} (none : ∀ text, ¬Carries cipher start ciphertext text)
    (whole : Block.remainder ciphertext = [])
    (held : (plainBlocks cipher start ciphertext).getLast? = some last) :
    unpad? last = Option.none := by
  cases rest : unpad? last with
  | none => rfl
  | some bytes =>
      have decrypted : text? cipher start (Block.split ciphertext) =
          some (Block.join (plainBlocks cipher start ciphertext).dropLast ++ bytes) := by
        simp only [text?, decryptBlocks_split, unpadded?, held, rest, Option.bind_eq_bind,
          Option.bind_some, Option.pure_def]
      exact absurd (carries_iff.mpr ⟨whole, decrypted⟩) (none _)

theorem eq_nil_of_getLast? (whole : Block.remainder ciphertext = [])
    (none : (plainBlocks cipher start ciphertext).getLast? = Option.none) : ciphertext = [] := by
  rw [List.getLast?_eq_none_iff, ← List.length_eq_zero_iff, length_plainBlocks] at none
  rw [Block.remainder_eq_nil_iff] at whole
  rw [← List.length_eq_zero_iff]
  simp only [Block.size] at none whole
  omega

theorem view_of_not_carries (finished : stream.ending = .finished)
    (none : ∀ text, ¬Carries cipher start stream.content text) :
    let view := decryptView cipher start ⟨false, some (.decrypt .emptyCiphertext)⟩ stream
    view.content = released cipher start stream.content ∧
      view.ending = .rejected (.ofError (.decrypt (fault stream.content))) := by
  have view := view_eq cipher start ⟨false, some (.decrypt .emptyCiphertext)⟩ stream
  suffices closed : closing ⟨false, some (.decrypt .emptyCiphertext)⟩ stream.ending
      (plainBlocks cipher start stream.content).getLast? (Block.remainder stream.content) =
        ([], .rejected (.ofError (.decrypt (fault stream.content)))) by
    rwa [closed, List.append_nil] at view
  rw [finished]
  by_cases whole : Block.remainder stream.content = []
  · have complete := (Block.remainder_eq_nil_iff _).mp whole
    cases held : (plainBlocks cipher start stream.content).getLast? with
    | none =>
        have empty := eq_nil_of_getLast? whole held
        simp only [closing, finish, whole, fault, if_pos empty, ne_eq, not_true_eq_false,
          false_and, if_false]
    | some last =>
        have present : stream.content ≠ [] := by
          intro empty
          rw [empty, List.getLast?_eq_some_iff] at held
          rcases held with ⟨front, shape⟩
          have counted := congrArg List.length shape
          simp [length_plainBlocks] at counted
        simp only [closing, finish, whole, fault, if_neg present, complete,
          unpad?_of_not_carries none whole held, ne_eq, not_true_eq_false, false_and, if_false,
          Bool.false_eq_true]
  · have left : stream.content.length % Block.size ≠ 0 := by
      rwa [Ne, ← Block.remainder_eq_nil_iff]
    have present : stream.content ≠ [] := by
      intro empty
      rw [empty] at left
      exact left rfl
    simp only [closing, finish, fault, if_neg present, if_pos left, whole, Block.length_remainder,
      ne_eq, not_false_eq_true, and_self, if_true]

theorem view_partial_of_not_carries (finished : stream.ending = .finished)
    (none : ∀ text, ¬Carries cipher start stream.content text) :
    let view := decryptView cipher start ⟨true, Option.none⟩ stream
    view.content = Block.join (plainBlocks cipher start stream.content) ∧
      view.ending = .finished := by
  have view := view_eq cipher start ⟨true, Option.none⟩ stream
  rw [finished] at view
  cases held : (plainBlocks cipher start stream.content).getLast? with
  | none =>
      have nothing := List.getLast?_eq_none_iff.mp held
      have closed : closing ⟨true, Option.none⟩ .finished Option.none
          (Block.remainder stream.content) = ([], .finished) := by
        simp [closing, finish]
      rw [held, closed, List.append_nil, ← join_dropLast_plainBlocks, nothing] at view
      rw [nothing]
      exact view
  | some last =>
      have closed : closing ⟨true, Option.none⟩ .finished (some last)
          (Block.remainder stream.content) = (last.toBytes, .finished) := by
        by_cases whole : Block.remainder stream.content = []
        · simp [closing, finish, whole, unpad?_of_not_carries none whole held]
        · simp [closing, finish, whole]
      rw [held, closed, ← join_dropLast_plainBlocks, join_dropLast_append held] at view
      exact view

/-- A failing ciphertext gives out what is known by then. -/
theorem view_of_failure (cipher : BlockCipher) (start : Block) (strictness : Strictness)
    {error : StreamError} (failed : stream.ending.error? = some error) :
    let view := decryptView cipher start strictness stream
    view.content = released cipher start stream.content ∧ view.ending.error? = some error := by
  have view := view_eq cipher start strictness stream
  cases ending : stream.ending with
  | finished =>
      rw [ending] at failed
      cases failed
  | failing fault =>
      simp only [ending, closing, List.append_nil] at view failed
      exact ⟨view.1, view.2 ▸ failed⟩
  | rejected fault =>
      simp only [ending, closing, List.append_nil] at view failed
      exact ⟨view.1, view.2 ▸ failed⟩

end Missive.Chaining

namespace Missive.Cipher

open Chaining (Carries plainBlocks released fault)

variable {key : Bytes} {data : KeyData}

theorem decryptStream_chaining (known : KeyData.ofBytes? key = some data) (allowPartial : Bool)
    (stream : ByteStream) :
    chaining.decryptStream key allowPartial stream =
      (Chaining.decryptView data.cipher data.start
        ⟨allowPartial, if allowPartial then Option.none else some (.decrypt .emptyCiphertext)⟩
        stream).copy := by
  simp only [decryptStream, decryptedView, keyData, known, pure, Except.pure, bind, Except.bind]

theorem reader_chaining (known : KeyData.ofBytes? key = some data) (stream : ByteStream) :
    chaining.reader key stream =
      .ok ((Chaining.decryptView data.cipher data.start
        ⟨false, some (.decrypt .emptyCiphertext)⟩ stream).skip 0) := by
  simp only [reader, openAt, keyData, known, Chaining.openAt_zero, bind, Except.bind]

/--
A decryptor of chained blocks does what is said of the blocks one by one, however the ciphertext is
read: it writes the text that the ciphertext carries. Without one, a strict decryptor fails once all
blocks but the last are written, and a tolerant one writes them all; if the ciphertext fails, so do
both, as a strict one. A reader gives the same as a strict decryptor, whatever the sizes of its
buffers are, and reports the end after the fault.
-/
theorem chaining_blockwise (fits : key.length = KeyData.length) (stream : ByteStream) :
    ∃ data view, KeyData.ofBytes? key = some data ∧ chaining.reader key stream = .ok view ∧
      (stream.ending = .finished → ∀ text,
        Carries data.cipher data.start stream.content text →
          (∀ allowPartial, chaining.decryptStream key allowPartial stream =
            ⟨text, text.length, Option.none⟩) ∧
          ∀ sizes : Nat → Nat, (∀ index, 0 < sizes index) →
            view.drain sizes = ⟨text, Option.none, ⟨[], .finished⟩⟩) ∧
      (stream.ending = .finished →
        (∀ text, ¬Carries data.cipher data.start stream.content text) →
          let plain := Block.join (plainBlocks data.cipher data.start stream.content)
          let kept := released data.cipher data.start stream.content
          let error := Error.decrypt (fault stream.content)
          chaining.decryptStream key false stream = ⟨kept, kept.length, some error⟩ ∧
          chaining.decryptStream key true stream = ⟨plain, plain.length, Option.none⟩ ∧
          ∀ sizes : Nat → Nat, (∀ index, 0 < sizes index) →
            view.drain sizes = ⟨kept, some (.ofError error), ⟨[], .finished⟩⟩) ∧
      (∀ error, stream.ending.error? = some error →
        let kept := released data.cipher data.start stream.content
        (∀ allowPartial, chaining.decryptStream key allowPartial stream =
          ⟨kept, kept.length, some error.toError⟩) ∧
        ∀ sizes : Nat → Nat, (∀ index, 0 < sizes index) →
          (view.drain sizes).output = kept ∧ (view.drain sizes).failure = some error) ∧
      ∀ size, ByteStream.read size ⟨[], .finished⟩ = (.ok [], ⟨[], .finished⟩) := by
  rcases KeyData.exists_ofBytes? fits with ⟨data, known⟩
  refine ⟨data, _, known, reader_chaining known stream, ?_, ?_, ?_, fun _ => rfl⟩
  · intro finished text carries
    constructor
    · intro allowPartial
      have view := Chaining.view_of_carries
        ⟨allowPartial, if allowPartial then Option.none else some (.decrypt .emptyCiphertext)⟩
        finished carries
      rw [decryptStream_chaining known, ByteStream.copy_of_finished view.2, view.1]
    · intro sizes room
      have view := Chaining.view_of_carries ⟨false, some (.decrypt .emptyCiphertext)⟩ finished
        carries
      rw [ByteStream.drain_eq room, ByteStream.content_skip, ByteStream.ending_skip, view.1, view.2]
      rfl
  · intro finished none plain kept error
    have strict := Chaining.view_of_not_carries finished none
    refine ⟨?_, ?_, ?_⟩
    · rw [decryptStream_chaining known, ByteStream.copy_eq]
      simp only [Bool.false_eq_true, if_false, strict.1, strict.2]
      rfl
    · have view := Chaining.view_partial_of_not_carries finished none
      rw [decryptStream_chaining known, ByteStream.copy_eq]
      simp only [if_true, view.1, view.2]
      rfl
    · intro sizes room
      rw [ByteStream.drain_eq room, ByteStream.content_skip, ByteStream.ending_skip, strict.1,
        strict.2]
      rfl
  · intro error failed kept
    constructor
    · intro allowPartial
      have view := Chaining.view_of_failure data.cipher data.start
        ⟨allowPartial, if allowPartial then Option.none else some (.decrypt .emptyCiphertext)⟩
        failed
      rw [decryptStream_chaining known, ByteStream.copy_eq, view.1, view.2]
      rfl
    · intro sizes room
      have view := Chaining.view_of_failure data.cipher data.start
        ⟨false, some (.decrypt .emptyCiphertext)⟩ failed
      rw [ByteStream.drain_eq room]
      exact ⟨by rw [ByteStream.content_skip, List.drop_zero, view.1], view.2⟩

/-- Two blocks and a byte in two reads, neither of which ends where a block does. -/
theorem chaining_blockwise_trailing :
    let key : Bytes := List.replicate 48 7
    let stream : ByteStream := ⟨[List.replicate 20 1, List.replicate 13 2], .finished⟩
    key.length = KeyData.length ∧ stream.ending = .finished ∧
      ∃ data view, KeyData.ofBytes? key = some data ∧ chaining.reader key stream = .ok view ∧
        (∀ text, ¬Carries data.cipher data.start stream.content text) ∧
        ∃ plain : Bytes, plain.length = 32 ∧
          chaining.decryptStream key false stream =
            ⟨plain.take 16, 16, some (.decrypt (.incompleteBlock 1))⟩ ∧
          chaining.decryptStream key true stream = ⟨plain, 32, Option.none⟩ ∧
          view.drain (fun _ => 5) =
            ⟨plain.take 16, some (.carried (.decrypt (.incompleteBlock 1))), ⟨[], .finished⟩⟩ := by
  intro key stream
  have fits : key.length = KeyData.length := by simp [key, KeyData.length]
  rcases chaining_blockwise fits stream with ⟨data, view, known, opened, _, faulty, _⟩
  have cut : stream.content.length = 33 := by simp [stream, ByteStream.content]
  have none : ∀ text, ¬Carries data.cipher data.start stream.content text := by
    intro text carries
    have whole := carries.whole
    simp [cut, Block.size] at whole
  have length : (Block.join (plainBlocks data.cipher data.start stream.content)).length = 32 := by
    rw [Block.length_join, Chaining.length_plainBlocks, cut]
    rfl
  have kept : (released data.cipher data.start stream.content).length = 16 := by
    rw [released, List.length_take, length, cut]
    rfl
  have why : fault stream.content = .incompleteBlock 1 := by decide
  rcases faulty rfl none with ⟨strict, tolerant, drained⟩
  have read := drained (fun _ => 5) fun _ => by decide
  simp only [kept, length, why] at strict tolerant read
  refine ⟨fits, rfl, data, view, known, opened, none, _, length, ?_, tolerant, ?_⟩
  · rw [strict, released, cut]
    rfl
  · rw [read, released, cut]
    rfl

end Missive.Cipher
