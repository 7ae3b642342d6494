import Missive.Proofs.Cipher.Ranges

/-!
# What a read of a range depends on

A reader of a range decrypts ahead of it, holds a block back and judges the padding at the end of
the ciphertext. None of this shows as long as the range ends before the last block. What is opened
begins with a part that the covering bytes alone determine (`Cipher.exists_determined`), whatever
comes behind them, and the read has all of its bytes before anything else is looked at
(`Cipher.randomAccess_of_agree`).
-/

namespace Missive

/--
What is opened begins with the part whenever the ciphertext begins with the region, if it goes on
for so many bytes at least.
-/
def Determines (opening : ByteStream → Except Error ByteStream) (slack : Nat)
    (region part : Bytes) : Prop :=
  ∀ (stream : ByteStream) (back : Bytes), slack ≤ back.length →
    stream.content = region ++ back →
      ∃ text later, opening stream = .ok text ∧ text.content = part ++ later

namespace Chaining

variable {cipher : BlockCipher} {start : Block} {stream : ByteStream}

/-- Blocks that another one comes after are given out, whatever the end is. -/
theorem exists_content_of_inner (cipher : BlockCipher) (start : Block) (strictness : Strictness)
    {inner : List Block} {back : Bytes}
    (content : stream.content = Block.join inner ++ back) (more : Block.size ≤ back.length) :
    ∃ later, (decryptView cipher start strictness stream).content =
      Block.join (decryptBlocks cipher start inner) ++ later := by
  have present : decryptBlocks cipher (inner.getLastD start) (Block.split back) ≠ [] := by
    apply List.ne_nil_of_length_pos
    simp only [length_decryptBlocks, Block.length_split, Block.size] at more ⊢
    omega
  have view := (view_decryptView cipher start strictness stream).1
  rw [content, Block.split_join_append, decryptBlocks_append,
    List.dropLast_append_of_ne_nil present, Block.join_append, List.append_assoc] at view
  exact ⟨_, view⟩

theorem primed_of_content {stream : ByteStream} (present : stream.content ≠ []) :
    primed stream = .ok stream := by
  rcases stream with ⟨pieces, ending⟩
  cases pieces with
  | nil => exact absurd rfl present
  | cons piece pieces => rfl

/-- A view that goes beyond the bytes to be skipped is opened behind them. -/
theorem exists_skipped (offset : UInt64) (base : Nat) {skipped : Nat} {view : ByteStream}
    {front later : Bytes} (content : view.content = front ++ later)
    (inside : skipped < front.length) :
    skipWithin offset base skipped view = view.skip skipped ∧
      primed (view.skip skipped) = .ok (view.skip skipped) ∧
      (view.skip skipped).content = front.drop skipped ++ later := by
  have rest : (view.skip skipped).content = front.drop skipped ++ later := by
    simp [content, List.drop_append_of_le_length (Nat.le_of_lt inside)]
  refine ⟨?_, ?_, rest⟩
  · apply skipWithin_of_le
    simp only [content, List.length_append]
    omega
  · apply primed_of_content
    apply List.ne_nil_of_length_pos
    simp only [rest, List.length_append, List.length_drop]
    omega

/-- From the first block on, the bytes at the front are the ones that are decrypted. -/
theorem exists_determined_first {offset : UInt64} {region : Bytes}
    (whole : region.length % Block.size = 0) (first : offset.toNat / Block.size = 0)
    (reaches : offset.toNat < region.length) :
    ∃ part : Bytes, offset.toNat + part.length = region.length ∧
      Determines (openAt cipher start offset) Block.size region part := by
  have place : offset.toNat % Block.size = offset.toNat := Nat.mod_eq_of_lt (by
    simp only [Block.size] at first ⊢
    omega)
  have length : (Block.join (decryptBlocks cipher start (Block.split region))).length =
      region.length := by
    simp only [Block.length_join, length_decryptBlocks, Block.length_split, Block.size] at whole ⊢
    omega
  refine ⟨(Block.join (decryptBlocks cipher start (Block.split region))).drop offset.toNat,
    ?_, ?_⟩
  · simp only [List.length_drop, length]
    omega
  · intro stream back more content
    rw [← Block.join_split_of_dvd whole] at content
    rcases exists_content_of_inner cipher start ⟨false, some (.decrypt .emptyCiphertext)⟩ content
      more with ⟨later, view⟩
    rcases exists_skipped offset 0 view (length ▸ reaches) with ⟨skipped, primed, rest⟩
    refine ⟨_, later, ?_, rest⟩
    simp only [openAt, first, place, Nat.zero_mul, if_true, skipped, primed, pure, Except.pure,
      bind, Except.bind, ite_self]

/-- Behind the first block, the covering bytes begin with the block that masks the next one. -/
theorem exists_determined_later {offset : UInt64} {region : Bytes}
    (whole : region.length % Block.size = 0) (later : offset.toNat / Block.size ≠ 0)
    (reaches : offset.toNat < seekOrigin offset.toNat + region.length) :
    ∃ part : Bytes, offset.toNat + part.length = seekOrigin offset.toNat + region.length ∧
      Determines (openAt cipher start offset) Block.size region part := by
  have origin : seekOrigin offset.toNat + Block.size + offset.toNat % Block.size =
      offset.toNat := by
    simp only [seekOrigin, Block.size] at later ⊢
    omega
  have blocks := Block.join_split_of_dvd whole
  cases shape : Block.split region with
  | nil =>
      rw [shape] at blocks
      simp only [← blocks, Block.join_nil, List.length_nil] at reaches
      omega
  | cons chain inner =>
      rw [shape, Block.join_cons] at blocks
      have counted := congrArg List.length blocks
      simp only [List.length_append, Block.length_toBytes, Block.length_join] at counted
      have length : (Block.join (decryptBlocks cipher chain inner)).length =
          Block.size * inner.length := by
        simp
      refine ⟨(Block.join (decryptBlocks cipher chain inner)).drop (offset.toNat % Block.size),
        ?_, ?_⟩
      · simp only [List.length_drop, length]
        omega
      · intro stream back more content
        rw [← blocks, List.append_assoc] at content
        have split : stream.splitExactly Block.size =
            .ok (chain.toBytes, stream.skip Block.size) := by
          rw [ByteStream.splitExactly_of_le, content, Block.take_toBytes_append]
          simp [content]
        have rest : (stream.skip Block.size).content = Block.join inner ++ back := by
          rw [ByteStream.content_skip, content, Block.drop_toBytes_append]
        rcases exists_content_of_inner cipher chain
          ⟨false, some (.range offset 0 (offset.toNat / Block.size * Block.size - 1))⟩ rest more
          with ⟨beyond, view⟩
        have inside : offset.toNat % Block.size <
            (Block.join (decryptBlocks cipher chain inner)).length := by
          rw [length]
          omega
        rcases exists_skipped offset (offset.toNat / Block.size * Block.size) view inside
          with ⟨skipped, primed, text⟩
        refine ⟨_, beyond, ?_, text⟩
        rw [openAt_of_splitExactly cipher later split, skipped, primed]

end Chaining

namespace Cipher

/-- Where the bytes of a ciphertext end that cover a range with a byte in it. -/
def coverEnd (cipher : Cipher) (offset length : UInt64) : Nat :=
  match cipher with
  | none | counter => offset.toNat + length.toNat
  | chaining => ((offset.toNat + length.toNat - 1) / Block.size + 1) * Block.size

/-- A range within a ciphertext; one of chained blocks must end before the last of them. -/
def Encloses (cipher : Cipher) (stored : Nat) (offset length : UInt64) : Prop :=
  match cipher with
  | none | counter => offset.toNat + length.toNat ≤ stored
  | chaining =>
    stored % Block.size = 0 ∧ offset.toNat + length.toNat + Block.size ≤ stored

/-- The number of bytes behind a range that keep it away from the end of a ciphertext. -/
def slack : Cipher → Nat
  | none | counter => 0
  | chaining => Block.size

variable {cipher : Cipher} {key region part : Bytes} {offset length : UInt64}

/-- The bytes from the origin of an offset on determine the text from the offset on. -/
theorem exists_determined (fits : key.length = cipher.keyLength)
    (whole : cipher = chaining → region.length % Block.size = 0)
    (reaches : offset.toNat < cipher.seekOrigin offset + region.length) :
    ∃ part : Bytes, offset.toNat + part.length = cipher.seekOrigin offset + region.length ∧
      Determines (cipher.openAt key offset) cipher.slack region part := by
  cases cipher with
  | none => exact ⟨region, rfl, fun stream back _ content => ⟨stream, back, rfl, content⟩⟩
  | counter =>
      rcases KeyData.exists_ofBytes? fits with ⟨data, known⟩
      refine ⟨Counter.mask data.cipher data.start offset.toNat region, ?_, ?_⟩
      · simp [seekOrigin]
      · intro stream back _ content
        refine ⟨Counter.view data.cipher data.start offset.toNat stream,
          Counter.mask data.cipher data.start (offset.toNat + region.length) back, ?_, ?_⟩
        · simp only [openAt, keyData, known, pure, Except.pure, bind, Except.bind]
        · rw [Counter.content_view, content, Counter.mask_append]
  | chaining =>
      rcases KeyData.exists_ofBytes? fits with ⟨data, known⟩
      have opening : chaining.openAt key offset =
          Chaining.openAt data.cipher data.start offset := by
        funext stream
        simp only [openAt, keyData, known, bind, Except.bind]
      rw [opening]
      by_cases first : offset.toNat / Block.size = 0
      · have origin : chaining.seekOrigin offset = 0 := by
          simp [seekOrigin, Chaining.seekOrigin, first]
        rw [origin, Nat.zero_add] at reaches ⊢
        exact Chaining.exists_determined_first (whole rfl) first reaches
      · exact Chaining.exists_determined_later (whole rfl) first reaches

/-- A range that is determined is cut off from what is opened, before the end comes into it. -/
theorem exists_openRange
    (determined : Determines (cipher.openAt key offset) cipher.slack region part)
    (enough : length.toNat ≤ part.length) {stream : ByteStream} {back : Bytes}
    (more : cipher.slack ≤ back.length) (content : stream.content = region ++ back) :
    ∃ text : ByteStream, cipher.openRange key offset length stream = .ok text ∧
      text.content = part.take length.toNat ∧ text.ending = .finished := by
  rcases determined stream back more content with ⟨text, later, opened, begins⟩
  refine ⟨text.limited length.toNat, ?_, ?_, ?_⟩
  · simp only [openRange, opened, mapError_ok, pure, Except.pure, bind, Except.bind]
  · rw [ByteStream.content_limited, begins, List.take_append_of_le_length enough]
  · rw [ByteStream.ending_limited, begins, if_pos]
    simp only [List.length_append]
    omega

theorem randomAccessStream_of_determined
    (determined : Determines (cipher.openAt key offset) cipher.slack region part)
    (enough : length.toNat ≤ part.length) {stream : ByteStream} {back : Bytes}
    (more : cipher.slack ≤ back.length) (content : stream.content = region ++ back) :
    cipher.randomAccessStream key offset length stream =
      ⟨part.take length.toNat, length.toNat, Option.none⟩ := by
  rcases exists_openRange determined enough more content with ⟨text, opened, begins, ended⟩
  simp [randomAccessStream, opened, ByteStream.copy_of_finished ended, begins, enough]

theorem randomAccess_of_determined {ciphertext : Bytes}
    (determined : Determines (cipher.openAt key offset) cipher.slack region part)
    (enough : length.toNat ≤ part.length) {back : Bytes} (more : cipher.slack ≤ back.length)
    (inside : offset.toNat + length.toNat ≤ ciphertext.length)
    (content : ciphertext.drop (cipher.seekOrigin offset) = region ++ back) :
    cipher.randomAccess key ciphertext offset length = .ok (part.take length.toNat) := by
  have given : (ByteStream.ofBytes (ciphertext.drop (cipher.seekOrigin offset))).content =
      region ++ back := by
    rw [ByteStream.content_ofBytes, content]
  by_cases clear : cipher = none
  · subst clear
    rcases determined _ back more given with ⟨text, later, opened, begins⟩
    cases opened
    rw [ByteStream.content_ofBytes] at begins
    have cut : ciphertext.slice offset.toNat length.toNat = part.take length.toNat := by
      rw [Bytes.slice, ← List.take_append_of_le_length enough, ← begins]
      rfl
    simp only [randomAccess, if_pos inside, cut]
  · have origin := seekOrigin_le cipher offset
    rcases exists_openRange determined enough more given with ⟨text, opened, begins, ended⟩
    rw [randomAccess_eq clear, if_neg (by omega)]
    simp [opened, ByteStream.readToEnd_of_finished ended, begins, enough, mapError_ok, bind,
      Except.bind, pure, Except.pure]

/-- The covering bytes reach from the origin over the range, and leave the slack behind them. -/
theorem cover_of_encloses {stored : Nat} (nonempty : 0 < length)
    (inside : cipher.Encloses stored offset length) :
    offset.toNat + length.toNat ≤ cipher.coverEnd offset length ∧
      cipher.coverEnd offset length + cipher.slack ≤ stored ∧
      (cipher = chaining →
        (cipher.coverEnd offset length - cipher.seekOrigin offset) % Block.size = 0) := by
  have positive : 0 < length.toNat := UInt64.lt_iff_toNat_lt.mp nonempty
  cases cipher with
  | none => exact ⟨Nat.le_refl _, inside, nofun⟩
  | counter => exact ⟨Nat.le_refl _, inside, nofun⟩
  | chaining =>
      rcases inside with ⟨whole, before⟩
      simp only [coverEnd, slack, seekOrigin, Chaining.seekOrigin, Block.size] at whole before ⊢
      refine ⟨?_, ?_, fun _ => ?_⟩ <;> omega

theorem drop_eq_slice_append (bytes : Bytes) {low high : Nat} (ordered : low ≤ high) :
    bytes.drop low = bytes.slice low (high - low) ++ bytes.drop high := by
  have rest : bytes.drop high = (bytes.drop low).drop (high - low) := by
    rw [List.drop_drop, Nat.add_sub_cancel' ordered]
  rw [rest, Bytes.slice, List.take_append_drop]

/-- Bytes that agree on a stretch have the same slice there. -/
theorem slice_congr {first second : Bytes} {low high : Nat}
    (agree : ∀ position, low ≤ position → position < high →
      first[position]? = second[position]?) :
    first.slice low (high - low) = second.slice low (high - low) := by
  apply List.ext_getElem?
  intro index
  rw [Bytes.slice, Bytes.slice]
  by_cases inside : index < high - low
  · rw [List.getElem?_take_of_lt inside, List.getElem?_take_of_lt inside, List.getElem?_drop,
      List.getElem?_drop]
    exact agree (low + index) (Nat.le_add_right low index) (by omega)
  · rw [List.getElem?_take_eq_none (by omega), List.getElem?_take_eq_none (by omega)]

/--
A read of a range gives the same bytes of any two ciphertexts that agree on the bytes which cover
it: those from its origin to the end of the last block with a byte of the range. All else may
differ, the last block with the padding included, and a stream may end or fail after the ciphertext
as it likes.
-/
theorem randomAccess_of_agree (fits : key.length = cipher.keyLength) (nonempty : 0 < length)
    {first second : Bytes} (same : first.length = second.length)
    (inside : cipher.Encloses first.length offset length)
    (agree : ∀ position, cipher.seekOrigin offset ≤ position →
      position < cipher.coverEnd offset length → first[position]? = second[position]?) :
    ∃ part : Bytes, part.length = length.toNat ∧ ∀ ciphertext ∈ [first, second],
      cipher.randomAccess key ciphertext offset length = .ok part ∧
      ∀ stream : ByteStream,
        stream.content = ciphertext.drop (cipher.seekOrigin offset) →
          cipher.randomAccessStream key offset length stream =
            ⟨part, length.toNat, Option.none⟩ := by
  rcases cover_of_encloses nonempty inside with ⟨covered, beyond, whole⟩
  have positive : 0 < length.toNat := UInt64.lt_iff_toNat_lt.mp nonempty
  have origin := seekOrigin_le cipher offset
  generalize shape : first.slice (cipher.seekOrigin offset)
    (cipher.coverEnd offset length - cipher.seekOrigin offset) = region
  have size : region.length = cipher.coverEnd offset length - cipher.seekOrigin offset := by
    rw [← shape, length_slice]
    omega
  have reaches : offset.toNat < cipher.seekOrigin offset + region.length := by omega
  rcases exists_determined fits (fun chained => size ▸ whole chained) reaches
    with ⟨part, counted, determined⟩
  have enough : length.toNat ≤ part.length := by omega
  refine ⟨part.take length.toNat, List.length_take_of_le enough, ?_⟩
  intro ciphertext member
  have alike : ciphertext.length = first.length ∧
      ciphertext.slice (cipher.seekOrigin offset)
        (cipher.coverEnd offset length - cipher.seekOrigin offset) = region := by
    simp only [List.mem_cons, List.not_mem_nil, or_false] at member
    rcases member with rfl | rfl
    · exact ⟨rfl, shape⟩
    · exact ⟨same.symm, (slice_congr agree).symm.trans shape⟩
  have rest := drop_eq_slice_append ciphertext
    (show cipher.seekOrigin offset ≤ cipher.coverEnd offset length by omega)
  rw [alike.2] at rest
  have more : cipher.slack ≤ (ciphertext.drop (cipher.coverEnd offset length)).length := by
    rw [List.length_drop, alike.1]
    omega
  constructor
  · exact randomAccess_of_determined determined enough more (by omega) rest
  · intro stream content
    exact randomAccessStream_of_determined determined enough more (content.trans rest)

/--
Four chained blocks, of which the first and the last are replaced, and the range ends with the
third.
-/
theorem randomAccess_of_agree_inner :
    let key : Bytes := List.replicate 48 7
    let first : Bytes := List.replicate 64 1
    let second : Bytes := List.replicate 16 2 ++ List.replicate 32 1 ++ List.replicate 16 3
    key.length = chaining.keyLength ∧ (0 : UInt64) < 15 ∧ first.length = second.length ∧
      chaining.Encloses first.length 33 15 ∧
      (∀ position, chaining.seekOrigin 33 ≤ position → position < chaining.coverEnd 33 15 →
        first[position]? = second[position]?) ∧
      ∃ part : Bytes, part.length = 15 ∧
        chaining.randomAccess key first 33 15 = .ok part ∧
        chaining.randomAccess key second 33 15 = .ok part ∧
        chaining.randomAccessStream key 33 15
          ⟨[List.replicate 20 1, List.replicate 12 1, List.replicate 16 3],
            .failing (.input .isDirectory)⟩ = ⟨part, 15, Option.none⟩ := by
  intro key first second
  have fits : key.length = chaining.keyLength := by simp [key, keyLength, KeyData.length]
  have nonempty : (0 : UInt64) < 15 := by decide
  have same : first.length = second.length := by simp [first, second]
  have inside : chaining.Encloses first.length 33 15 := by
    simp [first, Encloses, Block.size]
  have agree : ∀ position, chaining.seekOrigin 33 ≤ position →
      position < chaining.coverEnd 33 15 → first[position]? = second[position]? := by
    have places : ∀ position < 48, 16 ≤ position → first[position]? = second[position]? := by
      decide
    intro position low high
    exact places position high low
  rcases randomAccess_of_agree fits nonempty same inside agree with ⟨part, counted, read⟩
  refine ⟨fits, nonempty, same, inside, agree, part, counted, (read first (by simp)).1,
    (read second (by simp)).1, ?_⟩
  exact (read second (by simp)).2 _ (by decide)

end Cipher

end Missive
