import Missive.Proofs.Cipher.Ranges
import Missive.Proofs.Position

/-!
# Positions in chained blocks

A decrypting reader counts in words: where its blocks are cut out of what is pending, how much
of the text it has released, and how much of the first block is still to be skipped. `Progress`
is what it keeps from one piece of the ciphertext to the next, and `Chaining.openingAt?` is the
opening of a ciphertext at an offset with all of this counting.

All of it is exact for every stream whose length is a word (`openingAt?_eq`). What carries the
proof is `Progress.Fits`: released, held and pending bytes together never outgrow the stream, and
as long as something is to be skipped, the position that is reached lies before the offset.
-/

namespace Missive

namespace Chaining

/-- The size of a block as a word. -/
def blockSize : UInt64 := 16

theorem toNat_blockSize : blockSize.toNat = Block.size := rfl

/-- Where in the ciphertext the decryption of the byte at `offset` begins. -/
def originAt? (offset : UInt64) : Option UInt64 :=
  Position.mul? (Position.monus (offset / blockSize) 1) blockSize

theorem exists_originAt? (offset : UInt64) :
    ∃ origin, originAt? offset = some origin ∧ origin.toNat = seekOrigin offset.toNat := by
  have bound := offset.toNat_lt_size
  have before : (Position.monus (offset / blockSize) 1).toNat =
      offset.toNat / Block.size - 1 := by
    rw [Position.toNat_monus, UInt64.toNat_div, toNat_blockSize]
    rfl
  have fits : (Position.monus (offset / blockSize) 1).toNat * blockSize.toNat < UInt64.size := by
    rw [before, toNat_blockSize]
    simp only [Block.size]
    omega
  obtain ⟨origin, multiplied, value⟩ := Position.exists_mul? fits
  refine ⟨origin, multiplied, ?_⟩
  rw [value, before, toNat_blockSize, seekOrigin]

/-! ### Blocks and padding -/

/-- The blocks from a position on, `count` of them, each cut out at its own place. -/
def blocksAt? (bytes : Bytes) : (start : UInt64) → (count : Nat) → Option (List Block)
  | _, 0 => some []
  | start, count + 1 => do
    let stop ← Position.add? start blockSize
    let block ← bytes.between? start stop
    if whole : block.length = Block.size then
      let blocks ← blocksAt? bytes stop count
      return Block.ofBytes block whole :: blocks
    else none

theorem blocksAt?_eq {bytes : Bytes} {start : UInt64} {count : Nat}
    (room : start.toNat + Block.size * count ≤ bytes.length)
    (short : bytes.length < UInt64.size) :
    blocksAt? bytes start count = some ((Block.split (bytes.drop start.toNat)).take count) := by
  induction count generalizing start with
  | zero => simp [blocksAt?]
  | succ count ih =>
      rw [Nat.mul_succ] at room
      obtain ⟨stop, added, value⟩ := @Position.exists_add? start blockSize
        (by rw [toNat_blockSize]; omega)
      rw [toNat_blockSize] at value
      have later := @ih stop (by omega)
      have cut : bytes.between? start stop = some ((bytes.drop start.toNat).take Block.size) := by
        rw [Bytes.between?, if_pos (by omega), Bytes.slice, value, Nat.add_sub_cancel_left]
      have whole : ((bytes.drop start.toNat).take Block.size).length = Block.size := by
        rw [List.length_take, List.length_drop]
        omega
      rw [blocksAt?, Block.split, dif_pos whole, List.take_succ_cons]
      simp only [added, cut, later, dif_pos whole, value, List.drop_drop, Option.bind_eq_bind,
        Option.bind_some, Option.pure_def]

/-- The text in a last block, cut off where its padding begins. -/
def unpadAt? (block : Block) : Option (Option Bytes) := do
  let last := block.toBytes.getLastD 0
  let count := last.toUInt64
  if count = 0 ∨ blockSize < count then return none
  let kept ← Position.sub? blockSize count
  let text ← block.toBytes.between? 0 kept
  let padding ← block.toBytes.between? kept blockSize
  return if padding.all (· = last) then some text else none

theorem unpadAt?_eq (block : Block) : unpadAt? block = some (unpad? block) := by
  generalize known : block.toBytes.getLastD 0 = last
  have counted : last.toUInt64.toNat = last.toNat := UInt8.toNat_toUInt64 last
  simp only [unpadAt?, unpad?, known]
  by_cases padded : 0 < last.toNat ∧ last.toNat ≤ Block.size
  · have admitted : ¬(last.toUInt64 = 0 ∨ blockSize < last.toUInt64) := by
      rw [← UInt64.toNat_inj, UInt64.lt_iff_toNat_lt, counted, toNat_blockSize]
      simp only [UInt64.toNat_zero]
      omega
    obtain ⟨kept, subtracted, value⟩ := @Position.exists_sub? blockSize last.toUInt64
      (by rw [counted, toNat_blockSize]; exact padded.2)
    rw [counted, toNat_blockSize] at value
    have text : block.toBytes.between? 0 kept =
        some (block.toBytes.take (Block.size - last.toNat)) := by
      rw [Bytes.between?, if_pos (by simp [value])]
      simp [Bytes.slice, value]
    have padding : block.toBytes.between? kept blockSize =
        some (block.toBytes.drop (Block.size - last.toNat)) := by
      rw [Bytes.between?, if_pos (by simp [value, toNat_blockSize]), Bytes.slice, value,
        toNat_blockSize, List.take_of_length_le (by simp)]
    rw [if_neg admitted, if_pos padded]
    simp only [subtracted, text, padding, Option.bind_eq_bind, Option.bind_some, Option.pure_def]
  · have refused : last.toUInt64 = 0 ∨ blockSize < last.toUInt64 := by
      rw [← UInt64.toNat_inj, UInt64.lt_iff_toNat_lt, counted, toNat_blockSize]
      simp only [UInt64.toNat_zero]
      omega
    rw [if_pos refused, if_neg padded]
    rfl

/-! ### Text that is to be skipped -/

theorem dropPieces_zero_consPiece {pieces : List Bytes} (piece : Bytes)
    (tight : ByteStream.dropPieces 0 pieces = pieces) :
    ByteStream.dropPieces 0 (ByteStream.consPiece piece pieces) =
      ByteStream.consPiece piece pieces := by
  cases piece with
  | nil => exact tight
  | cons byte piece => simp [ByteStream.consPiece, ByteStream.dropPieces]

/-- No piece that a decrypting view begins with is empty. -/
theorem dropPieces_zero_decryptPieces (cipher : BlockCipher) (strictness : Strictness)
    (ending : Ending) (chain : Block) (held : Option Block) (pending : Bytes)
    (pieces : List Bytes) :
    let view := decryptPieces cipher strictness ending chain held pending pieces
    ByteStream.dropPieces 0 view.pieces = view.pieces := by
  induction pieces generalizing chain held pending with
  | nil =>
      cases ending with
      | finished =>
          simp only [decryptPieces]
          cases finish strictness held pending with
          | ok bytes => exact dropPieces_zero_consPiece bytes rfl
          | error error => rfl
      | failing error => rfl
      | rejected error => rfl
  | cons piece pieces ih => exact dropPieces_zero_consPiece _ (ih _ _ _)

theorem consPiece_of_ne_nil {piece : Bytes} (present : piece ≠ []) (pieces : List Bytes) :
    ByteStream.consPiece piece pieces = piece :: pieces := by
  cases piece with
  | nil => exact absurd rfl present
  | cons byte piece => rfl

theorem dropPieces_consPiece (count : Nat) (piece : Bytes) {pieces : List Bytes}
    (tight : ByteStream.dropPieces 0 pieces = pieces) :
    ByteStream.dropPieces count (ByteStream.consPiece piece pieces) =
      ByteStream.consPiece (piece.drop count)
        (ByteStream.dropPieces (count - piece.length) pieces) := by
  by_cases empty : piece = []
  · simp [empty, ByteStream.consPiece]
  · rw [consPiece_of_ne_nil empty, ByteStream.dropPieces]
    split
    · rename_i inside
      have present : piece.drop count ≠ [] := by
        simpa [List.drop_eq_nil_iff] using inside
      rw [consPiece_of_ne_nil present, Nat.sub_eq_zero_of_le (Nat.le_of_lt inside), tight]
    · rename_i beyond
      rw [List.drop_eq_nil_of_le (Nat.not_lt.mp beyond)]
      rfl

/-- What a first piece takes of the way that is to be skipped, the rest does not have to. -/
theorem skipWithin_consPiece (offset : UInt64) (base skipped : Nat) (piece : Bytes)
    {rest : ByteStream} (tight : ByteStream.dropPieces 0 rest.pieces = rest.pieces) :
    skipWithin offset base skipped
        ⟨ByteStream.consPiece piece rest.pieces, rest.ending⟩ =
      let later := skipWithin offset (base + piece.length) (skipped - piece.length) rest
      ⟨ByteStream.consPiece (piece.drop skipped) later.pieces, later.ending⟩ := by
  have content : (⟨ByteStream.consPiece piece rest.pieces, rest.ending⟩ :
      ByteStream).content.length = piece.length + rest.content.length := by
    rw [ByteStream.content_consPiece, List.length_append]
    rfl
  by_cases short : rest.ending = .finished ∧ piece.length + rest.content.length < skipped
  · have gone : piece.drop skipped = [] := List.drop_eq_nil_of_le (by omega)
    have later : rest.content.length < skipped - piece.length := by omega
    have beyond := Nat.lt_of_le_of_lt (Nat.le_of_eq content) short.2
    rw [skipWithin_of_lt short.1 later, gone, skipWithin_of_lt (by exact short.1) beyond, content,
      Nat.add_assoc]
    rfl
  · have later : ¬(rest.ending = .finished ∧ rest.content.length < skipped - piece.length) := by
      rintro ⟨finished, beyond⟩
      exact short ⟨finished, by omega⟩
    rw [skipWithin, if_neg (by rw [content]; exact short), skipWithin, if_neg later]
    simp only [ByteStream.skip, dropPieces_consPiece skipped piece tight]

/-! ### From piece to piece -/

/-- The error of a ciphertext that has no block from the block of the offset on. -/
def onEmpty (offset : UInt64) : Error :=
  if offset.toNat / Block.size = 0 then .decrypt .emptyCiphertext
  else .range offset 0 (offset.toNat / Block.size * Block.size - 1)

/-- What a decrypting reader keeps from one piece of the ciphertext to the next. -/
structure Progress where
  chain : Block
  held : Option Block
  pending : Bytes
  /-- How much of the text is still to be skipped. -/
  skip : UInt64
  /-- How much of the text has been released, with what has been skipped of it. -/
  released : UInt64
  /-- Whether any block has been decrypted. -/
  decrypted : Bool

/-- Before the first piece, at an offset. -/
def Progress.start (chain : Block) (offset : UInt64) : Progress :=
  ⟨chain, none, [], offset % blockSize, 0, false⟩

namespace Progress

/-- Releases some text, less what is to be skipped of it. -/
def release? (progress : Progress) (text : Bytes) : Option (Bytes × Progress) := do
  let size ← Position.ofNat? text.length
  let released ← Position.add? progress.released size
  let dropped := min progress.skip size
  let skip ← Position.sub? progress.skip dropped
  return (text.drop dropped.toNat, { progress with released, skip })

/-- Takes a piece of the ciphertext. -/
def refill? (cipher : BlockCipher) (progress : Progress) (piece : Bytes) :
    Option (Bytes × Progress) := do
  let bytes := progress.pending ++ piece
  let size ← Position.ofNat? bytes.length
  let full ← Position.mul? (size / blockSize) blockSize
  let blocks ← blocksAt? bytes 0 (full / blockSize).toNat
  let decrypted := progress.held.toList ++ decryptBlocks cipher progress.chain blocks
  release? { progress with
    chain := blocks.getLastD progress.chain
    held := decrypted.getLast?
    pending := bytes.drop full.toNat
    decrypted := progress.decrypted || !blocks.isEmpty } (Block.join decrypted.dropLast)

/-- Fails if the text has ended before the offset. -/
def reached? (offset : UInt64) (progress : Progress) : Exact Error Unit := do
  let base ← Position.sub? offset (offset % blockSize)
  if progress.decrypted = false ∧ 0 < base then
    let last ← Position.sub? base 1
    throw (.range offset 0 last.toNat)
  if 0 < progress.skip then
    let stop ← Position.add? base progress.released
    throw (.range offset 0 stop.toNat)

/-- What the end of the ciphertext releases. -/
def finish? (offset : UInt64) (progress : Progress) : Exact Error Bytes := do
  if progress.pending ≠ [] then
    throw (.decrypt (.incompleteBlock progress.pending.length))
  let text ←
    match progress.held with
    | some block =>
      match ← unpadAt? block with
      | some text => pure text
      | none => throw (.decrypt .invalidPadding)
    | none => if offset / blockSize = 0 then throw (.decrypt .emptyCiphertext) else pure []
  let (text, progress) ← progress.release? text
  progress.reached? offset
  return text

/-- The text of the remaining pieces as a stream. -/
def stream? (cipher : BlockCipher) (offset : UInt64) (ending : Ending) :
    Progress → List Bytes → Option ByteStream
  | progress, [] =>
    match ending with
    | .finished => do
      match ← (progress.finish? offset).run with
      | .ok text => return ⟨ByteStream.consPiece text [], .finished⟩
      | .error error => return ⟨[], .rejected (.ofError error)⟩
    | other => some ⟨[], other⟩
  | progress, piece :: pieces => do
    let (text, progress) ← progress.refill? cipher piece
    let rest ← stream? cipher offset ending progress pieces
    return ⟨ByteStream.consPiece text rest.pieces, rest.ending⟩

/--
The bytes that are released, held, pending and still to come are no more than a word can count,
and what is to be skipped is the rest of the way from the block of the offset to the offset.
-/
structure Fits (progress : Progress) (offset : UInt64) (coming : Nat) : Prop where
  room : progress.released.toNat + Block.size * progress.held.toList.length +
    progress.pending.length + coming < UInt64.size
  skip : progress.skip.toNat = offset.toNat % Block.size - progress.released.toNat
  decrypted : progress.decrypted = progress.held.isSome

variable {cipher : BlockCipher} {offset : UInt64} {progress : Progress}

theorem fits_start (chain : Block) {coming : Nat} (short : coming < UInt64.size) :
    (start chain offset).Fits offset coming := by
  refine ⟨by simpa [start] using short, ?_, rfl⟩
  simp [start, UInt64.toNat_mod, toNat_blockSize]

theorem exists_release? (chain : Block) (held : Option Block) (pending : Bytes)
    {skip released : UInt64} (decrypted : Bool) {text : Bytes}
    (room : released.toNat + text.length < UInt64.size) :
    ∃ left reached, release? ⟨chain, held, pending, skip, released, decrypted⟩ text =
        some (text.drop skip.toNat, ⟨chain, held, pending, left, reached, decrypted⟩) ∧
      left.toNat = skip.toNat - text.length ∧
      reached.toNat = released.toNat + text.length := by
  obtain ⟨size, counted, length⟩ := @Position.exists_ofNat? text.length (by omega)
  obtain ⟨reached, added, sum⟩ := @Position.exists_add? released size (by omega)
  have dropped : (min skip size).toNat = min skip.toNat text.length := by
    rw [Position.toNat_min, length]
  obtain ⟨left, subtracted, difference⟩ :=
    @Position.exists_sub? skip (min skip size) (by omega)
  have rest : text.drop (min skip.toNat text.length) = text.drop skip.toNat := by
    rcases Nat.le_total skip.toNat text.length with inside | beyond
    · rw [Nat.min_eq_left inside]
    · rw [Nat.min_eq_right beyond, List.drop_length, List.drop_eq_nil_of_le beyond]
  refine ⟨left, reached, ?_, by omega, by omega⟩
  simp only [release?, counted, added, subtracted, dropped, rest, Option.bind_eq_bind,
    Option.bind_some, Option.pure_def]

theorem length_held (blocks : List Block) :
    (Block.join blocks.dropLast).length + Block.size * blocks.getLast?.toList.length =
      Block.size * blocks.length := by
  rcases List.eq_nil_or_concat blocks with rfl | ⟨front, last, rfl⟩
  · rfl
  · simp [Block.length_join, Nat.mul_succ]

theorem isSome_getLast?_hold (held : Option Block) (chain : Block) (blocks : List Block) :
    (held.toList ++ decryptBlocks cipher chain blocks).getLast?.isSome =
      (held.isSome || !blocks.isEmpty) := by
  cases held with
  | none => cases blocks <;> simp [decryptBlocks]
  | some block => simp

/-- A piece releases the blocks that are complete with it, all but the last one. -/
theorem exists_refill? {piece : Bytes} {coming : Nat}
    (fits : progress.Fits offset (piece.length + coming)) :
    let bytes := progress.pending ++ piece
    let decrypted :=
      progress.held.toList ++ decryptBlocks cipher progress.chain (Block.split bytes)
    let text := Block.join decrypted.dropLast
    ∃ later : Progress,
      progress.refill? cipher piece = some (text.drop progress.skip.toNat, later) ∧
      later.Fits offset coming ∧ later.chain = (Block.split bytes).getLastD progress.chain ∧
      later.held = decrypted.getLast? ∧ later.pending = Block.remainder bytes ∧
      later.skip.toNat = progress.skip.toNat - text.length ∧
      later.released.toNat = progress.released.toNat + text.length := by
  intro bytes decrypted text
  rcases fits with ⟨room, skip, started⟩
  have length : bytes.length = progress.pending.length + piece.length := List.length_append
  obtain ⟨size, counted, sized⟩ := @Position.exists_ofNat? bytes.length (by omega)
  have quotient : (size / blockSize).toNat = bytes.length / Block.size := by
    rw [UInt64.toNat_div, sized, toNat_blockSize]
  have inside := Nat.mul_div_le bytes.length Block.size
  obtain ⟨full, multiplied, value⟩ := @Position.exists_mul? (size / blockSize) blockSize (by
    rw [quotient, toNat_blockSize, Nat.mul_comm]
    omega)
  rw [quotient, toNat_blockSize] at value
  have count : (full / blockSize).toNat = bytes.length / Block.size := by
    rw [UInt64.toNat_div, value, toNat_blockSize]
    exact Nat.mul_div_cancel _ (by decide)
  have blocks : blocksAt? bytes 0 (full / blockSize).toNat = some (Block.split bytes) := by
    rw [count, blocksAt?_eq (by simpa using inside) (by omega)]
    simp [List.take_of_length_le, Block.length_split]
  -- What is released, held and pending afterwards is what has been taken in.
  have released : text.length + Block.size * decrypted.getLast?.toList.length =
      Block.size * decrypted.length := length_held decrypted
  have number : decrypted.length = progress.held.toList.length + bytes.length / Block.size := by
    simp [decrypted, length_decryptBlocks, Block.length_split]
  have pending : (Block.remainder bytes).length + Block.size * (bytes.length / Block.size) =
      bytes.length := by
    rw [Block.length_remainder]
    exact Nat.mod_add_div bytes.length Block.size
  rw [number, Nat.mul_add] at released
  obtain ⟨left, reached, release, remaining, total⟩ :=
    @exists_release? ((Block.split bytes).getLastD progress.chain) decrypted.getLast?
      (Block.remainder bytes) progress.skip progress.released
      (progress.decrypted || !(Block.split bytes).isEmpty) text (by omega)
  refine ⟨⟨(Block.split bytes).getLastD progress.chain, decrypted.getLast?,
    Block.remainder bytes, left, reached, progress.decrypted || !(Block.split bytes).isEmpty⟩,
    ?_, ⟨?_, ?_, ?_⟩, rfl, rfl, rfl, remaining, total⟩
  · simp only [refill?, bytes] at counted blocks ⊢
    rw [counted, Option.bind_eq_bind, Option.bind_some, multiplied, Option.bind_eq_bind,
      Option.bind_some, blocks, value]
    exact release
  · dsimp only
    omega
  · dsimp only
    rw [remaining, total, skip, Nat.sub_sub]
  · dsimp only
    rw [started, isSome_getLast?_hold]

theorem reached?_eq
    (skip : progress.skip.toNat = offset.toNat % Block.size - progress.released.toNat) :
    progress.reached? offset = .of (
      let base := offset.toNat / Block.size * Block.size
      if progress.decrypted = false ∧ 0 < base then .error (.range offset 0 (base - 1))
      else if 0 < progress.skip.toNat then
        .error (.range offset 0 (base + progress.released.toNat))
      else .ok ()) := by
  have place := Nat.div_add_mod' offset.toNat Block.size
  have bound := offset.toNat_lt_size
  have within : (offset % blockSize).toNat = offset.toNat % Block.size := by
    rw [UInt64.toNat_mod, toNat_blockSize]
  obtain ⟨base, subtracted, value⟩ := @Position.exists_sub? offset (offset % blockSize) (by omega)
  have known : base.toNat = offset.toNat / Block.size * Block.size := by omega
  have positive : 0 < base ↔ 0 < offset.toNat / Block.size * Block.size := by
    rw [UInt64.lt_iff_toNat_lt, known, UInt64.toNat_zero]
  have skipping : 0 < progress.skip ↔ 0 < progress.skip.toNat := by
    rw [UInt64.lt_iff_toNat_lt, UInt64.toNat_zero]
  simp only [reached?, subtracted, Exact.liftM_some_bind, positive, skipping]
  by_cases early : progress.decrypted = false ∧ 0 < offset.toNat / Block.size * Block.size
  · obtain ⟨last, before, limit⟩ := @Position.exists_sub? base 1 (by
      rw [known, UInt64.toNat_one]
      exact early.2)
    rw [known, UInt64.toNat_one] at limit
    simp only [if_pos early, before, limit, Exact.liftM_some_bind, Exact.throw_eq_of,
      Exact.of_bind]
  · by_cases short : 0 < progress.skip.toNat
    · -- What is still to be skipped lies before the offset.
      obtain ⟨stop, added, limit⟩ := @Position.exists_add? base progress.released (by omega)
      rw [known] at limit
      simp only [if_neg early, if_pos short, added, limit, Exact.liftM_some_bind,
        Exact.throw_eq_of, Exact.pure_eq_of, Exact.of_bind]
    · simp only [if_neg early, if_neg short, Exact.pure_eq_of]

/-- The end of the ciphertext releases what it does without any counting, or says why not. -/
theorem finish?_eq (fits : progress.Fits offset 0) :
    progress.finish? offset = .of (
      match finish ⟨false, some (onEmpty offset)⟩ progress.held progress.pending with
      | .error error => .error error
      | .ok text =>
        if text.length < progress.skip.toNat then
          .error (.range offset 0 (offset.toNat / Block.size * Block.size +
            (progress.released.toNat + text.length)))
        else .ok (text.drop progress.skip.toNat)) := by
  rcases progress with ⟨chain, held, pending, skip, released, decrypted⟩
  rcases fits with ⟨room, skipping, started⟩
  dsimp only at room skipping started ⊢
  have first : offset / blockSize = 0 ↔ offset.toNat / Block.size = 0 := by
    rw [← UInt64.toNat_inj, UInt64.toNat_div, toNat_blockSize, UInt64.toNat_zero]
  by_cases whole : pending = []
  · subst whole
    cases held with
    | none =>
        obtain rfl : decrypted = false := started
        by_cases zero : offset.toNat / Block.size = 0
        · simp [finish?, finish, first, onEmpty, zero]
        · obtain ⟨left, reached, release, remaining, total⟩ :=
            @exists_release? chain none [] skip released false []
              (by simpa using released.toNat_lt_size)
          have positive : 0 < offset.toNat / Block.size * Block.size := by
            simp only [Block.size] at zero ⊢
            omega
          have refused := @reached?_eq offset ⟨chain, none, [], left, reached, false⟩
            (by simpa [remaining, total] using skipping)
          simp [finish?, finish, first, onEmpty, zero, release, refused, positive]
    | some block =>
        obtain rfl : decrypted = true := started
        cases unpadded : unpad? block with
        | none => simp [finish?, finish, unpadAt?_eq, unpadded]
        | some text =>
            have few := length_unpad? unpadded
            obtain ⟨left, reached, release, remaining, total⟩ :=
              @exists_release? chain (some block) [] skip released true text
                (by simp at room; omega)
            have ended := @reached?_eq offset ⟨chain, some block, [], left, reached, true⟩
              (by dsimp only; omega)
            have short : 0 < left.toNat ↔ text.length < skip.toNat := by omega
            by_cases gone : text.length < skip.toNat
            · simp [finish?, finish, unpadAt?_eq, unpadded, release, ended, short, total, gone]
            · simp [finish?, finish, unpadAt?_eq, unpadded, release, ended, short, gone]
  · simp [finish?, finish, whole]

theorem skipWithin_nil (base skipped : Nat) (ending : Ending) :
    skipWithin offset base skipped ⟨[], ending⟩ =
      if ending = .finished ∧ 0 < skipped then
        ⟨[], .rejected (.ofError (.range offset 0 base))⟩
      else ⟨[], ending⟩ := rfl

/-- Counting is exact to the end of every stream that is short enough for a word. -/
theorem stream?_eq {pieces : List Bytes} (fits : progress.Fits offset pieces.flatten.length)
    (ending : Ending) :
    progress.stream? cipher offset ending pieces = some (
      skipWithin offset (offset.toNat / Block.size * Block.size + progress.released.toNat)
        progress.skip.toNat
        (decryptPieces cipher ⟨false, some (onEmpty offset)⟩ ending progress.chain progress.held
          progress.pending pieces)) := by
  induction pieces generalizing progress with
  | nil =>
      cases ending with
      | finished =>
          rw [stream?, decryptPieces, finish?_eq fits]
          cases ended : finish ⟨false, some (onEmpty offset)⟩ progress.held progress.pending with
          | error error => simp [skipWithin_nil]
          | ok text =>
              have skipped := @skipWithin_consPiece offset
                (offset.toNat / Block.size * Block.size + progress.released.toNat)
                progress.skip.toNat text ⟨[], .finished⟩ rfl
              dsimp only at skipped ⊢
              rw [skipped, skipWithin_nil]
              by_cases short : text.length < progress.skip.toNat
              · have left := Nat.sub_pos_of_lt short
                have gone : text.drop progress.skip.toNat = [] :=
                  List.drop_eq_nil_of_le (Nat.le_of_lt short)
                simp [short, left, gone, ByteStream.consPiece, Nat.add_assoc]
              · have reached := Nat.sub_eq_zero_of_le (Nat.not_lt.mp short)
                simp [short, reached]
      | failing error => simp [stream?, decryptPieces, skipWithin_nil]
      | rejected error => simp [stream?, decryptPieces, skipWithin_nil]
  | cons piece pieces ih =>
      -- The rest of the stream is read with what is kept behind the first piece.
      rw [List.flatten_cons, List.length_append] at fits
      obtain ⟨later, refilled, fits, chain, held, pending, skip, released⟩ :=
        @exists_refill? cipher _ _ _ _ fits
      have rest := ih fits
      rw [chain, held, pending, skip, released] at rest
      simp only [stream?, refilled, rest, decryptPieces, Option.bind_eq_bind, Option.bind_some]
      have tight := dropPieces_zero_decryptPieces cipher ⟨false, some (onEmpty offset)⟩ ending
        ((Block.split (progress.pending ++ piece)).getLastD progress.chain)
        (progress.held.toList ++ decryptBlocks cipher progress.chain
          (Block.split (progress.pending ++ piece))).getLast?
        (Block.remainder (progress.pending ++ piece)) pieces
      rw [skipWithin_consPiece _ _ _ _ tight, Nat.add_assoc]
      rfl

end Progress

/-! ### Opening at an offset -/

/-- The decrypted view of a stream from the byte at `offset` on, counted in words. -/
def viewAt? (cipher : BlockCipher) (chain : Block) (offset : UInt64) (stream : ByteStream) :
    Option ByteStream :=
  (Progress.start chain offset).stream? cipher offset stream.ending stream.pieces

/-- The last position before the block of the offset. -/
def lastBefore? (offset : UInt64) : Option UInt64 := do
  let base ← Position.mul? (offset / blockSize) blockSize
  Position.sub? base 1

/-- Opens a ciphertext at an offset, counted in words. -/
def openingAt? (cipher : BlockCipher) (start : Block) (offset : UInt64) (stream : ByteStream) :
    Exact Error ByteStream := do
  let text ←
    if offset / blockSize = 0 then liftM (viewAt? cipher start offset stream)
    else
      match whole : stream.splitExactly Block.size with
      | .ok (chain, rest) =>
        liftM (viewAt? cipher (Block.ofBytes chain (stream.length_of_splitExactly whole)) offset
          rest)
      | .error error =>
        if error.kind = .unexpectedEnd then
          let last ← lastBefore? offset
          throw (.range offset 0 last.toNat)
        else throw error.toError
  if offset = 0 then return text else Exact.of (primed text)

variable {cipher : BlockCipher} {start : Block} {offset : UInt64} {stream : ByteStream}

theorem viewAt?_eq (chain : Block) (short : stream.content.length < UInt64.size) :
    viewAt? cipher chain offset stream = some (
      skipWithin offset (offset.toNat / Block.size * Block.size) (offset.toNat % Block.size)
        (decryptView cipher chain ⟨false, some (onEmpty offset)⟩ stream)) := by
  have started := @Progress.stream?_eq cipher _ _ _ (@Progress.fits_start offset chain _ short)
    stream.ending
  simpa [viewAt?, decryptView, Progress.start, UInt64.toNat_mod, toNat_blockSize] using started

theorem exists_lastBefore? (later : offset.toNat / Block.size ≠ 0) :
    ∃ last, lastBefore? offset = some last ∧
      last.toNat = offset.toNat / Block.size * Block.size - 1 := by
  have place := Nat.div_add_mod' offset.toNat Block.size
  have bound := offset.toNat_lt_size
  have positive := Nat.mul_pos (Nat.pos_of_ne_zero later) (by decide : 0 < Block.size)
  have number : (offset / blockSize).toNat = offset.toNat / Block.size := by
    rw [UInt64.toNat_div, toNat_blockSize]
  obtain ⟨base, multiplied, value⟩ := @Position.exists_mul? (offset / blockSize) blockSize
    (by rw [number, toNat_blockSize]; omega)
  rw [number, toNat_blockSize] at value
  obtain ⟨last, subtracted, limit⟩ := @Position.exists_sub? base 1
    (by rw [value, UInt64.toNat_one]; exact positive)
  rw [value, UInt64.toNat_one] at limit
  refine ⟨last, ?_, limit⟩
  rw [lastBefore?, multiplied]
  exact subtracted

theorem length_of_splitExactly_rest {count : Nat} {front : Bytes} {rest : ByteStream}
    (whole : stream.splitExactly count = .ok (front, rest)) :
    rest.content.length ≤ stream.content.length := by
  by_cases enough : count ≤ stream.content.length
  · rw [ByteStream.splitExactly_of_le enough] at whole
    cases whole
    rw [ByteStream.content_skip, List.length_drop]
    exact Nat.sub_le _ _
  · rw [ByteStream.splitExactly_of_lt (Nat.lt_of_not_le enough)] at whole
    cases whole

/-- Without the block that is chained with it, the block of the offset cannot be opened. -/
theorem openAt_of_splitExactly_error {error : StreamError}
    (later : offset.toNat / Block.size ≠ 0)
    (failed : stream.splitExactly Block.size = .error error) :
    openAt cipher start offset stream = .error (
      if error.kind = .unexpectedEnd then
        .range offset 0 (offset.toNat / Block.size * Block.size - 1)
      else error.toError) := by
  simp only [openAt, if_neg later]
  split
  · rename_i chain rest whole
    rw [failed] at whole
    cases whole
  · rename_i other again
    rw [failed] at again
    cases again
    split <;> rfl

/-- All positions are exact, for every stream whose length is a word and every offset. -/
theorem openingAt?_eq (short : stream.content.length < UInt64.size) :
    openingAt? cipher start offset stream = .of (openAt cipher start offset stream) := by
  have first : offset / blockSize = 0 ↔ offset.toNat / Block.size = 0 := by
    rw [← UInt64.toNat_inj, UInt64.toNat_div, toNat_blockSize, UInt64.toNat_zero]
  by_cases zero : offset.toNat / Block.size = 0
  · have viewed := @viewAt?_eq cipher offset stream start short
    rw [onEmpty, if_pos zero] at viewed
    simp only [openingAt?, openAt, first, if_pos zero, viewed, Exact.liftM_some_bind]
    split <;> rfl
  · have positive : offset ≠ 0 := by
      rintro rfl
      exact zero rfl
    obtain ⟨last, known, limit⟩ := exists_lastBefore? zero
    simp only [openingAt?, first, if_neg zero, if_neg positive]
    split
    · -- The block before that of the offset is chained with the rest, which is shorter.
      rename_i chain rest whole
      have length := stream.length_of_splitExactly whole
      have shorter := length_of_splitExactly_rest whole
      rw [← Block.toBytes_ofBytes _ length] at whole
      rw [openAt_of_splitExactly cipher zero whole, viewAt?_eq _ (by omega), onEmpty,
        if_neg zero, Exact.liftM_some_bind]
    · rename_i error failed
      rw [openAt_of_splitExactly_error zero failed]
      split
      · simp only [known, limit, Exact.liftM_some_bind, Exact.throw_eq_of, Exact.of_bind]
      · rfl

end Chaining

end Missive
