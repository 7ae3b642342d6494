import Missive.Cipher.Chaining
import Missive.Proofs.Cipher.Blocks
import Missive.Proofs.Stream

/-!
# Cipher block chaining on whole texts

The views of a stream take it piece by piece, with bytes pending between two pieces and, when
decrypting, with a block held back. Here they are related to the blocks of the whole content:
`content_encryptView` says that the encrypted view holds the encryption of the content, and
`view_decryptView` that the decrypted view releases all decrypted blocks but the last one, and
then what `closing` makes of the last one and of the bytes after it.

`text?` is the text of a row of blocks. A padded text that has been encrypted is the text of its
blocks again (`text?_split_encrypt`), and the text of the later blocks is the later part of the
text (`text?_append`).
-/

namespace Missive.Chaining

variable (cipher : BlockCipher)

@[simp]
theorem length_encryptBlocks (chain : Block) (blocks : List Block) :
    (encryptBlocks cipher chain blocks).length = blocks.length := by
  induction blocks generalizing chain with
  | nil => rfl
  | cons block blocks ih => simp [encryptBlocks, ih]

@[simp]
theorem length_decryptBlocks (chain : Block) (blocks : List Block) :
    (decryptBlocks cipher chain blocks).length = blocks.length := by
  induction blocks generalizing chain with
  | nil => rfl
  | cons block blocks ih => simp [decryptBlocks, ih]

theorem encryptBlocks_append (chain : Block) (front back : List Block) :
    encryptBlocks cipher chain (front ++ back) =
      encryptBlocks cipher chain front ++
        encryptBlocks cipher ((encryptBlocks cipher chain front).getLastD chain) back := by
  induction front generalizing chain with
  | nil => rfl
  | cons block front ih =>
      rw [List.cons_append, encryptBlocks, encryptBlocks, ih, List.getLastD_cons, List.cons_append]

theorem decryptBlocks_append (chain : Block) (front back : List Block) :
    decryptBlocks cipher chain (front ++ back) =
      decryptBlocks cipher chain front ++ decryptBlocks cipher (front.getLastD chain) back := by
  induction front generalizing chain with
  | nil => rfl
  | cons block front ih =>
      rw [List.cons_append, decryptBlocks, decryptBlocks, ih, List.getLastD_cons, List.cons_append]

theorem decryptBlocks_encryptBlocks {cipher : BlockCipher} (inverts : cipher.Inverts)
    (chain : Block) (blocks : List Block) :
    decryptBlocks cipher chain (encryptBlocks cipher chain blocks) = blocks := by
  induction blocks generalizing chain with
  | nil => rfl
  | cons block blocks ih =>
      simp only [encryptBlocks, decryptBlocks, ih, inverts (block.xor chain),
        Block.xor_xor_cancel]

/-! ### Padding -/

theorem length_pad (bytes : Bytes) :
    (pad bytes).length = Block.size * (bytes.length / Block.size + 1) := by
  simp only [pad, List.length_append, List.length_replicate, Block.size]
  omega

/-- Only the bytes after the last whole block count for the padding. -/
theorem pad_append (front back : Bytes) :
    pad (front ++ back) =
      Block.join (Block.split front) ++ pad (Block.remainder front ++ back) := by
  have same : (front ++ back).length % Block.size =
      (Block.remainder front ++ back).length % Block.size := by
    rw [List.length_append, List.length_append, Block.length_remainder, Nat.mod_add_mod]
  rw [pad, pad, same, ← List.append_assoc, ← List.append_assoc,
    Block.join_split_append_remainder]

/-- A text that is filled up by bytes, at most a block of them, each of which holds their number. -/
def Padded (text filled : Bytes) : Prop :=
  ∃ count, 0 < count ∧ count ≤ Block.size ∧
    filled = text ++ List.replicate count (UInt8.ofNat count)

theorem padded_pad (bytes : Bytes) : Padded bytes (pad bytes) := by
  have bounded := Nat.mod_lt bytes.length (show 0 < Block.size by decide)
  exact ⟨_, by omega, by omega, rfl⟩

theorem unpad?_eq_some_iff {block : Block} {text : Bytes} :
    unpad? block = some text ↔ Padded text block.toBytes := by
  constructor
  · intro unpadded
    simp only [unpad?] at unpadded
    split at unpadded
    · rename_i count
      split at unpadded
      · rename_i same
        cases unpadded
        refine ⟨(block.toBytes.getLastD 0).toNat, count.1, count.2, ?_⟩
        have tail : block.toBytes.drop (Block.size - (block.toBytes.getLastD 0).toNat) =
            List.replicate (block.toBytes.getLastD 0).toNat (block.toBytes.getLastD 0) := by
          refine List.eq_replicate_iff.mpr ⟨?_, by simpa using same⟩
          rw [List.length_drop, Block.length_toBytes]
          omega
        rw [UInt8.ofNat_toNat, ← tail, List.take_append_drop]
      · cases unpadded
    · cases unpadded
  · rintro ⟨count, positive, small, shape⟩
    have length := congrArg List.length shape
    rw [Block.length_toBytes, List.length_append, List.length_replicate] at length
    have last : block.toBytes.getLastD 0 = UInt8.ofNat count := by
      rw [shape, List.getLastD_eq_getLast?, List.getLast?_append, List.getLast?_replicate,
        if_neg (by omega)]
      rfl
    have value : (UInt8.ofNat count).toNat = count := by
      simp only [Block.size] at small
      rw [UInt8.toNat_ofNat']
      omega
    have kept : Block.size - count = text.length := by omega
    simp only [unpad?, last, value, kept]
    rw [if_pos ⟨positive, small⟩, shape, List.drop_left, List.take_left, if_pos (by simp)]

theorem split_pad (bytes : Bytes) :
    ∃ last, Block.split (pad bytes) = Block.split bytes ++ [last] ∧
      unpad? last = some (Block.remainder bytes) := by
  have short := Block.length_remainder_lt bytes
  have parts := pad_append bytes []
  rw [List.append_nil, List.append_nil] at parts
  have whole : (pad (Block.remainder bytes)).length = Block.size := by
    rw [length_pad, Nat.div_eq_of_lt short, Nat.zero_add, Nat.mul_one]
  refine ⟨Block.ofBytes (pad (Block.remainder bytes)) whole, ?_, ?_⟩
  · rw [parts, Block.split_join_append]
    have single := Block.split_join [Block.ofBytes (pad (Block.remainder bytes)) whole]
    rw [Block.join_cons, Block.join_nil, List.append_nil, Block.toBytes_ofBytes] at single
    rw [single]
  · rw [unpad?_eq_some_iff, Block.toBytes_ofBytes]
    exact padded_pad _

/-! ### Encrypting -/

theorem encrypt_append (chain : Block) (front back : Bytes) :
    encrypt cipher chain (front ++ back) =
      Block.join (encryptBlocks cipher chain (Block.split front)) ++
        encrypt cipher ((encryptBlocks cipher chain (Block.split front)).getLastD chain)
          (Block.remainder front ++ back) := by
  rw [encrypt, pad_append, Block.split_join_append, encryptBlocks_append, Block.join_append,
    encrypt]

@[simp]
theorem length_encrypt (chain : Block) (bytes : Bytes) :
    (encrypt cipher chain bytes).length = Block.size * (bytes.length / Block.size + 1) := by
  rw [encrypt, Block.length_join, length_encryptBlocks, Block.length_split, length_pad,
    Nat.mul_div_cancel_left _ (by simp [Block.size])]

theorem encryptPieces_finished (chain : Block) (pending : Bytes) (pieces : List Bytes) :
    (encryptPieces cipher .finished chain pending pieces).content =
        encrypt cipher chain (pending ++ pieces.flatten) ∧
      (encryptPieces cipher .finished chain pending pieces).ending = .finished := by
  induction pieces generalizing chain pending with
  | nil => simp [encryptPieces, ByteStream.content]
  | cons piece pieces ih =>
      have rest := ih
        ((encryptBlocks cipher chain (Block.split (pending ++ piece))).getLastD chain)
        (Block.remainder (pending ++ piece))
      refine ⟨?_, rest.2⟩
      simp only [encryptPieces]
      rw [ByteStream.content_consPiece, List.flatten_cons, ← List.append_assoc, encrypt_append,
        ← rest.1]
      rfl

/-- The encrypted view of a stream holds the encryption of its content. -/
theorem content_encryptView (start : Block) {stream : ByteStream}
    (finished : stream.ending = .finished) :
    (encryptView cipher start stream).content = encrypt cipher start stream.content ∧
      (encryptView cipher start stream).ending = .finished := by
  have whole := encryptPieces_finished cipher start [] stream.pieces
  rw [encryptView, finished]
  exact whole

/-! ### Decrypting -/

/-- What comes at the end of a decrypted view, and how the view ends. -/
def closing (strictness : Strictness) (ending : Ending) (held : Option Block)
    (pending : Bytes) : Bytes × Ending :=
  match ending with
  | .finished =>
    match finish strictness held pending with
    | .ok bytes => (bytes, .finished)
    | .error error => ([], .rejected (.ofError error))
  | other => ([], other)

theorem getLast?_hold_append {α : Type} (items later : List α) :
    (items.getLast?.toList ++ later).getLast? = (items ++ later).getLast? := by
  rcases List.eq_nil_or_concat items with rfl | ⟨front, last, rfl⟩
  · rfl
  · cases later <;> simp [List.getLast?_append, List.getLast?_cons]

theorem dropLast_hold_append {α : Type} (items later : List α) :
    items.dropLast ++ (items.getLast?.toList ++ later).dropLast = (items ++ later).dropLast := by
  rcases List.eq_nil_or_concat items with rfl | ⟨front, last, rfl⟩
  · rfl
  · simp [List.dropLast_append_of_ne_nil]

theorem view_decryptPieces (strictness : Strictness) (ending : Ending) (chain : Block)
    (held : Option Block) (pending : Bytes) (short : pending.length < Block.size)
    (pieces : List Bytes) :
    let bytes := pending ++ pieces.flatten
    let blocks := held.toList ++ decryptBlocks cipher chain (Block.split bytes)
    let closed := closing strictness ending blocks.getLast? (Block.remainder bytes)
    let view := decryptPieces cipher strictness ending chain held pending pieces
    view.content = Block.join blocks.dropLast ++ closed.1 ∧ view.ending = closed.2 := by
  induction pieces generalizing chain held pending with
  | nil =>
      have none : held.toList.dropLast = [] := by cases held <;> rfl
      have last : held.toList.getLast? = held := by cases held <;> rfl
      simp only [List.flatten_nil, List.append_nil, Block.split_of_lt short, decryptBlocks, none,
        last, Block.remainder_of_lt short, Block.join_nil, List.nil_append]
      cases ending with
      | finished =>
          simp only [decryptPieces, closing]
          cases finish strictness held pending with
          | ok bytes => exact ⟨by simp [ByteStream.content], rfl⟩
          | error error => exact ⟨rfl, rfl⟩
      | failing error => exact ⟨rfl, rfl⟩
      | rejected error => exact ⟨rfl, rfl⟩
  | cons piece pieces ih =>
      -- What is held and pending after the piece stands for all that came before.
      generalize front : held.toList ++
        decryptBlocks cipher chain (Block.split (pending ++ piece)) = decrypted
      have rest := ih ((Block.split (pending ++ piece)).getLastD chain) decrypted.getLast?
        (Block.remainder (pending ++ piece)) (Block.length_remainder_lt _)
      simp only [List.flatten_cons, ← List.append_assoc, Block.split_append (pending ++ piece),
        decryptBlocks_append, front, Block.remainder_append (pending ++ piece)] at rest ⊢
      simp only [decryptPieces, front]
      generalize decryptBlocks cipher ((Block.split (pending ++ piece)).getLastD chain)
        (Block.split (Block.remainder (pending ++ piece) ++ pieces.flatten)) = later at rest ⊢
      rw [getLast?_hold_append] at rest
      refine ⟨?_, rest.2⟩
      rw [← dropLast_hold_append, Block.join_append, List.append_assoc, ← rest.1,
        ByteStream.content_consPiece]
      rfl

theorem view_decryptView (start : Block) (strictness : Strictness) (stream : ByteStream) :
    let blocks := decryptBlocks cipher start (Block.split stream.content)
    let closed :=
      closing strictness stream.ending blocks.getLast? (Block.remainder stream.content)
    let view := decryptView cipher start strictness stream
    view.content = Block.join blocks.dropLast ++ closed.1 ∧ view.ending = closed.2 :=
  view_decryptPieces cipher strictness stream.ending start none [] (by simp [Block.size])
    stream.pieces

/-! ### The text of some blocks -/

/-- The text of the blocks that decrypt to the given ones, if the last one is padded. -/
def unpadded? (decrypted : List Block) : Option Bytes := do
  let rest ← decrypted.getLast? >>= unpad?
  return Block.join decrypted.dropLast ++ rest

/-- The text of some blocks, the first of which was masked with `chain`. -/
def text? (chain : Block) (blocks : List Block) : Option Bytes :=
  unpadded? (decryptBlocks cipher chain blocks)

theorem unpadded?_append (front : List Block) {back : List Block} (present : back ≠ []) :
    unpadded? (front ++ back) = (unpadded? back).map (Block.join front ++ ·) := by
  rcases List.eq_nil_or_concat back with rfl | ⟨earlier, last, rfl⟩
  · exact absurd rfl present
  · rw [List.concat_eq_append, ← List.append_assoc]
    simp only [unpadded?, List.getLast?_concat, List.dropLast_concat, Option.bind_eq_bind,
      Option.bind_some, Option.pure_def, Block.join_append]
    cases unpad? last with
    | none => rfl
    | some rest => simp

/-- The later part of a text is the text of the later blocks. -/
theorem text?_append (chain : Block) (front : List Block) {back : List Block}
    (present : back ≠ []) :
    text? cipher chain (front ++ back) =
      (text? cipher (front.getLastD chain) back).map
        (Block.join (decryptBlocks cipher chain front) ++ ·) := by
  rw [text?, decryptBlocks_append, unpadded?_append, text?]
  intro none
  apply present
  rw [← List.length_eq_zero_iff, ← length_decryptBlocks cipher (front.getLastD chain), none,
    List.length_nil]

/-- The padded text that has been encrypted is the text of its blocks. -/
theorem text?_split_encrypt {cipher : BlockCipher} (inverts : cipher.Inverts) (start : Block)
    (bytes : Bytes) :
    text? cipher start (Block.split (encrypt cipher start bytes)) = some bytes := by
  rcases split_pad bytes with ⟨last, blocks, rest⟩
  rw [text?, encrypt, Block.split_join, decryptBlocks_encryptBlocks inverts, blocks, unpadded?,
    List.getLast?_concat, List.dropLast_concat]
  simp [rest, Block.join_split_append_remainder]

theorem remainder_encrypt (start : Block) (bytes : Bytes) :
    Block.remainder (encrypt cipher start bytes) = [] := by
  rw [encrypt, Block.remainder_join]

theorem length_unpad? {block : Block} {bytes : Bytes} (unpadded : unpad? block = some bytes) :
    bytes.length < Block.size := by
  rcases unpad?_eq_some_iff.mp unpadded with ⟨count, positive, _, shape⟩
  have length := congrArg List.length shape
  rw [Block.length_toBytes, List.length_append, List.length_replicate] at length
  omega

/-- The padding of a text takes between one and sixteen bytes. -/
theorem length_text? {chain : Block} {blocks : List Block} {text : Bytes}
    (decrypted : text? cipher chain blocks = some text) :
    text.length < Block.size * blocks.length ∧
      Block.size * blocks.length ≤ text.length + Block.size := by
  rw [← length_decryptBlocks cipher chain blocks]
  rw [text?] at decrypted
  generalize decryptBlocks cipher chain blocks = plain at decrypted ⊢
  rcases List.eq_nil_or_concat plain with rfl | ⟨earlier, last, rfl⟩
  · simp [unpadded?] at decrypted
  · rw [List.concat_eq_append] at decrypted ⊢
    simp only [unpadded?, List.getLast?_concat, List.dropLast_concat] at decrypted
    cases rest : unpad? last with
    | none => simp [rest] at decrypted
    | some bytes =>
        have short := length_unpad? rest
        simp only [rest, Option.bind_eq_bind, Option.bind_some, Option.pure_def,
          Option.some.injEq] at decrypted
        rw [← decrypted, List.length_append, Block.length_join, List.length_append]
        simp only [List.length_singleton, Nat.mul_add, Nat.mul_one]
        omega

/-- Whole blocks are released as their text. -/
theorem view_of_text? {start : Block} (strictness : Strictness) {stream : ByteStream}
    {text : Bytes} (finished : stream.ending = .finished)
    (whole : Block.remainder stream.content = [])
    (decrypted : text? cipher start (Block.split stream.content) = some text) :
    (decryptView cipher start strictness stream).content = text ∧
      (decryptView cipher start strictness stream).ending = .finished := by
  have view := view_decryptView cipher start strictness stream
  simp only [text?, unpadded?] at decrypted
  generalize decryptBlocks cipher start (Block.split stream.content) = plain at decrypted view
  cases last : plain.getLast? with
  | none => simp [last] at decrypted
  | some block =>
      cases rest : unpad? block with
      | none => simp [last, rest] at decrypted
      | some bytes =>
          simp only [last, rest, Option.bind_eq_bind, Option.bind_some, Option.pure_def,
            Option.some.injEq] at decrypted
          simp only [finished, whole, last, closing, finish, rest, ne_eq, not_true_eq_false,
            false_and, if_false, decrypted] at view
          exact view

/-- A strict view that reports its end has released the text of whole blocks. -/
theorem text?_of_view {start : Block} {stream : ByteStream} {error : Error}
    (finished : stream.ending = .finished)
    (ended : (decryptView cipher start ⟨false, some error⟩ stream).ending = .finished) :
    Block.remainder stream.content = [] ∧
      text? cipher start (Block.split stream.content) =
        some (decryptView cipher start ⟨false, some error⟩ stream).content := by
  have view := view_decryptView cipher start ⟨false, some error⟩ stream
  simp only [text?, unpadded?]
  generalize decryptBlocks cipher start (Block.split stream.content) = plain at view
  rcases view with ⟨content, ending⟩
  rw [ended, finished] at ending
  rw [content, finished]
  simp only [closing, finish] at ending ⊢
  by_cases whole : Block.remainder stream.content = []
  · simp only [whole, ne_eq, not_true_eq_false, false_and, if_false] at ending ⊢
    cases last : plain.getLast? with
    | none => simp [last] at ending
    | some block =>
        cases rest : unpad? block with
        | none => simp [last, rest] at ending
        | some bytes => simp [rest]
  · simp [whole] at ending

/-- A read from the first byte on skips nothing. -/
theorem openAt_zero (start : Block) (stream : ByteStream) :
    openAt cipher start 0 stream =
      .ok ((decryptView cipher start ⟨false, some (.decrypt .emptyCiphertext)⟩ stream).skip 0) := by
  have whole : skipWithin 0 0 0
      (decryptView cipher start ⟨false, some (.decrypt .emptyCiphertext)⟩ stream) =
        (decryptView cipher start ⟨false, some (.decrypt .emptyCiphertext)⟩ stream).skip 0 := by
    rw [skipWithin, if_neg (by simp)]
  simp only [openAt, UInt64.toNat_zero, Nat.zero_div, Nat.zero_mul, Nat.zero_mod, if_true, whole,
    pure, Except.pure, bind, Except.bind]

end Missive.Chaining
