import Missive.Cipher.Counter
import Missive.Proofs.Cipher.Blocks
import Missive.Proofs.Stream

/-!
# Counter mode by positions

The mask of a byte depends on nothing but its position: `keystreamByte` is that mask, and the
keystream of any part of a text is the row of the masks of its positions (`keystream_eq_map`).
Hence a text may be masked in pieces, a part of a masked text is the masked part, and masking
twice gives the text back. No bound on positions is needed: the number of a counter block is
reduced modulo 2¹²⁸ where it is written.
-/

namespace Missive.Counter

variable (cipher : BlockCipher) (start : Block)

/-- The mask of the byte at a position of the text. -/
def keystreamByte (position : Nat) : UInt8 :=
  (keystreamBlock cipher start (position / Block.size)).get
    ⟨position % Block.size, Nat.mod_lt _ (by decide)⟩

theorem toBytes_keystreamBlock (index : Nat) :
    (keystreamBlock cipher start index).toBytes =
      (List.range' (Block.size * index) Block.size).map (keystreamByte cipher start) := by
  apply List.ext_getElem
  · simp
  · intro place bound _
    rw [Block.length_toBytes] at bound
    have block : (Block.size * index + place) / Block.size = index := by
      simp only [Block.size] at bound ⊢
      omega
    have inside : (Block.size * index + place) % Block.size = place := by
      simp only [Block.size] at bound ⊢
      omega
    simp [Block.toBytes, keystreamByte, block, inside]
    rfl

theorem join_keystreamBlocks (first count : Nat) :
    Block.join ((List.range' first count).map (keystreamBlock cipher start)) =
      (List.range' (Block.size * first) (Block.size * count)).map (keystreamByte cipher start) := by
  induction count generalizing first with
  | zero => simp
  | succ count ih =>
      have next : Block.size * (first + 1) = Block.size * first + Block.size := Nat.mul_succ _ _
      have more : Block.size * (count + 1) = Block.size + Block.size * count := by
        rw [Nat.mul_succ, Nat.add_comm]
      rw [List.range'_succ, List.map_cons, Block.join_cons, ih, toBytes_keystreamBlock, next, more,
        ← List.range'_append_1, List.map_append]

theorem keystream_eq_map (position length : Nat) :
    keystream cipher start position length =
      (List.range' position length).map (keystreamByte cipher start) := by
  have base : Block.size * (position / Block.size) + position % Block.size = position :=
    Nat.div_add_mod position Block.size
  have enough : length ≤
      Block.size * ((position % Block.size + length + Block.size - 1) / Block.size) -
        position % Block.size := by
    simp only [Block.size]
    omega
  rw [keystream]
  simp only [join_keystreamBlocks, Bytes.slice]
  rw [← List.map_drop, ← List.map_take, List.drop_range', Nat.mul_one, base,
    List.take_range'_of_length_ge enough]

@[simp]
theorem length_keystream (position length : Nat) :
    (keystream cipher start position length).length = length := by
  simp [keystream_eq_map]

theorem keystream_add (position first second : Nat) :
    keystream cipher start position (first + second) =
      keystream cipher start position first ++
        keystream cipher start (position + first) second := by
  simp only [keystream_eq_map, ← List.map_append, List.range'_append_1]

/-! ### Masking -/

@[simp]
theorem length_mask (position : Nat) (bytes : Bytes) :
    (mask cipher start position bytes).length = bytes.length := by
  simp [mask]

theorem mask_append (position : Nat) (front back : Bytes) :
    mask cipher start position (front ++ back) =
      mask cipher start position front ++ mask cipher start (position + front.length) back := by
  rw [mask, mask, mask, List.length_append, keystream_add]
  exact List.zipWith_append (by simp)

/-- A part of a masked text is the masked part. -/
theorem mask_drop (position count : Nat) (bytes : Bytes) :
    (mask cipher start position bytes).drop count =
      mask cipher start (position + count) (bytes.drop count) := by
  by_cases inside : count ≤ bytes.length
  · have parts := mask_append cipher start position (bytes.take count) (bytes.drop count)
    rw [List.take_append_drop, List.length_take, Nat.min_eq_left inside] at parts
    rw [parts]
    exact List.drop_left' (by simp [inside])
  · rw [List.drop_of_length_le (by simp; omega), List.drop_of_length_le (by omega)]
    rfl

theorem xor_xor_cancel (text key : Bytes) (covered : text.length ≤ key.length) :
    Bytes.xor (Bytes.xor text key) key = text := by
  induction text generalizing key with
  | nil => rfl
  | cons byte text ih =>
      cases key with
      | nil => simp at covered
      | cons first key =>
          have rest := ih key (by simpa using covered)
          simp only [Bytes.xor, List.zipWith_cons_cons, UInt8.xor_assoc, UInt8.xor_self,
            UInt8.xor_zero] at rest ⊢
          rw [rest]

@[simp]
theorem mask_mask (position : Nat) (bytes : Bytes) :
    mask cipher start position (mask cipher start position bytes) = bytes := by
  rw [mask, length_mask, mask]
  exact xor_xor_cancel _ _ (by simp)

/-! ### Masked streams -/

theorem flatten_maskPieces (position : Nat) (pieces : List Bytes) :
    (maskPieces cipher start position pieces).flatten =
      mask cipher start position pieces.flatten := by
  induction pieces generalizing position with
  | nil => rfl
  | cons piece pieces ih =>
      rw [maskPieces, List.flatten_cons, ih, List.flatten_cons, mask_append]

@[simp]
theorem content_view (position : Nat) (stream : ByteStream) :
    (view cipher start position stream).content = mask cipher start position stream.content :=
  flatten_maskPieces cipher start position stream.pieces

@[simp]
theorem ending_view (position : Nat) (stream : ByteStream) :
    (view cipher start position stream).ending = stream.ending := rfl

end Missive.Counter
