import Mathlib.Algebra.Field.ZMod
import Mathlib.RingTheory.AdjoinRoot
import Missive.Proofs.Checksum.Blake3
import Missive.Proofs.Checksum.Detection

/-!
# Checksums by their standards

A cyclic redundancy check is a division of polynomials over two elements: a byte string, with its
first 32 bits inverted and 32 zeros behind it, leaves a remainder, and the checksum is that
remainder inverted. A register stands for a polynomial (`Crc32.poly`), and what the register goes
through is a multiplication by the indeterminate in the ring modulo the generator
(`Crc32.residue_shiftBit`), so it holds the remainder in the end (`Crc32.poly_update_initial`). The
sums of Adler-32 are those of all bytes and of all values that the first sum goes through, reduced
only at the end (`Adler32.update_initial`). BLAKE3 is described by the trees that a byte string has
(`Blake3.IsTree`), of which there is one, the one that is computed (`Blake3.IsTree.eq_tree`,
`Blake3.isTree_tree`); the compression of a single node is taken as it is defined.
-/

namespace Missive

open Polynomial

/-- The lowest bits of a number, the least significant one first. -/
def lowBits (width number : Nat) : List Bool :=
  (List.range width).map number.testBit

/-- The polynomial with the given coefficients, that of the highest power first. -/
noncomputable def ofBits : List Bool → (ZMod 2)[X]
  | [] => 0
  | bit :: bits => C (bit.toNat : ZMod 2) * X ^ bits.length + ofBits bits

section

variable {bits others : List Bool} {bit : Bool} {width number : Nat}

@[simp]
theorem length_lowBits (width number : Nat) : (lowBits width number).length = width := by
  simp [lowBits]

theorem lowBits_succ (width number : Nat) :
    lowBits (width + 1) number = lowBits width number ++ [number.testBit width] := by
  simp [lowBits, List.range_succ]

theorem lowBits_succ_eq_cons (width number : Nat) :
    lowBits (width + 1) number = number.testBit 0 :: lowBits width (number / 2) := by
  simp [lowBits, List.range_succ_eq_map, Function.comp_def, Nat.testBit_succ]

theorem ofBits_append (bits others : List Bool) :
    ofBits (bits ++ others) = X ^ others.length * ofBits bits + ofBits others := by
  induction bits with
  | nil => simp [ofBits]
  | cons bit bits ih =>
      simp only [List.cons_append, ofBits, ih, List.length_append, pow_add]
      ring

theorem ofBits_append_singleton (bits : List Bool) (bit : Bool) :
    ofBits (bits ++ [bit]) = X * ofBits bits + C (bit.toNat : ZMod 2) := by
  simp [ofBits_append, ofBits]

theorem degree_ofBits_lt (bits : List Bool) : (ofBits bits).degree < bits.length := by
  induction bits with
  | nil => simp [ofBits]
  | cons bit bits ih =>
      have next : (bits.length : WithBot Nat) < (bit :: bits).length :=
        Nat.cast_lt.mpr (Nat.lt_succ_self bits.length)
      apply lt_of_le_of_lt (degree_add_le _ _)
      apply max_lt
      · exact (degree_C_mul_X_pow_le _ _).trans_lt next
      · exact ih.trans next

theorem coeff_ofBits_cons (bit : Bool) (bits : List Bool) :
    (ofBits (bit :: bits)).coeff bits.length = bit.toNat := by
  have lower := coeff_eq_zero_of_degree_lt (degree_ofBits_lt bits)
  simp [ofBits, lower]

theorem ofBits_injective (counted : bits.length = others.length)
    (same : ofBits bits = ofBits others) : bits = others := by
  induction bits generalizing others with
  | nil => exact (List.length_eq_zero_iff.mp counted.symm).symm
  | cons bit bits ih =>
      cases others with
      | nil => cases counted
      | cons other others =>
          have shorter : bits.length = others.length := Nat.succ.inj counted
          have highest : (bit.toNat : ZMod 2) = other.toNat := by
            rw [← coeff_ofBits_cons bit bits, same, shorter, coeff_ofBits_cons]
          have equal : bit = other := by
            revert highest
            cases bit <;> cases other <;> simp
          subst equal
          simp only [ofBits, shorter, add_right_inj] at same
          rw [ih shorter same]

theorem lowBits_injective {other : Nat} (small : number < 2 ^ width) (smallToo : other < 2 ^ width)
    (same : lowBits width number = lowBits width other) : number = other := by
  apply Nat.eq_of_testBit_eq
  intro index
  by_cases inside : index < width
  · exact List.map_inj_left.mp same index (List.mem_range.mpr inside)
  · have power : 2 ^ width ≤ 2 ^ index := Nat.pow_le_pow_right Nat.two_pos (Nat.not_lt.mp inside)
    rw [Nat.testBit_lt_two_pow (small.trans_le power),
      Nat.testBit_lt_two_pow (smallToo.trans_le power)]

theorem ofBits_lowBits_xor (width number other : Nat) :
    ofBits (lowBits width (number ^^^ other)) =
      ofBits (lowBits width number) + ofBits (lowBits width other) := by
  induction width with
  | zero => simp [lowBits, ofBits]
  | succ width ih =>
      have bits : ∀ left right : Bool,
          ((left ^^ right).toNat : ZMod 2) = left.toNat + right.toNat := by decide
      simp only [lowBits_succ, ofBits_append_singleton, ih, Nat.testBit_xor, bits, map_add]
      ring

/-- A number that is small has nothing but zeros in its higher bits. -/
theorem ofBits_lowBits_add (small : number < 2 ^ width) (more : Nat) :
    ofBits (lowBits (width + more) number) = X ^ more * ofBits (lowBits width number) := by
  induction more with
  | zero => simp
  | succ more ih =>
      have power : 2 ^ width ≤ 2 ^ (width + more) :=
        Nat.pow_le_pow_right Nat.two_pos (Nat.le_add_right width more)
      have zero := Nat.testBit_lt_two_pow (small.trans_le power)
      rw [← Nat.add_assoc, lowBits_succ, ofBits_append_singleton, ih, zero, pow_succ]
      simp only [Bool.toNat_false, Nat.cast_zero, map_zero, add_zero]
      ring

end

/-! ### CRC-32 -/

namespace Crc32

/-- The generator of the IEEE check. -/
noncomputable def generator : (ZMod 2)[X] :=
  X ^ 32 + X ^ 26 + X ^ 23 + X ^ 22 + X ^ 16 + X ^ 12 + X ^ 11 + X ^ 10 + X ^ 8 + X ^ 7 + X ^ 5 +
    X ^ 4 + X ^ 2 + X + 1

/-- The bits of a byte string in the order of transmission. -/
def bitsOf (bytes : Bytes) : List Bool :=
  bytes.flatMap fun byte => lowBits 8 byte.toNat

/--
What the generator leaves of a byte string with 32 zeros behind it, once the first 32 bits of the
whole have been inverted.
-/
noncomputable def remainder (bytes : Bytes) : (ZMod 2)[X] :=
  (X ^ (8 * bytes.length) * ofBits (List.replicate 32 true) + X ^ 32 * ofBits (bitsOf bytes)) %ₘ
    generator

/-- The polynomial that a register stands for, its lowest bit with the highest power. -/
noncomputable def poly (register : UInt32) : (ZMod 2)[X] :=
  ofBits (lowBits 32 register.toNat)

theorem length_bitsOf (bytes : Bytes) : (bitsOf bytes).length = 8 * bytes.length := by
  simp [bitsOf, Nat.mul_comm]

theorem degree_poly_lt (register : UInt32) : (poly register).degree < 32 := by
  have bound := degree_ofBits_lt (lowBits 32 register.toNat)
  rwa [length_lowBits] at bound

theorem poly_injective {register other : UInt32} (same : poly register = poly other) :
    register = other := by
  apply UInt32.toNat_inj.mp
  apply lowBits_injective register.toNat_lt other.toNat_lt
  exact ofBits_injective (by simp) same

theorem poly_xor (register other : UInt32) :
    poly (register ^^^ other) = poly register + poly other := by
  simp [poly, ofBits_lowBits_xor]

theorem poly_byte (byte : UInt8) :
    poly byte.toUInt32 = X ^ 24 * ofBits (lowBits 8 byte.toNat) := by
  rw [poly, UInt8.toNat_toUInt32, ← ofBits_lowBits_add byte.toNat_lt]

theorem poly_initial : poly initial = ofBits (List.replicate 32 true) := by
  have bits : lowBits 32 initial.toNat = List.replicate 32 true := by decide
  rw [poly, bits]

theorem generator_eq : generator = X ^ 32 + poly polynomial := by
  have bits : lowBits 32 polynomial.toNat =
      [false, false, false, false, false, true, false, false, true, true, false, false, false,
        false, false, true, false, false, false, true, true, true, false, true, true, false, true,
        true, false, true, true, true] := by decide
  rw [poly, bits, generator]
  simp [ofBits, ← add_assoc]

theorem monic_generator : generator.Monic := by
  rw [generator_eq]
  exact monic_X_pow_add (degree_poly_lt polynomial)

theorem degree_generator : generator.degree = 32 := by
  rw [generator_eq, degree_add_eq_left_of_degree_lt, degree_X_pow]
  · rfl
  · rw [degree_X_pow]
    exact degree_poly_lt polynomial

/-- The remainder of what is congruent to a register is the register. -/
theorem poly_eq_modByMonic {register : UInt32} {dividend : (ZMod 2)[X]}
    (same : AdjoinRoot.mk generator (poly register) = AdjoinRoot.mk generator dividend) :
    poly register = dividend %ₘ generator := by
  have reduced : poly register %ₘ generator = poly register := by
    apply (modByMonic_eq_self_iff monic_generator).mpr
    rw [degree_generator]
    exact degree_poly_lt register
  rw [← reduced]
  exact modByMonic_eq_of_dvd_sub monic_generator (AdjoinRoot.mk_eq_mk.mp same)

/-! ### A register as a residue -/

theorem poly_shiftRight (register : UInt32) :
    X * poly register =
      C ((register.toNat.testBit 0).toNat : ZMod 2) * X ^ 32 + poly (register >>> 1) := by
  have small : (register.toNat / 2).testBit 31 = false := by
    apply Nat.testBit_lt_two_pow
    have bound := register.toNat_lt
    omega
  rw [poly, poly, toNat_shiftRight_one, lowBits_succ_eq_cons, lowBits_succ 31 (register.toNat / 2),
    small, ofBits_append_singleton, ofBits, length_lowBits]
  simp only [Bool.toNat_false, Nat.cast_zero, map_zero, add_zero]
  ring

/-- A register that is shifted is multiplied by the indeterminate. -/
theorem poly_shiftBit (register : UInt32) :
    poly (shiftBit register) =
      X * poly register + C ((register.toNat.testBit 0).toNat : ZMod 2) * generator := by
  have odd : register &&& 1 = 1 ↔ register.toNat.testBit 0 = true := by
    simp [and_one_eq_one_iff, Nat.testBit_zero]
  have shifted := poly_shiftRight register
  -- Addition is subtraction: the generator takes away the power that has no bit in the register.
  have twice : (X ^ 32 : (ZMod 2)[X]) + X ^ 32 = 0 := CharTwo.add_self_eq_zero _
  cases bit : register.toNat.testBit 0 with
  | false =>
      rw [shiftBit, if_neg (by simp [odd, bit]), shifted, bit]
      simp
  | true =>
      rw [shiftBit, if_pos (odd.mpr bit), poly_xor, shifted, bit, generator_eq]
      simp only [Bool.toNat_true, Nat.cast_one, map_one, one_mul]
      linear_combination -twice

theorem residue_shiftBit (register : UInt32) :
    AdjoinRoot.mk generator (poly (shiftBit register)) =
      AdjoinRoot.mk generator (X * poly register) := by
  rw [poly_shiftBit, map_add, map_mul _ (C _), AdjoinRoot.mk_self, mul_zero, add_zero]

theorem residue_repeat_shiftBit (count : Nat) (register : UInt32) :
    AdjoinRoot.mk generator (poly (Nat.repeat shiftBit count register)) =
      AdjoinRoot.mk generator (X ^ count * poly register) := by
  induction count with
  | zero => simp [Nat.repeat]
  | succ count ih =>
      rw [Nat.repeat, residue_shiftBit, map_mul, ih, ← map_mul, ← mul_assoc, ← pow_succ']

theorem residue_feed (register : UInt32) (byte : UInt8) :
    AdjoinRoot.mk generator (poly (feed register byte)) =
      AdjoinRoot.mk generator (X ^ 8 * poly register + X ^ 32 * ofBits (lowBits 8 byte.toNat)) := by
  rw [feed, residue_repeat_shiftBit, poly_xor, poly_byte, mul_add, ← mul_assoc, ← pow_add]

theorem residue_update (register : UInt32) (bytes : Bytes) :
    AdjoinRoot.mk generator (poly (update register bytes)) =
      AdjoinRoot.mk generator
        (X ^ (8 * bytes.length) * poly register + X ^ 32 * ofBits (bitsOf bytes)) := by
  induction bytes generalizing register with
  | nil => simp [update, bitsOf, ofBits]
  | cons byte bytes ih =>
      have parts : ofBits (bitsOf (byte :: bytes)) =
          X ^ (8 * bytes.length) * ofBits (lowBits 8 byte.toNat) + ofBits (bitsOf bytes) := by
        rw [← length_bitsOf, ← ofBits_append]
        rfl
      have rest : update register (byte :: bytes) = update (feed register byte) bytes := rfl
      have same : X ^ (8 * bytes.length) *
            (X ^ 8 * poly register + X ^ 32 * ofBits (lowBits 8 byte.toNat)) +
            X ^ 32 * ofBits (bitsOf bytes) =
          X ^ (8 * (byte :: bytes).length) * poly register +
            X ^ 32 * ofBits (bitsOf (byte :: bytes)) := by
        rw [parts, List.length_cons]
        ring
      rw [rest, ih, map_add, map_mul, residue_feed, ← map_mul, ← map_add, same]

/-- After a byte string, a register that was started afresh holds the remainder. -/
theorem poly_update_initial (bytes : Bytes) : poly (update initial bytes) = remainder bytes := by
  have residue := residue_update initial bytes
  rw [poly_initial] at residue
  exact poly_eq_modByMonic residue

theorem poly_checksum_xor (bytes : Bytes) :
    poly (checksum bytes ^^^ 0xFFFFFFFF) = remainder bytes := by
  have register : checksum bytes ^^^ 0xFFFFFFFF = update initial bytes := by
    rw [checksum, value, UInt32.xor_assoc, UInt32.xor_self, UInt32.xor_zero]
  rw [register, poly_update_initial]

end Crc32

/-! ### Adler-32 -/

namespace Adler32

/-- One more than the sum of the bytes. -/
def total (bytes : Bytes) : Nat :=
  1 + (bytes.map UInt8.toNat).sum

/-- The sum of the totals behind each of the bytes. -/
def totals (bytes : Bytes) : Nat :=
  ∑ position ∈ Finset.range bytes.length, total (bytes.take (position + 1))

theorem totals_append_singleton (bytes : Bytes) (byte : UInt8) :
    totals (bytes ++ [byte]) = totals bytes + total (bytes ++ [byte]) := by
  have last : (bytes ++ [byte]).take (bytes.length + 1) = bytes ++ [byte] :=
    List.take_of_length_le (by simp)
  rw [totals, List.length_append, List.length_singleton, Finset.sum_range_succ, last]
  congr 1
  apply Finset.sum_congr rfl
  intro position inside
  rw [List.take_append_of_le_length (Finset.mem_range.mp inside)]

/-- Reduced after each byte, the sums are the same as when they are reduced at the end. -/
theorem update_initial (bytes : Bytes) :
    update initial bytes = ⟨total bytes % modulus, totals bytes % modulus⟩ := by
  induction bytes using List.reverseRecOn with
  | nil => rfl
  | append_singleton bytes byte ih =>
      have step : update initial (bytes ++ [byte]) = feed (update initial bytes) byte := by
        simp [update]
      have low : total (bytes ++ [byte]) = total bytes + byte.toNat := by
        simp [total, Nat.add_assoc]
      rw [step, ih, totals_append_singleton, low]
      simp [feed]

theorem toNat_value (bytes : Bytes) :
    (value (update initial bytes)).toNat =
      totals bytes % modulus * 65536 + total bytes % modulus := by
  have low := Nat.mod_lt (total bytes) (show 0 < modulus by decide)
  have high := Nat.mod_lt (totals bytes) (show 0 < modulus by decide)
  rw [update_initial, value, UInt32.toNat_ofNat']
  apply Nat.mod_eq_of_lt
  simp only [modulus] at low high ⊢
  omega

end Adler32

/-! ### BLAKE3 -/

namespace Blake3

/--
The node that stands for a chunk, from some block of the chunk on. Every block before the last is
full and is compressed into the input of the next; zeros fill up the last.
-/
inductive IsChunk (counter : Nat) : ChainingValue → UInt32 → Bytes → Node → Prop where
  | last {input : ChainingValue} {flags : UInt32} {block : Bytes} (small : block.length ≤ 64) :
      IsChunk counter input flags block
        ⟨input, words (block ++ List.replicate (64 - block.length) 0), counter, block.length,
          flags ||| chunkEnd⟩
  | block {input : ChainingValue} {flags : UInt32} {block later : Bytes} {node : Node}
      (full : block.length = 64) (unfinished : later ≠ [])
      (rest : IsChunk counter (Node.compress ⟨input, words block, counter, 64, flags⟩) 0 later
        node) :
      IsChunk counter input flags (block ++ later) node

/--
The node on top of the tree over a byte string, whose first chunk has the given number. At most 1024
bytes are one chunk. Of more, the left subtree takes a power of two of chunks, all of them full, and
the right one what is left, which is something but not more.
-/
inductive IsTree : Nat → Bytes → Node → Prop where
  | chunk {counter : Nat} {bytes : Bytes} {node : Node} (small : bytes.length ≤ 1024)
      (blocks : IsChunk counter initialValue chunkStart bytes node) : IsTree counter bytes node
  | parent {counter height : Nat} {left right : Bytes} {below beside : Node}
      (complete : left.length = 1024 * 2 ^ height) (more : right ≠ [])
      (largest : right.length ≤ left.length) (front : IsTree counter left below)
      (back : IsTree (counter + 2 ^ height) right beside) :
      IsTree counter (left ++ right) (parentNode below.compress beside.compress)

section

variable {counter : Nat} {input : ChainingValue} {flags : UInt32} {bytes block later : Bytes}
  {node : Node}

theorem ofLittleEndian_append_replicate (bytes : Bytes) (count : Nat) :
    Bytes.ofLittleEndian (bytes ++ List.replicate count 0) = Bytes.ofLittleEndian bytes := by
  induction bytes with
  | nil =>
      induction count with
      | zero => rfl
      | succ count ih => simpa [List.replicate_succ, Bytes.ofLittleEndian] using ih
  | cons byte bytes ih => simp [Bytes.ofLittleEndian, ih]

theorem words_append_replicate (block : Bytes) (count : Nat) :
    words (block ++ List.replicate count 0) = words block := by
  simp [words, Bytes.slice, List.drop_append, List.take_append, ofLittleEndian_append_replicate]

theorem chunkFrom_of_le (small : block.length ≤ 64) :
    chunkFrom counter input flags block =
      ⟨input, words block, counter, block.length, flags ||| chunkEnd⟩ := by
  have none : block.drop blockLength = [] := List.drop_eq_nil_of_le small
  rw [chunkFrom]
  split
  · rfl
  · rename_i next rest shape
    rw [none] at shape
    cases shape

theorem chunkFrom_append (full : block.length = 64) (unfinished : later ≠ []) :
    chunkFrom counter input flags (block ++ later) =
      chunkFrom counter (Node.compress ⟨input, words block, counter, 64, flags⟩) 0 later := by
  have front : (block ++ later).take blockLength = block := List.take_left' full
  have back : (block ++ later).drop blockLength = later := List.drop_left' full
  rw [chunkFrom]
  split
  · rename_i none
    exact absurd (back.symm.trans none) unfinished
  · rename_i next rest shape
    rw [front, ← shape, back]
    rfl

/-- The blocks of a chunk lead to no node but the one that is computed. -/
theorem IsChunk.eq_chunkFrom (chunk : IsChunk counter input flags bytes node) :
    node = chunkFrom counter input flags bytes := by
  induction chunk with
  | last small => rw [words_append_replicate, chunkFrom_of_le small]
  | block full unfinished _ ih => rw [chunkFrom_append full unfinished, ih]

theorem isChunk_chunkFrom : IsChunk counter input flags bytes
    (chunkFrom counter input flags bytes) := by
  induction size : bytes.length using Nat.strongRecOn generalizing input flags bytes with
  | ind length ih =>
      by_cases small : bytes.length ≤ 64
      · rw [chunkFrom_of_le small, ← words_append_replicate bytes (64 - bytes.length)]
        exact IsChunk.last small
      · have full : (bytes.take 64).length = 64 := by
          simp
          omega
        have unfinished : bytes.drop 64 ≠ [] := by
          simp
          omega
        have shorter : (bytes.drop 64).length < length := by
          simp
          omega
        rw [← List.take_append_drop 64 bytes, chunkFrom_append full unfinished]
        exact IsChunk.block full unfinished (ih _ shorter rfl)

theorem IsChunk.counter_eq (chunk : IsChunk counter input flags bytes node) :
    node.counter = counter := by
  induction chunk with
  | last small => rfl
  | block _ _ _ ih => exact ih

theorem chunksIn_eq_two_pow (height : Nat) : chunksIn height = 2 ^ height := by
  induction height with
  | zero => rfl
  | succ height ih => rw [chunksIn, ih, pow_succ, Nat.mul_comm]

/-- More than one chunk is more than some complete subtree, and at most twice as much. -/
theorem exists_span {length : Nat} (several : chunkLength < length) :
    ∃ height, span height < length ∧ length ≤ 2 * span height := by
  have chunks : (length - 1) / chunkLength ≠ 0 := by
    simp only [chunkLength] at several ⊢
    omega
  have lower := Nat.log2_self_le chunks
  have upper := Nat.lt_log2_self (n := (length - 1) / chunkLength)
  refine ⟨((length - 1) / chunkLength).log2, ?_⟩
  rw [← chunksIn_eq_two_pow] at lower upper
  simp only [span, chunkLength, chunksIn] at *
  omega

/-- A byte string has no tree but the one that is computed. -/
theorem IsTree.eq_tree (built : IsTree counter bytes node) : node = tree counter bytes := by
  induction built with
  | chunk small blocks => rw [tree_of_chunk small, chunkNode, blocks.eq_chunkFrom]
  | @parent counter height left right below beside complete more largest _ _ ihFront ihBack =>
      have whole : left.length = span height := by
        rw [complete, span, chunksIn_eq_two_pow, chunkLength]
      have positive := List.length_pos_iff.mpr more
      have above : span height < (left ++ right).length := by
        rw [List.length_append]
        omega
      have within : (left ++ right).length ≤ 2 * span height := by
        rw [List.length_append]
        omega
      rw [tree_eq_parentNode above within, List.take_left' whole, List.drop_left' whole,
        chunksIn_eq_two_pow, ihFront, ihBack]

theorem isTree_tree (counter : Nat) (bytes : Bytes) :
    IsTree counter bytes (tree counter bytes) := by
  induction size : bytes.length using Nat.strongRecOn generalizing counter bytes with
  | ind length ih =>
      by_cases small : bytes.length ≤ chunkLength
      · rw [tree_of_chunk small]
        exact IsTree.chunk small isChunk_chunkFrom
      · obtain ⟨height, above, within⟩ := exists_span (Nat.not_le.mp small)
        have positive := span_pos height
        have left : (bytes.take (span height)).length = span height :=
          List.length_take_of_le (Nat.le_of_lt above)
        have right : (bytes.drop (span height)).length = bytes.length - span height :=
          List.length_drop
        have parts := List.take_append_drop (span height) bytes
        rw [tree_eq_parentNode above within, chunksIn_eq_two_pow]
        generalize bytes.take (span height) = front at left parts ⊢
        generalize bytes.drop (span height) = back at right parts ⊢
        subst parts
        apply IsTree.parent
        · rw [left, span, chunksIn_eq_two_pow, chunkLength]
        · apply List.length_pos_iff.mp
          omega
        · omega
        · exact ih front.length (by omega) counter front rfl
        · exact ih back.length (by omega) (counter + 2 ^ height) back rfl

/-- The node on top of a whole tree has the number zero, whether it is a chunk or not. -/
theorem IsTree.counter_eq_zero (built : IsTree 0 bytes node) : node.counter = 0 := by
  cases built with
  | chunk _ blocks => exact blocks.counter_eq
  | parent => rfl

theorem IsTree.take_digest {word : UInt32} (built : IsTree 0 bytes node)
    (first : (Node.compress { node with flags := node.flags ||| root }).toList.head? = some word) :
    (digest bytes).take 4 = Bytes.littleEndian 4 word.toNat := by
  rcases List.head?_eq_some_iff.mp first with ⟨later, shape⟩
  rw [built.counter_eq_zero] at shape
  rw [digest, Node.digest, ← built.eq_tree, shape, List.flatMap_cons]
  exact List.take_left' (Bytes.length_littleEndian _ _)

theorem exists_head?_toList (value : ChainingValue) : ∃ word, value.toList.head? = some word := by
  apply Option.isSome_iff_exists.mp
  simp

end

end Blake3

/-! ### The checksums -/

namespace Checksum

/--
The value that the standard of an algorithm gives to a byte string: an inverted remainder, two sums
or the first word of what the top of the tree is compressed to.
-/
inductive Standard (bytes : Bytes) : Checksum → Bytes → Prop where
  | crc32 {number : UInt32}
      (inverted : Crc32.poly (number ^^^ 0xFFFFFFFF) = Crc32.remainder bytes) :
      Standard bytes crc32 (Bytes.bigEndian 4 number.toNat)
  | adler32 :
      Standard bytes adler32 (Bytes.bigEndian 4
        (Adler32.totals bytes % 65521 * 65536 + Adler32.total bytes % 65521))
  | blake3 {top : Blake3.Node} {word : UInt32} (tree : Blake3.IsTree 0 bytes top)
      (first : (Blake3.Node.compress
        { top with flags := top.flags ||| Blake3.root }).toList.head? = some word) :
      Standard bytes blake3 (Bytes.littleEndian 4 word.toNat)

/-- Every byte string has one value by the standard, the one that is computed. -/
theorem standard_iff {checksum : Checksum} {bytes value : Bytes} :
    Standard bytes checksum value ↔ value = checksum.compute bytes := by
  constructor
  · intro standard
    cases standard with
    | crc32 inverted =>
        rw [← Crc32.poly_checksum_xor] at inverted
        rw [(UInt32.xor_left_inj _).mp (Crc32.poly_injective inverted)]
        rfl
    | adler32 =>
        rw [compute, Adler32.checksum, Adler32.toNat_value]
        rfl
    | blake3 tree first => rw [← tree.take_digest first, compute, width]
  · rintro rfl
    cases checksum with
    | crc32 => exact Standard.crc32 (Crc32.poly_checksum_xor bytes)
    | adler32 =>
        rw [compute, Adler32.checksum, Adler32.toNat_value]
        exact Standard.adler32
    | blake3 =>
        have tree := Blake3.isTree_tree 0 bytes
        rcases Blake3.exists_head?_toList _ with ⟨word, first⟩
        rw [compute, width, tree.take_digest first]
        exact Standard.blake3 tree first

end Checksum

end Missive
