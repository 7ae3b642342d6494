import Missive.Cipher.Block

/-!
# Byte strings in blocks

A byte string is a row of whole blocks and a remainder that is shorter than one. The two are
determined by the byte string (`split_join_append`), and so cutting what comes after a byte
string needs to know nothing of it but its remainder (`split_append`).
-/

namespace Missive.Block

theorem join_cons (block : Block) (blocks : List Block) :
    join (block :: blocks) = block.toBytes ++ join blocks := rfl

@[simp]
theorem join_nil : join [] = [] := rfl

@[simp]
theorem join_append (front back : List Block) : join (front ++ back) = join front ++ join back := by
  simp [join]

@[simp]
theorem length_join (blocks : List Block) : (join blocks).length = size * blocks.length := by
  induction blocks with
  | nil => rfl
  | cons block blocks ih =>
      rw [join_cons, List.length_append, length_toBytes, ih, List.length_cons]
      simp only [size]
      omega

theorem split_of_lt {bytes : Bytes} (short : bytes.length < size) : split bytes = [] := by
  rw [split, dif_neg]
  rw [List.length_take]
  omega

theorem take_toBytes_append (block : Block) (rest : Bytes) :
    (block.toBytes ++ rest).take size = block.toBytes :=
  List.take_left' (length_toBytes block)

theorem drop_toBytes_append (block : Block) (rest : Bytes) :
    (block.toBytes ++ rest).drop size = rest :=
  List.drop_left' (length_toBytes block)

theorem split_toBytes_append (block : Block) (rest : Bytes) :
    split (block.toBytes ++ rest) = block :: split rest := by
  rw [split, dif_pos (by rw [take_toBytes_append, length_toBytes])]
  simp only [take_toBytes_append, drop_toBytes_append, ofBytes_toBytes]

/-- The whole blocks at the front of a byte string are cut off one by one. -/
theorem split_join_append (blocks : List Block) (rest : Bytes) :
    split (join blocks ++ rest) = blocks ++ split rest := by
  induction blocks with
  | nil => rfl
  | cons block blocks ih =>
      rw [join_cons, List.append_assoc, split_toBytes_append, ih, List.cons_append]

@[simp]
theorem split_join (blocks : List Block) : split (join blocks) = blocks := by
  have parts := split_join_append blocks []
  have nothing : split [] = [] := split_of_lt (by simp [size])
  rwa [List.append_nil, nothing, List.append_nil] at parts

@[simp]
theorem length_remainder (bytes : Bytes) : (remainder bytes).length = bytes.length % size := by
  rw [remainder, List.length_drop]
  simp only [size]
  omega

theorem length_remainder_lt (bytes : Bytes) : (remainder bytes).length < size := by
  rw [length_remainder]
  exact Nat.mod_lt _ (by simp [size])

theorem remainder_of_lt {bytes : Bytes} (short : bytes.length < size) :
    remainder bytes = bytes := by
  rw [remainder, Nat.div_eq_of_lt short, Nat.zero_mul, List.drop_zero]

@[simp]
theorem remainder_join_append (blocks : List Block) (rest : Bytes) :
    remainder (join blocks ++ rest) = remainder rest := by
  have whole : (join blocks ++ rest).length / size * size =
      (join blocks).length + rest.length / size * size := by
    rw [List.length_append, length_join, Nat.mul_add_div (by simp [size]), Nat.add_mul,
      Nat.mul_comm blocks.length]
  rw [remainder, whole, ← List.drop_drop, List.drop_append_of_le_length (Nat.le_refl _),
    List.drop_length, List.nil_append, remainder]

@[simp]
theorem remainder_join (blocks : List Block) : remainder (join blocks) = [] := by
  have parts := remainder_join_append blocks []
  rwa [List.append_nil] at parts

/-- A byte string consists of its whole blocks and its remainder. -/
theorem join_split_append_remainder (bytes : Bytes) :
    join (split bytes) ++ remainder bytes = bytes := by
  induction size' : bytes.length using Nat.strongRecOn generalizing bytes with
  | ind length ih =>
      by_cases whole : (bytes.take size).length = size
      · have long : size ≤ bytes.length := by
          rw [List.length_take] at whole
          omega
        have shorter : (bytes.drop size).length < length := by
          rw [List.length_drop]
          simp only [size] at long ⊢
          omega
        have first : bytes = (ofBytes (bytes.take size) whole).toBytes ++ bytes.drop size := by
          rw [toBytes_ofBytes, List.take_append_drop]
        have later := ih _ shorter (bytes.drop size) rfl
        have same : remainder bytes = remainder (bytes.drop size) := by
          have parts := remainder_join_append [ofBytes (bytes.take size) whole] (bytes.drop size)
          rwa [join_cons, join_nil, List.append_nil, ← first] at parts
        rw [split, dif_pos whole, join_cons, List.append_assoc, same, later, ← first]
      · have short : bytes.length < size := by
          rw [List.length_take] at whole
          omega
        rw [split_of_lt short, remainder_of_lt short, join_nil, List.nil_append]

@[simp]
theorem length_split (bytes : Bytes) : (split bytes).length = bytes.length / size := by
  have parts := congrArg List.length (join_split_append_remainder bytes)
  rw [List.length_append, length_join, length_remainder] at parts
  simp only [size] at parts ⊢
  omega

theorem remainder_eq_nil_iff (bytes : Bytes) : remainder bytes = [] ↔ bytes.length % size = 0 := by
  rw [← List.length_eq_zero_iff, length_remainder]

theorem join_split_of_dvd {bytes : Bytes} (whole : bytes.length % size = 0) :
    join (split bytes) = bytes := by
  have parts := join_split_append_remainder bytes
  rwa [(remainder_eq_nil_iff bytes).mpr whole, List.append_nil] at parts

theorem join_split_eq_take (bytes : Bytes) :
    join (split bytes) = bytes.take (size * (bytes.length / size)) := by
  have front := congrArg (List.take (join (split bytes)).length) (join_split_append_remainder bytes)
  rw [List.take_left, length_join, length_split] at front
  exact front

theorem split_append (front back : Bytes) :
    split (front ++ back) = split front ++ split (remainder front ++ back) := by
  have parts := split_join_append (split front) (remainder front ++ back)
  rwa [← List.append_assoc, join_split_append_remainder] at parts

theorem remainder_append (front back : Bytes) :
    remainder (front ++ back) = remainder (remainder front ++ back) := by
  have parts := remainder_join_append (split front) (remainder front ++ back)
  rwa [← List.append_assoc, join_split_append_remainder] at parts

end Missive.Block
