import Missive.Checksum.Blake3

/-!
# BLAKE3 piece by piece

A state keeps the chaining values of complete subtrees. After `count` complete chunks these are
the subtrees that the binary digits of `count` call for: `stack` lists them, the smallest one
first, and `addSubtree_stack` says that adding a chunk leads to the list for the next number.
Joining them one after the other with what is left gives the tree over the whole input
(`foldl_stack`), and so the pieces in which it came make no difference.
-/

namespace Missive.Blake3

/-- The number of chunks in a complete subtree. -/
def chunksIn : (height : Nat) → Nat
  | 0 => 1
  | height + 1 => 2 * chunksIn height

/-- The number of bytes in a complete subtree. -/
def span (height : Nat) : Nat := chunkLength * chunksIn height

theorem span_succ (height : Nat) : span (height + 1) = 2 * span height :=
  Nat.mul_left_comm chunkLength 2 (chunksIn height)

theorem mul_span_succ (index height : Nat) :
    index * span (height + 1) = 2 * index * span height := by
  rw [span_succ, ← Nat.mul_assoc, Nat.mul_comm index 2]

theorem mul_chunksIn_succ (index height : Nat) :
    index * chunksIn (height + 1) = 2 * index * chunksIn height := by
  rw [chunksIn, ← Nat.mul_assoc, Nat.mul_comm index 2]

theorem chunksIn_pos (height : Nat) : 0 < chunksIn height := by
  induction height with
  | zero => exact Nat.one_pos
  | succ height ih => exact Nat.mul_pos Nat.two_pos ih

theorem one_shiftLeft (height : Nat) : 1 <<< height = chunksIn height := by
  induction height with
  | zero => rfl
  | succ height ih => rw [Nat.shiftLeft_succ, ih, chunksIn]

theorem span_pos (height : Nat) : 0 < span height :=
  Nat.mul_pos (by decide) (chunksIn_pos height)

theorem leftLength_of_span {length height : Nat} (more : span height < length)
    (less : length ≤ 2 * span height) : leftLength length = span height := by
  have power : chunksIn height = 2 ^ height := by
    rw [← one_shiftLeft, Nat.one_shiftLeft]
  have chunks : chunksIn height ≤ (length - 1) / chunkLength ∧
      (length - 1) / chunkLength < 2 * chunksIn height := by
    have positive := chunksIn_pos height
    simp only [span, chunkLength] at more less ⊢
    omega
  have log : ((length - 1) / chunkLength).log2 = height := by
    rw [power] at chunks
    rw [Nat.log2_eq_iff (by have power := Nat.two_pow_pos height; omega), Nat.pow_succ]
    omega
  rw [leftLength, log, Nat.shiftLeft_eq, span, power]

/-- A tree splits at the largest complete subtree that leaves something over. -/
theorem tree_eq_parentNode {height counter : Nat} {bytes : Bytes}
    (more : span height < bytes.length) (less : bytes.length ≤ 2 * span height) :
    tree counter bytes =
      parentNode (tree counter (bytes.take (span height))).compress
        (tree (counter + chunksIn height) (bytes.drop (span height))).compress := by
  have several : chunkLength < bytes.length := by
    have positive := chunksIn_pos height
    simp only [span, chunkLength] at more ⊢
    omega
  have chunks : span height / chunkLength = chunksIn height :=
    Nat.mul_div_cancel_left _ (by decide)
  rw [tree, dif_pos several]
  simp only [leftLength_of_span more less, chunks]

/-! ### Complete subtrees -/

variable (bytes : Bytes)

/-- The chaining value of the complete subtree number `index` of a height. -/
def subtree (height index : Nat) : ChainingValue :=
  (tree (index * chunksIn height) (bytes.slice (index * span height) (span height))).compress

/-- The tree from the subtree number `index` of a height on. -/
def remainder (height index : Nat) : Node :=
  tree (index * chunksIn height) (bytes.drop (index * span height))

/-- The complete subtrees of `count` subtrees of a height, the latest first. -/
def stack (height count : Nat) : List ChainingValue :=
  if count = 0 then []
  else if count % 2 = 1 then subtree bytes height (count - 1) :: stack (height + 1) (count / 2)
  else stack (height + 1) (count / 2)
  termination_by count

theorem stack_zero (height : Nat) : stack bytes height 0 = [] := by
  rw [stack, if_pos rfl]

theorem stack_even (height count : Nat) :
    stack bytes height (2 * count) = stack bytes (height + 1) count := by
  rcases Nat.eq_zero_or_pos count with rfl | positive
  · rw [Nat.mul_zero, stack_zero, stack_zero]
  · rw [stack, if_neg (by omega), if_neg (by omega), Nat.mul_div_cancel_left _ (by decide)]

theorem stack_odd (height count : Nat) :
    stack bytes height (2 * count + 1) =
      subtree bytes height (2 * count) :: stack bytes (height + 1) count := by
  have half : (2 * count + 1) / 2 = count := by omega
  rw [stack, if_neg (by omega), if_pos (by omega), half, Nat.add_sub_cancel]

variable {bytes}

/-- A complete subtree joins the two that it consists of. -/
theorem subtree_succ {height index : Nat}
    (complete : (2 * index + 2) * span height ≤ bytes.length) :
    subtree bytes (height + 1) index =
      (parentNode (subtree bytes height (2 * index))
        (subtree bytes height (2 * index + 1))).compress := by
  rw [Nat.add_mul] at complete
  have length : (bytes.slice (2 * index * span height) (2 * span height)).length =
      2 * span height := by
    rw [Bytes.slice, List.length_take, List.length_drop]
    omega
  have positive := span_pos height
  have left : (bytes.slice (2 * index * span height) (2 * span height)).take (span height) =
      bytes.slice (2 * index * span height) (span height) := by
    rw [Bytes.slice, List.take_take, Nat.min_eq_left (by omega), Bytes.slice]
  have right : (bytes.slice (2 * index * span height) (2 * span height)).drop (span height) =
      bytes.slice ((2 * index + 1) * span height) (span height) := by
    rw [Bytes.slice, List.drop_take, List.drop_drop, Bytes.slice, Nat.add_mul, Nat.one_mul]
    congr 1
    omega
  have next : (2 * index + 1) * chunksIn height =
      2 * index * chunksIn height + chunksIn height := by
    rw [Nat.add_mul, Nat.one_mul]
  rw [subtree, mul_span_succ, mul_chunksIn_succ, span_succ,
    tree_eq_parentNode (by rw [length]; omega) (Nat.le_of_eq length), left, right, subtree, subtree,
    next]

/-- What is left after an odd number of subtrees is a part of what is left before the last one. -/
theorem remainder_odd {height index : Nat} (more : (2 * index + 1) * span height < bytes.length)
    (less : bytes.length ≤ (2 * index + 2) * span height) :
    remainder bytes (height + 1) index =
      parentNode (subtree bytes height (2 * index))
        (remainder bytes height (2 * index + 1)).compress := by
  have length : (bytes.drop (2 * index * span height)).length =
      bytes.length - 2 * index * span height := List.length_drop
  have next : (2 * index + 1) * chunksIn height =
      2 * index * chunksIn height + chunksIn height := by
    rw [Nat.add_mul, Nat.one_mul]
  rw [Nat.add_mul] at more less
  have after : (2 * index + 1) * span height = 2 * index * span height + span height := by
    rw [Nat.add_mul, Nat.one_mul]
  have split := @tree_eq_parentNode height (2 * index * chunksIn height)
    (bytes.drop (2 * index * span height)) (by rw [length]; omega) (by rw [length]; omega)
  rw [remainder, mul_span_succ, mul_chunksIn_succ, split, List.drop_drop, subtree, remainder, next,
    after, Bytes.slice]

theorem remainder_even (height index : Nat) :
    remainder bytes (height + 1) index = remainder bytes height (2 * index) := by
  rw [remainder, remainder, mul_span_succ, mul_chunksIn_succ]

/-- Adding a complete subtree leads to the subtrees of the next number. -/
theorem addSubtree_stack {height count : Nat}
    (complete : (count + 1) * span height ≤ bytes.length) :
    addSubtree (stack bytes height count) (subtree bytes height count) (count + 1) =
      stack bytes height (count + 1) := by
  induction count using Nat.strongRecOn generalizing height with
  | ind count ih =>
      obtain ⟨half, rfl | rfl⟩ : ∃ half, count = 2 * half ∨ count = 2 * half + 1 :=
        ⟨count / 2, by omega⟩
      · rw [stack_odd, stack_even]
        cases stack bytes (height + 1) half with
        | nil => rfl
        | cons left earlier => rw [addSubtree, if_neg (by omega)]
      · have joined : (half + 1) * span (height + 1) ≤ bytes.length := by
          rw [mul_span_succ]
          exact complete
        have next : (2 * half + 1 + 1) / 2 = half + 1 := by omega
        have even : 2 * half + 1 + 1 = 2 * (half + 1) := by omega
        rw [stack_odd, addSubtree, if_pos (by omega), ← subtree_succ complete, next,
          ih half (by omega) joined, even, stack_even]

/-- Joining the complete subtrees with what is left gives the tree over everything. -/
theorem foldl_stack {height count : Nat} (more : count * span height < bytes.length)
    (less : bytes.length ≤ (count + 1) * span height) :
    (stack bytes height count).foldl (fun node left => parentNode left node.compress)
      (remainder bytes height count) = tree 0 bytes := by
  induction count using Nat.strongRecOn generalizing height with
  | ind count ih =>
      rcases Nat.eq_zero_or_pos count with rfl | positive
      · rw [stack_zero, List.foldl_nil, remainder, Nat.zero_mul, Nat.zero_mul, List.drop_zero]
      · obtain ⟨half, rfl | rfl⟩ : ∃ half, count = 2 * half ∨ count = 2 * half + 1 :=
          ⟨count / 2, by omega⟩
        · rw [stack_even, ← remainder_even]
          apply ih half (by omega)
          · rw [mul_span_succ]
            exact more
          · rw [mul_span_succ, Nat.mul_add, Nat.add_mul]
            rw [Nat.add_mul] at less
            omega
        · rw [stack_odd, List.foldl_cons, ← remainder_odd more less]
          apply ih half (by omega)
          · rw [mul_span_succ]
            rw [Nat.add_mul] at more
            omega
          · rw [mul_span_succ]
            exact less

/-! ### The state between two pieces -/

theorem tree_of_chunk {counter : Nat} {chunk : Bytes} (small : chunk.length ≤ chunkLength) :
    tree counter chunk = chunkNode counter chunk := by
  rw [tree, dif_neg (Nat.not_lt.mpr small)]

theorem subtree_append {height index : Nat} (more : Bytes)
    (complete : (index + 1) * span height ≤ bytes.length) :
    subtree (bytes ++ more) height index = subtree bytes height index := by
  rw [Nat.add_mul, Nat.one_mul] at complete
  have positive := span_pos height
  rw [subtree, subtree, Bytes.slice, Bytes.slice,
    List.drop_append_of_le_length (by omega),
    List.take_append_of_le_length (by rw [List.length_drop]; omega)]

theorem stack_append {height count : Nat} (more : Bytes)
    (complete : count * span height ≤ bytes.length) :
    stack (bytes ++ more) height count = stack bytes height count := by
  induction count using Nat.strongRecOn generalizing height with
  | ind count ih =>
      rcases Nat.eq_zero_or_pos count with rfl | positive
      · rw [stack_zero, stack_zero]
      · obtain ⟨half, rfl | rfl⟩ : ∃ half, count = 2 * half ∨ count = 2 * half + 1 :=
          ⟨count / 2, by omega⟩
        · rw [← mul_span_succ] at complete
          rw [stack_even, stack_even, ih half (by omega) complete]
        · have last := @subtree_append bytes height (2 * half) more complete
          rw [Nat.add_mul, ← mul_span_succ] at complete
          rw [stack_odd, stack_odd, last, ih half (by omega) (by omega)]

/-- What a state has taken in. -/
structure State.Holds (state : State) (bytes : Bytes) : Prop where
  length : state.chunks * chunkLength + state.chunk.length = bytes.length
  room : state.chunk.length ≤ chunkLength
  chunk : state.chunk = bytes.drop (state.chunks * chunkLength)
  subtrees : state.subtrees = stack bytes 0 state.chunks

theorem State.holds_initial : State.initial.Holds [] := by
  refine ⟨rfl, by decide, rfl, ?_⟩
  rw [State.initial, stack_zero]

theorem State.Holds.closeChunk {state : State} (holds : state.Holds bytes) :
    state.closeChunk.Holds bytes := by
  rw [State.closeChunk]
  split
  · exact holds
  · rename_i full
    have whole : state.chunk.length = chunkLength := Nat.le_antisymm holds.room (Nat.not_lt.mp full)
    have length := holds.length
    have complete : (state.chunks + 1) * span 0 ≤ bytes.length := by
      rw [span, chunksIn, Nat.mul_one, Nat.add_mul]
      omega
    have value : (chunkNode state.chunks state.chunk).compress = subtree bytes 0 state.chunks := by
      rw [subtree, span, chunksIn, Nat.mul_one, Nat.mul_one, Bytes.slice, ← holds.chunk,
        List.take_of_length_le holds.room, tree_of_chunk holds.room]
    refine ⟨?_, Nat.zero_le _, ?_, ?_⟩
    · rw [List.length_nil, Nat.add_mul]
      omega
    · symm
      apply List.drop_of_length_le
      dsimp only
      rw [Nat.add_mul]
      omega
    · dsimp only
      rw [value, holds.subtrees, addSubtree_stack complete]

/-- Taking in a byte string appends it, and leaves a chunk with a byte in it. -/
theorem State.Holds.update {state : State} (holds : state.Holds bytes) (more : Bytes)
    (filled : state.chunk = [] → state.chunks = 0) :
    (state.update more).Holds (bytes ++ more) ∧
      ((state.update more).chunk = [] → (state.update more).chunks = 0) := by
  induction size : more.length using Nat.strongRecOn generalizing state bytes more with
  | ind length ih =>
      cases more with
      | nil =>
          rw [State.update, List.append_nil]
          exact ⟨holds, filled⟩
      | cons byte rest =>
          have roomy := holds.closeChunk
          have small := state.length_closeChunk
          rw [State.update]
          generalize state.closeChunk = closed at roomy small ⊢
          generalize taken : (byte :: rest).take (chunkLength - closed.chunk.length) = front
          have parts : bytes ++ byte :: rest =
              bytes ++ front ++ (byte :: rest).drop (chunkLength - closed.chunk.length) := by
            rw [List.append_assoc, ← taken, List.take_append_drop]
          have some : front ≠ [] := by
            rw [← taken]
            intro none
            rcases List.take_eq_nil_iff.mp none with zero | empty
            · omega
            · cases empty
          have bound : front.length ≤ chunkLength - closed.chunk.length := by
            rw [← taken, List.length_take]
            exact Nat.min_le_left _ _
          have inside : closed.chunks * chunkLength ≤ bytes.length := by
            have total := roomy.length
            omega
          have next : State.Holds ⟨closed.subtrees, closed.chunks, closed.chunk ++ front⟩
              (bytes ++ front) := by
            refine ⟨?_, ?_, ?_, ?_⟩
            · have total := roomy.length
              simp only [List.length_append]
              omega
            · simp only [List.length_append]
              omega
            · rw [List.drop_append_of_le_length inside, ← roomy.chunk]
            · rw [stack_append front (by rw [span, chunksIn, Nat.mul_one]; exact inside)]
              exact roomy.subtrees
          have shorter : ((byte :: rest).drop (chunkLength - closed.chunk.length)).length <
              length := by
            rw [← size, List.length_drop, List.length_cons]
            omega
          rw [parts]
          apply ih _ shorter next _ _ rfl
          intro none
          exact absurd (List.append_eq_nil_iff.mp none).2 some

/-- The digest of what a state has taken in. -/
theorem State.Holds.digest {state : State} (holds : state.Holds bytes)
    (filled : state.chunk = [] → state.chunks = 0) : state.digest = Blake3.digest bytes := by
  have last : chunkNode state.chunks state.chunk = remainder bytes 0 state.chunks := by
    rw [remainder, span, chunksIn, Nat.mul_one, Nat.mul_one, ← holds.chunk,
      tree_of_chunk holds.room]
  rw [State.digest, Blake3.digest, holds.subtrees, last]
  congr 1
  have length := holds.length
  rcases Nat.eq_zero_or_pos state.chunks with zero | positive
  · rw [zero, stack_zero, List.foldl_nil, remainder, Nat.zero_mul, Nat.zero_mul, List.drop_zero]
  · have present : 0 < state.chunk.length := by
      apply List.length_pos_iff.mpr
      intro none
      rw [filled none] at positive
      exact absurd positive (Nat.lt_irrefl 0)
    have room := holds.room
    apply foldl_stack
    · rw [span, chunksIn, Nat.mul_one]
      omega
    · rw [span, chunksIn, Nat.mul_one, Nat.add_mul]
      omega

/-- The pieces in which the input comes make no difference to the digest. -/
theorem digest_foldl_update (pieces : List Bytes) :
    (pieces.foldl State.update State.initial).digest = digest pieces.flatten := by
  have run : ∀ (state : State) (bytes : Bytes), state.Holds bytes →
      (state.chunk = [] → state.chunks = 0) →
      (pieces.foldl State.update state).digest = digest (bytes ++ pieces.flatten) := by
    induction pieces with
    | nil =>
        intro state bytes holds filled
        rw [List.flatten_nil, List.append_nil]
        exact holds.digest filled
    | cons piece pieces ih =>
        intro state bytes holds filled
        have next := holds.update piece filled
        rw [List.foldl_cons, List.flatten_cons, ← List.append_assoc]
        exact ih _ _ next.1 next.2
  exact run State.initial [] State.holds_initial fun _ => rfl

end Missive.Blake3
