import Missive.Bytes.Basic

/-!
# BLAKE3

The hash is the root of a binary tree. Its leaves are chunks of 1024 bytes, the last of which may
be shorter, and the left subtree of every inner node is the largest complete one that leaves
something for the right. `digest` follows that definition. `State` takes the input bit by bit:
it keeps the chunk that is being filled and, for the complete chunks before it, one chaining
value for every subtree that is already complete.
-/

namespace Missive.Blake3

/-- A word vector that stands for a subtree. -/
abbrev ChainingValue := Vector UInt32 8

/-- The sixteen words of a block or of the internal state. -/
abbrev Words := Vector UInt32 16

/-- The bytes of one chunk. -/
def chunkLength : Nat := 1024

/-- The bytes of one block. -/
def blockLength : Nat := 64

/-- The initial chaining value. -/
def initialValue : ChainingValue :=
  #v[0x6A09E667, 0xBB67AE85, 0x3C6EF372, 0xA54FF53A, 0x510E527F, 0x9B05688C, 0x1F83D9AB,
    0x5BE0CD19]

/-- Marks the first block of a chunk. -/
def chunkStart : UInt32 := 1

/-- Marks the last block of a chunk. -/
def chunkEnd : UInt32 := 2

/-- Marks an inner node. -/
def parent : UInt32 := 4

/-- Marks the root of the tree. -/
def root : UInt32 := 8

/-- Rotates a word to the right. -/
def rotateRight (word amount : UInt32) : UInt32 :=
  (word >>> amount) ||| (word <<< (32 - amount))

/-- The quarter round on the words `a`, `b`, `c` and `d` with two message words. -/
def mix (a b c d : Fin 16) (first second : UInt32) (state : Words) : Words :=
  let state := state.set a (state[a] + state[b] + first)
  let state := state.set d (rotateRight (state[d] ^^^ state[a]) 16)
  let state := state.set c (state[c] + state[d])
  let state := state.set b (rotateRight (state[b] ^^^ state[c]) 12)
  let state := state.set a (state[a] + state[b] + second)
  let state := state.set d (rotateRight (state[d] ^^^ state[a]) 8)
  let state := state.set c (state[c] + state[d])
  state.set b (rotateRight (state[b] ^^^ state[c]) 7)

/-- One round: the four columns, then the four diagonals. -/
def mixRound (state message : Words) : Words :=
  state
    |> mix 0 4 8 12 message[0] message[1]
    |> mix 1 5 9 13 message[2] message[3]
    |> mix 2 6 10 14 message[4] message[5]
    |> mix 3 7 11 15 message[6] message[7]
    |> mix 0 5 10 15 message[8] message[9]
    |> mix 1 6 11 12 message[10] message[11]
    |> mix 2 7 8 13 message[12] message[13]
    |> mix 3 4 9 14 message[14] message[15]

/-- The order in which the message words stand in the next round. -/
def permute (message : Words) : Words :=
  #v[message[2], message[6], message[3], message[10], message[7], message[0], message[4],
    message[13], message[1], message[11], message[12], message[5], message[9], message[14],
    message[15], message[8]]

/-- So many rounds, the message permuted between any two. -/
def mixRounds : (count : Nat) → (state message : Words) → Words
  | 0, state, _ => state
  | 1, state, message => mixRound state message
  | count + 1, state, message => mixRounds count (mixRound state message) (permute message)

/-- A node of the tree before it is compressed. -/
structure Node where
  input : ChainingValue
  block : Words
  counter : Nat
  length : Nat
  flags : UInt32

/-- The chaining value of a node. -/
def Node.compress (node : Node) : ChainingValue :=
  let state : Words := mixRounds 7
    #v[node.input[0], node.input[1], node.input[2], node.input[3], node.input[4],
      node.input[5], node.input[6], node.input[7], 0x6A09E667, 0xBB67AE85, 0x3C6EF372,
      0xA54FF53A, UInt32.ofNat node.counter, UInt32.ofNat (node.counter / UInt32.size),
      UInt32.ofNat node.length, node.flags]
    node.block
  #v[state[0] ^^^ state[8], state[1] ^^^ state[9], state[2] ^^^ state[10],
    state[3] ^^^ state[11], state[4] ^^^ state[12], state[5] ^^^ state[13],
    state[6] ^^^ state[14], state[7] ^^^ state[15]]

/-- The little-endian words of a block, filled up with zeros. -/
def words (block : Bytes) : Words :=
  Vector.ofFn fun index =>
    UInt32.ofNat (Bytes.ofLittleEndian (block.slice (4 * index.val) 4))

/-- The last block of a chunk as a node, after the blocks before it have been compressed. -/
def chunkFrom (counter : Nat) (input : ChainingValue) (flags : UInt32) (bytes : Bytes) : Node :=
  match _rest : bytes.drop blockLength with
  | [] => ⟨input, words bytes, counter, bytes.length, flags ||| chunkEnd⟩
  | next :: later =>
    let node : Node :=
      ⟨input, words (bytes.take blockLength), counter, blockLength, flags⟩
    chunkFrom counter node.compress 0 (next :: later)
  termination_by bytes.length
  decreasing_by
    have shorter := congrArg List.length _rest
    simp only [List.length_drop, List.length_cons, blockLength] at shorter ⊢
    omega

/-- The node of chunk number `counter`. -/
def chunkNode (counter : Nat) (bytes : Bytes) : Node :=
  chunkFrom counter initialValue chunkStart bytes

/-- The node above two subtrees. -/
def parentNode (left right : ChainingValue) : Node :=
  ⟨initialValue, (left ++ right).cast (by decide), 0, blockLength, parent⟩

/-- The digest of the tree below a root node. -/
def Node.digest (node : Node) : Bytes :=
  let top : Node := ⟨node.input, node.block, 0, node.length, node.flags ||| root⟩
  top.compress.toList.flatMap fun word => Bytes.littleEndian 4 word.toNat

/-- The bytes in the left subtree of a tree over more than one chunk. -/
def leftLength (length : Nat) : Nat :=
  chunkLength <<< ((length - 1) / chunkLength).log2

/-- The left subtree takes some of the bytes and leaves some. -/
theorem leftLength_bounds {length : Nat} (several : chunkLength < length) :
    0 < leftLength length ∧ leftLength length < length := by
  have chunks : (length - 1) / chunkLength ≠ 0 := by
    simp only [chunkLength] at several ⊢
    omega
  have power := Nat.log2_self_le chunks
  have positive := Nat.two_pow_pos ((length - 1) / chunkLength).log2
  simp only [leftLength, Nat.shiftLeft_eq, chunkLength] at *
  omega

/-- The tree over `bytes`, whose first chunk has number `counter`. -/
def tree (counter : Nat) (bytes : Bytes) : Node :=
  if _several : chunkLength < bytes.length then
    let left := leftLength bytes.length
    parentNode (tree counter (bytes.take left)).compress
      (tree (counter + left / chunkLength) (bytes.drop left)).compress
  else chunkNode counter bytes
  termination_by bytes.length
  decreasing_by
  · have bounds := leftLength_bounds _several
    simp only [List.length_take]
    omega
  · have bounds := leftLength_bounds _several
    simp only [List.length_drop]
    omega

/-- The digest of a whole byte string. -/
def digest (bytes : Bytes) : Bytes :=
  (tree 0 bytes).digest

/-- What is kept between two pieces of input. -/
structure State where
  /-- The complete subtrees, the latest first. -/
  subtrees : List ChainingValue
  /-- The number of complete chunks, all of them in `subtrees`. -/
  chunks : Nat
  /-- The chunk that is being filled. -/
  chunk : Bytes

/-- The state before the first byte. -/
def State.initial : State := ⟨[], 0, []⟩

/--
Adds the chaining value of a complete subtree. As long as the number of subtrees of its size is
even, it joins with the one before it.
-/
def addSubtree : (subtrees : List ChainingValue) → ChainingValue → (count : Nat) →
    List ChainingValue
  | [], value, _ => [value]
  | left :: earlier, value, count =>
    if count % 2 = 0 then addSubtree earlier (parentNode left value).compress (count / 2)
    else value :: left :: earlier

/-- Closes a full chunk, so that there is room for another byte. -/
def State.closeChunk (state : State) : State :=
  if state.chunk.length < chunkLength then state
  else
    let value := (chunkNode state.chunks state.chunk).compress
    ⟨addSubtree state.subtrees value (state.chunks + 1), state.chunks + 1, []⟩

/-- A state with room has a chunk that is not full. -/
theorem State.length_closeChunk (state : State) :
    state.closeChunk.chunk.length < chunkLength := by
  unfold closeChunk
  split
  · assumption
  · simp [chunkLength]

/-- Takes a byte string into the state. -/
def State.update (state : State) : (bytes : Bytes) → State
  | [] => state
  | byte :: rest =>
    let roomy := state.closeChunk
    let room := chunkLength - roomy.chunk.length
    State.update ⟨roomy.subtrees, roomy.chunks, roomy.chunk ++ (byte :: rest).take room⟩
      ((byte :: rest).drop room)
  termination_by bytes => bytes.length
  decreasing_by
    have room := state.length_closeChunk
    simp only [List.length_drop, List.length_cons]
    omega

/-- The digest of everything taken in so far. -/
def State.digest (state : State) : Bytes :=
  (state.subtrees.foldl (fun node left => parentNode left node.compress)
    (chunkNode state.chunks state.chunk)).digest

end Missive.Blake3
