import Missive.Stream

/-!
# Streams by their content

A stream is known to a patient reader by its content and its ending alone. This file states what
every operation on streams does to the two, so that later proofs need not look at the pieces.

The reader of a stream may also take it buffer by buffer. `drain` is that reader, for any sizes
of its buffers, and `drain_eq` says that the sizes make no difference to what it gets.
-/

namespace Missive

/-- What happens at the end of a stream once the end has been met. -/
def Ending.passed : Ending → Ending
  | rejected _ => finished
  | ending => ending

namespace ByteStream

theorem content_nil (ending : Ending) : (⟨[], ending⟩ : ByteStream).content = [] := rfl

theorem content_cons (piece : Bytes) (pieces : List Bytes) (ending : Ending) :
    (⟨piece :: pieces, ending⟩ : ByteStream).content =
      piece ++ (⟨pieces, ending⟩ : ByteStream).content := by
  simp [content]

@[simp]
theorem ending_ofBytes (bytes : Bytes) : (ofBytes bytes).ending = .finished := rfl

theorem content_consPiece (piece : Bytes) (pieces : List Bytes) (ending : Ending) :
    (⟨consPiece piece pieces, ending⟩ : ByteStream).content = piece ++ pieces.flatten := by
  simp [content]

/-! ### Copying -/

theorem readToEnd_of_finished {stream : ByteStream} (finished : stream.ending = .finished) :
    stream.readToEnd = .ok stream.content := by
  simp [readToEnd, finished, Ending.error?]

theorem foldl_length (pieces : List Bytes) (written : Nat) :
    pieces.foldl (fun written piece => written + piece.length) written =
      written + pieces.flatten.length := by
  induction pieces generalizing written with
  | nil => rfl
  | cons piece pieces ih =>
      rw [List.foldl_cons, ih, List.flatten_cons, List.length_append, Nat.add_assoc]

theorem copy_eq (stream : ByteStream) :
    stream.copy =
      ⟨stream.content, stream.content.length, stream.ending.error?.map StreamError.toError⟩ := by
  rw [copy, foldl_length, Nat.zero_add]
  rfl

theorem copy_of_finished {stream : ByteStream} (finished : stream.ending = .finished) :
    stream.copy = ⟨stream.content, stream.content.length, none⟩ := by
  rw [copy_eq, finished]
  rfl

/-! ### Limits -/

theorem content_limited_go (stream : ByteStream) (limit : Nat) (pieces : List Bytes) :
    (limited.go stream limit pieces).content = pieces.flatten.take limit := by
  induction pieces generalizing limit with
  | nil => cases limit <;> simp [limited.go, content]
  | cons piece pieces ih =>
      cases limit with
      | zero => simp [limited.go, content]
      | succ limit =>
          simp only [limited.go]
          split
          · rename_i enough
            simp [content, List.take_append_of_le_length enough]
          · rename_i short
            rw [content_cons, List.flatten_cons, List.take_append,
              List.take_of_length_le (by omega : piece.length ≤ limit + 1)]
            exact congrArg (piece ++ ·) (ih (limit + 1 - piece.length))

@[simp]
theorem content_limited (limit : Nat) (stream : ByteStream) :
    (stream.limited limit).content = stream.content.take limit :=
  content_limited_go stream limit stream.pieces

theorem ending_limited_go (stream : ByteStream) (limit : Nat) (pieces : List Bytes) :
    (limited.go stream limit pieces).ending =
      if limit ≤ pieces.flatten.length then .finished else stream.ending := by
  induction pieces generalizing limit with
  | nil => cases limit <;> simp [limited.go]
  | cons piece pieces ih =>
      cases limit with
      | zero => simp [limited.go]
      | succ limit =>
          simp only [limited.go, List.flatten_cons, List.length_append]
          split
          · rename_i enough
            rw [if_pos (by omega)]
          · rename_i short
            rw [ih]
            congr 1
            apply propext
            omega

theorem ending_limited (limit : Nat) (stream : ByteStream) :
    (stream.limited limit).ending =
      if limit ≤ stream.content.length then .finished else stream.ending :=
  ending_limited_go stream limit stream.pieces

theorem ending_limited_of_finished {stream : ByteStream} (limit : Nat)
    (finished : stream.ending = .finished) : (stream.limited limit).ending = .finished := by
  rw [ending_limited, finished, ite_self]

/-! ### Positions -/

theorem flatten_dropPieces (count : Nat) (pieces : List Bytes) :
    (dropPieces count pieces).flatten = pieces.flatten.drop count := by
  induction pieces generalizing count with
  | nil => simp [dropPieces]
  | cons piece pieces ih =>
      simp only [dropPieces, List.flatten_cons, List.drop_append]
      split
      · rename_i inside
        simp [Nat.sub_eq_zero_of_le (Nat.le_of_lt inside)]
      · rename_i beyond
        have past : piece.drop count = [] := List.drop_eq_nil_of_le (by omega)
        rw [ih, past, List.nil_append]

@[simp]
theorem content_skip (count : Nat) (stream : ByteStream) :
    (stream.skip count).content = stream.content.drop count :=
  flatten_dropPieces count stream.pieces

@[simp]
theorem ending_skip (count : Nat) (stream : ByteStream) :
    (stream.skip count).ending = stream.ending := rfl

theorem splitExactly_of_le {stream : ByteStream} {count : Nat}
    (enough : count ≤ stream.content.length) :
    stream.splitExactly count = .ok (stream.content.take count, stream.skip count) := by
  have long : ¬(stream.limited count).content.length < count := by
    rw [content_limited, List.length_take]
    omega
  rw [splitExactly, if_neg long, content_limited]

theorem splitExactly_of_lt {stream : ByteStream} {count : Nat}
    (short : stream.content.length < count) :
    stream.splitExactly count = .error (stream.ending.error?.getD (.input .shortRead)) := by
  have few : (stream.limited count).content.length < count := by
    rw [content_limited, List.length_take]
    omega
  rw [splitExactly, if_pos few]

/-! ### Concatenation -/

/-- Streams that end are passed, and what follows them is read. -/
theorem concat_append {front : List ByteStream}
    (finished : ∀ stream ∈ front, stream.ending = .finished) (back : List ByteStream) :
    (concat (front ++ back)).content =
        (front.map content).flatten ++ (concat back).content ∧
      (concat (front ++ back)).ending = (concat back).ending := by
  induction front with
  | nil => exact ⟨rfl, rfl⟩
  | cons stream front ih =>
      have first : stream.ending = .finished := finished stream List.mem_cons_self
      have rest := ih fun other member => finished other (List.mem_cons_of_mem stream member)
      simp only [List.cons_append, concat, first]
      refine ⟨?_, rest.2⟩
      have split : (⟨stream.pieces ++ (concat (front ++ back)).pieces,
          (concat (front ++ back)).ending⟩ : ByteStream).content =
            stream.content ++ (concat (front ++ back)).content := by
        simp [content]
      rw [split, rest.1, List.map_cons, List.flatten_cons, List.append_assoc]

theorem concat_of_finished {streams : List ByteStream}
    (finished : ∀ stream ∈ streams, stream.ending = .finished) :
    (concat streams).content = (streams.map content).flatten ∧
      (concat streams).ending = .finished := by
  have whole := concat_append finished []
  rw [List.append_nil] at whole
  exact ⟨whole.1.trans (List.append_nil _), whole.2⟩

/-- Nothing is read after a stream that fails. -/
theorem concat_of_failure {stream : ByteStream} {error : StreamError}
    (failed : stream.ending.error? = some error) (streams : List ByteStream) :
    concat (stream :: streams) = stream := by
  cases stream with
  | mk pieces ending =>
      cases ending with
      | finished => cases failed
      | failing error => rfl
      | rejected error => rfl

/-! ### Reading buffer by buffer -/

theorem flatten_dropWhile_isEmpty (pieces : List Bytes) :
    (pieces.dropWhile List.isEmpty).flatten = pieces.flatten := by
  induction pieces with
  | nil => rfl
  | cons piece pieces ih =>
      cases piece with
      | nil => simpa using ih
      | cons byte rest => simp

theorem ne_nil_of_dropWhile_isEmpty {pieces later : List Bytes} {piece : Bytes}
    (shape : pieces.dropWhile List.isEmpty = piece :: later) : piece ≠ [] := by
  have head := List.head?_dropWhile_not List.isEmpty pieces
  simpa [shape] using head

theorem read_of_content_ne_nil {size : Nat} {stream : ByteStream}
    (present : stream.content ≠ []) (room : 0 < size) :
    ∃ front rest, stream.read size = (.ok front, rest) ∧ front ≠ [] ∧
      front ++ rest.content = stream.content ∧ rest.ending = stream.ending := by
  have same : (stream.pieces.dropWhile List.isEmpty).flatten = stream.content :=
    flatten_dropWhile_isEmpty stream.pieces
  cases shape : stream.pieces.dropWhile List.isEmpty with
  | nil =>
      rw [shape] at same
      exact absurd same.symm present
  | cons piece pieces =>
      have filled : piece ≠ [] := ne_nil_of_dropWhile_isEmpty shape
      refine ⟨piece.take size, ⟨consPiece (piece.drop size) pieces, stream.ending⟩, ?_, ?_, ?_, rfl⟩
      · simp [read, shape]
      · intro none
        rcases List.take_eq_nil_iff.mp none with zero | empty
        · omega
        · exact filled empty
      · rw [content_consPiece, ← List.append_assoc, List.take_append_drop, ← same, shape,
          List.flatten_cons]

theorem read_of_content_eq_nil {size : Nat} {stream : ByteStream} (empty : stream.content = []) :
    stream.read size =
      ((match stream.ending.error? with
        | none => .ok []
        | some error => .error error), ⟨[], stream.ending.passed⟩) := by
  have nothing : stream.pieces.dropWhile List.isEmpty = [] := by
    have same := flatten_dropWhile_isEmpty stream.pieces
    cases shape : stream.pieces.dropWhile List.isEmpty with
    | nil => rfl
    | cons piece pieces =>
        rw [shape, List.flatten_cons] at same
        have blank : piece = [] := (List.append_eq_nil_iff.mp (same.trans empty)).1
        exact absurd blank (ne_nil_of_dropWhile_isEmpty shape)
  simp only [read, nothing]
  cases stream.ending <;> rfl

/-- What a reader got who read a stream to its end, in buffers of some sizes. -/
structure Drained where
  output : Bytes
  failure : Option StreamError
  /-- What further reads would give. -/
  rest : ByteStream

/--
Reads into buffers of the sizes `sizes 0`, `sizes 1` and so on, until a read gives nothing or
fails.
-/
def drain (sizes : Nat → Nat) (stream : ByteStream) : Drained :=
  match _shape : stream.read (sizes 0) with
  | (.error error, rest) => ⟨[], some error, rest⟩
  | (.ok [], rest) => ⟨[], none, rest⟩
  | (.ok (byte :: bytes), rest) =>
    if _shorter : rest.content.length < stream.content.length then
      let later := drain (fun index => sizes (index + 1)) rest
      ⟨byte :: bytes ++ later.output, later.failure, later.rest⟩
    else ⟨byte :: bytes, none, rest⟩
  termination_by stream.content.length

/-- The sizes of the buffers make no difference, as long as there is room in each. -/
theorem drain_eq {sizes : Nat → Nat} (room : ∀ index, 0 < sizes index) (stream : ByteStream) :
    stream.drain sizes =
      ⟨stream.content, stream.ending.error?, ⟨[], stream.ending.passed⟩⟩ := by
  induction size : stream.content.length using Nat.strongRecOn generalizing stream sizes with
  | ind length ih =>
      by_cases empty : stream.content = []
      · rw [drain, read_of_content_eq_nil empty, empty]
        cases stream.ending <;> rfl
      · rcases read_of_content_ne_nil empty (room 0)
            with ⟨front, rest, given, filled, parts, ending⟩
        cases front with
        | nil => exact absurd rfl filled
        | cons byte bytes =>
            have shorter : rest.content.length < stream.content.length := by
              rw [← parts, List.length_append, List.length_cons]
              omega
            have later := ih rest.content.length (size ▸ shorter)
              (fun index => room (index + 1)) rest rfl
            rw [drain, given]
            simp only [dif_pos shorter, later, parts, ending]

end ByteStream

end Missive
