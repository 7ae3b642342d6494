import Missive.Error

/-!
# Byte streams

A stream is what its reader will see: the pieces that successive reads hand out, and what
happens after the last of them. The pieces may be cut anywhere, so a statement about all streams
is a statement about all read sizes. Nothing but `content` and `ending` matters to a reader that
goes on to the end (`readToEnd`); reading in small buffers is `read`.

Operations on streams are functions from streams to streams, and so a decrypting or limited view
of a stream is a stream again.
-/

namespace Missive

/-- What happens after the last byte of a stream. -/
inductive Ending where
  /-- The end is reported. -/
  | finished
  /-- Every read fails. -/
  | failing (error : StreamError)
  /-- One read fails, and later ones report the end. -/
  | rejected (error : StreamError)
  deriving DecidableEq, Repr

/-- The error met at the end, if any. -/
def Ending.error? : Ending → Option StreamError
  | finished => none
  | failing error | rejected error => some error

/-- A stream of bytes, in the pieces in which it is read. -/
structure ByteStream where
  pieces : List Bytes
  ending : Ending
  deriving DecidableEq, Repr

/-- What copying a stream to an output did. -/
structure Transfer where
  /-- The bytes that reached the output. -/
  output : Bytes
  /-- The number of bytes written, counted piece by piece. -/
  written : Nat
  failure : Option Error
  deriving DecidableEq, Repr

namespace ByteStream

/-- The bytes of a stream, however they are cut. -/
def content (stream : ByteStream) : Bytes :=
  stream.pieces.flatten

/-- A stream that hands out a byte string in one piece and ends. -/
def ofBytes (bytes : Bytes) : ByteStream :=
  ⟨[bytes], .finished⟩

@[simp]
theorem content_ofBytes (bytes : Bytes) : (ofBytes bytes).content = bytes := by
  simp [content, ofBytes]

/-- Cuts a byte string into pieces of `size + 1` bytes, the last of which may be shorter. -/
def piecesOf (size : Nat) (bytes : Bytes) : List Bytes :=
  match rest : bytes.drop (size + 1) with
  | [] => [bytes]
  | next :: later => bytes.take (size + 1) :: piecesOf size (next :: later)
  termination_by bytes.length
  decreasing_by
    have shorter := congrArg List.length rest
    simp only [List.length_drop, List.length_cons] at shorter ⊢
    omega

/-- A stream that hands out at most `readSize` bytes per read, or all at once for zero. -/
def paced (readSize : Nat) (bytes : Bytes) (ending : Ending) : ByteStream :=
  match readSize with
  | 0 => ⟨[bytes], ending⟩
  | size + 1 => ⟨piecesOf size bytes, ending⟩

/-- Puts a piece in front of a list of pieces, unless it is empty. -/
def consPiece (piece : Bytes) (pieces : List Bytes) : List Bytes :=
  if piece.isEmpty then pieces else piece :: pieces

@[simp]
theorem flatten_consPiece (piece : Bytes) (pieces : List Bytes) :
    (consPiece piece pieces).flatten = piece ++ pieces.flatten := by
  cases piece <;> simp [consPiece]

/-- One read into a buffer of `size` bytes: what it gives, and the stream after it. -/
def read (size : Nat) (stream : ByteStream) : Except StreamError Bytes × ByteStream :=
  match stream.pieces.dropWhile List.isEmpty with
  | piece :: pieces =>
    (.ok (piece.take size), ⟨consPiece (piece.drop size) pieces, stream.ending⟩)
  | [] =>
    match stream.ending with
    | .finished => (.ok [], ⟨[], .finished⟩)
    | .failing error => (.error error, ⟨[], .failing error⟩)
    | .rejected error => (.error error, ⟨[], .finished⟩)

/-- Everything up to the end, or the error met there. -/
def readToEnd (stream : ByteStream) : Except StreamError Bytes :=
  match stream.ending.error? with
  | none => .ok stream.content
  | some error => .error error

/-- Copies a stream to an output, up to its end or failure. -/
def copy (stream : ByteStream) : Transfer :=
  ⟨stream.content, stream.pieces.foldl (fun written piece => written + piece.length) 0,
    stream.ending.error?.map StreamError.toError⟩

/-- The first `limit` bytes of a stream. The end is reported once they have been read. -/
def limited (limit : Nat) (stream : ByteStream) : ByteStream :=
  go limit stream.pieces
where
  /-- The first `limit` bytes of the remaining pieces. -/
  go : (limit : Nat) → List Bytes → ByteStream
    | 0, _ => ⟨[], .finished⟩
    | _, [] => ⟨[], stream.ending⟩
    | limit, piece :: pieces =>
      if limit ≤ piece.length then ⟨[piece.take limit], .finished⟩
      else
        let rest := go (limit - piece.length) pieces
        ⟨piece :: rest.pieces, rest.ending⟩

/-- The pieces that remain after the first `count` bytes. -/
def dropPieces : (count : Nat) → List Bytes → List Bytes
  | _, [] => []
  | count, piece :: pieces =>
    if count < piece.length then piece.drop count :: pieces
    else dropPieces (count - piece.length) pieces

/-- The stream after its first `count` bytes. -/
def skip (count : Nat) (stream : ByteStream) : ByteStream :=
  ⟨dropPieces count stream.pieces, stream.ending⟩

/--
Exactly `count` bytes from the front, and the stream after them. A stream that ends before is
reported as a short read, one that fails before by its own error.
-/
def splitExactly (count : Nat) (stream : ByteStream) :
    Except StreamError (Bytes × ByteStream) :=
  let front := (stream.limited count).content
  if front.length < count then
    .error (stream.ending.error?.getD (.input .shortRead))
  else .ok (front, stream.skip count)

/-- A limited stream holds no more than its limit. -/
theorem length_content_limited_go (stream : ByteStream) (limit : Nat) (pieces : List Bytes) :
    (limited.go stream limit pieces).content.length ≤ limit := by
  induction pieces generalizing limit with
  | nil => cases limit <;> simp [limited.go, content]
  | cons piece pieces ih =>
    cases limit with
    | zero => simp [limited.go, content]
    | succ limit =>
      simp only [limited.go]
      split
      · simp only [content, List.flatten_cons, List.flatten_nil, List.append_nil,
          List.length_take]
        omega
      · have rest := ih (limit + 1 - piece.length)
        simp only [content, List.flatten_cons, List.length_append] at rest ⊢
        omega

/-- What was split off has the length asked for. -/
theorem length_of_splitExactly {stream rest : ByteStream} {count : Nat} {front : Bytes}
    (split : stream.splitExactly count = .ok (front, rest)) : front.length = count := by
  have limit := length_content_limited_go stream count stream.pieces
  simp only [splitExactly] at split
  split at split
  · simp at split
  · rename_i enough
    simp only [Except.ok.injEq, Prod.mk.injEq] at split
    rw [← split.1]
    simp only [limited] at enough ⊢
    omega

/-- One stream after another; the first one that fails ends the whole. -/
def concat : List ByteStream → ByteStream
  | [] => ⟨[], .finished⟩
  | stream :: streams =>
    match stream.ending with
    | .finished =>
      let rest := concat streams
      ⟨stream.pieces ++ rest.pieces, rest.ending⟩
    | ending => ⟨stream.pieces, ending⟩

end ByteStream

end Missive
