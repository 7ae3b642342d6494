import Missive.Proofs.Cipher.Positions

/-!
# Handing out released text

A decrypting reader keeps the text that it has released last in a buffer, and a position in it:
what stands before has been handed out. A read takes as much as is left there and as the reader
has room for, and goes on to the next text only once everything has been handed out.

The position never outgrows the buffer, so what is left is never less than nothing
(`Buffer.reads_of_fits`), and whatever rooms a reader offers one after the other, it is given the
bytes of the stream in their order (`Buffer.reads?_eq`).
-/

namespace Missive

/-- The results of one read after the other, into buffers with some room. -/
def ByteStream.reads : (rooms : List Nat) → ByteStream → List (Except StreamError Bytes)
  | [], _ => []
  | room :: rooms, stream => (stream.read room).1 :: reads rooms (stream.read room).2

namespace Chaining

/-- The text that has been released last, the way through it, and what is released after it. -/
structure Buffer where
  text : Bytes
  position : UInt64
  later : List Bytes
  ending : Ending

namespace Buffer

/-- Before the first text of a stream. -/
def ofStream (stream : ByteStream) : Buffer :=
  ⟨[], 0, stream.pieces, stream.ending⟩

/-- What is still to be handed out. -/
def remaining (buffer : Buffer) : ByteStream :=
  ⟨ByteStream.consPiece (buffer.text.drop buffer.position.toNat) buffer.later, buffer.ending⟩

/-- A read after the last text. -/
def atEnd (ending : Ending) : Except StreamError Bytes :=
  match ending.error? with
  | none => .ok []
  | some error => .error error

/-- One read at a position in a text, with the texts after it. -/
def readAt? (room : UInt64) (ending : Ending) :
    (text : Bytes) → (position : UInt64) → (later : List Bytes) →
      Option (Except StreamError Bytes × Buffer)
  | text, position, later => do
    let size ← Position.ofNat? text.length
    if position = size then
      match later with
      | next :: later => readAt? room ending next 0 later
      | [] => some (atEnd ending, ⟨text, position, [], ending.passed⟩)
    else do
      let left ← Position.sub? size position
      let stop ← Position.add? position (min left room)
      let piece ← text.between? position stop
      return (.ok piece, ⟨text, stop, later, ending⟩)

/-- One read into a buffer that has some room. -/
def read? (buffer : Buffer) (room : UInt64) : Option (Except StreamError Bytes × Buffer) :=
  readAt? room buffer.ending buffer.text buffer.position buffer.later

/-- One read after the other. -/
def reads? : (rooms : List UInt64) → Buffer → Option (List (Except StreamError Bytes))
  | [], _ => some []
  | room :: rooms, buffer => do
    let (result, buffer) ← buffer.read? room
    let results ← reads? rooms buffer
    return result :: results

/-- The position lies in the text or at its end, and every text has a length that is a word. -/
structure Fits (buffer : Buffer) : Prop where
  inside : buffer.position.toNat ≤ buffer.text.length
  room : buffer.text.length + buffer.later.flatten.length < UInt64.size

variable {buffer : Buffer} {stream : ByteStream} {ending : Ending}

theorem remaining_ofStream (stream : ByteStream) : (ofStream stream).remaining = stream := rfl

theorem fits_ofStream (short : stream.content.length < UInt64.size) :
    (ofStream stream).Fits := by
  refine ⟨Nat.le_refl _, ?_⟩
  simp only [ofStream, List.length_nil, Nat.zero_add]
  exact short

/-- It makes no difference to a read whether there is an empty piece. -/
theorem read_consPiece (size : Nat) (piece : Bytes) (pieces : List Bytes) :
    ByteStream.read size ⟨ByteStream.consPiece piece pieces, ending⟩ =
      ByteStream.read size ⟨piece :: pieces, ending⟩ := by
  cases piece with
  | nil => rfl
  | cons byte piece => rfl

variable {text : Bytes} {position : UInt64} {later : List Bytes}

/-- What remains is read from the position on, and remains from the next position on. -/
theorem read_remaining_of_lt (room : Nat) {stop : UInt64} (before : position.toNat < text.length)
    (next : stop.toNat = position.toNat + min (text.length - position.toNat) room) :
    (remaining ⟨text, position, later, ending⟩).read room =
      (.ok ((text.drop position.toNat).take room), remaining ⟨text, stop, later, ending⟩) := by
  have present : text.drop position.toNat ≠ [] := by
    simpa [List.drop_eq_nil_iff] using before
  have rest : text.drop (position.toNat + room) = text.drop stop.toNat := by
    rcases Nat.le_total (text.length - position.toNat) room with all | some
    · rw [List.drop_eq_nil_of_le (by omega), List.drop_eq_nil_of_le (by omega)]
    · rw [next, Nat.min_eq_right some]
  simp only [remaining, consPiece_of_ne_nil present, ByteStream.read]
  simp [present, rest]

/-- A read with exact positions, which gives what a read of all that remains gives. -/
def Reads (room : UInt64) (text : Bytes) (position : UInt64) (later : List Bytes)
    (ending : Ending) : Prop :=
  ∃ result buffer, readAt? room ending text position later = some (result, buffer) ∧
    buffer.Fits ∧
    (remaining ⟨text, position, later, ending⟩).read room.toNat = (result, buffer.remaining)

/-- Before the end of the text, a read is given what stands there. -/
theorem reads_of_lt (room : UInt64) (before : position.toNat < text.length)
    (short : text.length + later.flatten.length < UInt64.size) :
    Reads room text position later ending := by
  obtain ⟨size, counted, length⟩ := @Position.exists_ofNat? text.length (by omega)
  have ahead : position ≠ size := by
    rintro rfl
    omega
  obtain ⟨left, subtracted, difference⟩ := @Position.exists_sub? size position (by omega)
  have taken : (min left room).toNat = min (text.length - position.toNat) room.toNat := by
    rw [Position.toNat_min, difference, length]
  obtain ⟨stop, added, sum⟩ := @Position.exists_add? position (min left room) (by omega)
  rw [taken] at sum
  have piece : text.between? position stop =
      some ((text.drop position.toNat).take room.toNat) := by
    rw [Bytes.between?, if_pos (by omega), sum, Nat.add_sub_cancel_left, Bytes.slice,
      ← List.length_drop, Nat.min_comm, List.take_eq_take_min.symm]
  refine ⟨_, ⟨text, stop, later, ending⟩, ?_, ⟨by dsimp only; omega, short⟩,
    read_remaining_of_lt _ before sum⟩
  unfold readAt?
  simp only [counted, if_neg ahead, subtracted, added, piece, Option.bind_eq_bind,
    Option.bind_some, Option.pure_def]

/-- The position is exact wherever it is, and what is read does not depend on it. -/
theorem reads_of_fits (room : UInt64) (fits : Fits ⟨text, position, later, ending⟩) :
    Reads room text position later ending := by
  induction later generalizing text position with
  | nil =>
      rcases fits with ⟨inside, short⟩
      rcases Nat.lt_or_eq_of_le inside with before | passed
      · exact reads_of_lt room before short
      · dsimp only at passed short
        obtain ⟨size, counted, length⟩ := @Position.exists_ofNat? text.length (by omega)
        have ended : position = size := UInt64.toNat_inj.mp (by omega)
        have empty : (remaining ⟨text, position, [], ending⟩).content = [] := by
          simp [remaining, passed, ByteStream.content]
        have nothing : remaining ⟨text, position, [], ending.passed⟩ = ⟨[], ending.passed⟩ := by
          simp [remaining, passed, ByteStream.consPiece]
        refine ⟨atEnd ending, ⟨text, position, [], ending.passed⟩, ?_, ⟨inside, short⟩, ?_⟩
        · rw [readAt?, counted]
          simp only [Option.bind_eq_bind, Option.bind_some, if_pos ended]
        · rw [ByteStream.read_of_content_eq_nil empty, nothing]
          rfl
  | cons next later ih =>
      rcases fits with ⟨inside, short⟩
      rcases Nat.lt_or_eq_of_le inside with before | passed
      · exact reads_of_lt room before short
      · dsimp only at passed short
        obtain ⟨size, counted, length⟩ := @Position.exists_ofNat? text.length (by omega)
        have ended : position = size := UInt64.toNat_inj.mp (by omega)
        rw [List.flatten_cons, List.length_append] at short
        obtain ⟨result, buffer, given, fits, same⟩ := @ih next 0 ⟨by simp, by dsimp only; omega⟩
        refine ⟨result, buffer, ?_, fits, ?_⟩
        · rw [readAt?, counted]
          simp only [Option.bind_eq_bind, Option.bind_some, if_pos ended, given]
        · rw [← same, remaining, passed, List.drop_length]
          exact (read_consPiece _ next later).symm

/-- Whatever rooms are offered one after the other, the results are those of the stream. -/
theorem reads?_eq (rooms : List UInt64) (fits : buffer.Fits) :
    buffer.reads? rooms = some (buffer.remaining.reads (rooms.map UInt64.toNat)) := by
  induction rooms generalizing buffer with
  | nil => rfl
  | cons room rooms ih =>
      obtain ⟨result, next, given, fits, same⟩ := reads_of_fits room fits
      have rest := ih fits
      have first : buffer.remaining.read room.toNat = (result, next.remaining) := same
      simp only [reads?, read?, given, rest, Option.bind_eq_bind, Option.bind_some,
        Option.pure_def, List.map_cons, ByteStream.reads, first]

end Buffer

/-! ### What is opened is no longer than its ciphertext -/

variable {cipher : BlockCipher} {ending : Ending}

theorem length_finish_le {error : Error} {held : Option Block} {pending text : Bytes}
    (released : finish ⟨false, some error⟩ held pending = .ok text) :
    text.length ≤ Block.size * held.toList.length := by
  by_cases whole : pending = []
  · cases held with
    | none => simp [finish, whole] at released
    | some block =>
        cases unpadded : unpad? block with
        | none => simp [finish, whole, unpadded] at released
        | some bytes =>
            have few := length_unpad? unpadded
            simp [finish, whole, unpadded] at released
            rw [← released, Option.toList_some, List.length_singleton, Nat.mul_one]
            exact Nat.le_of_lt few
  · simp [finish, whole] at released

/-- No more is released than has been taken in. -/
theorem length_decryptPieces_le (error : Error) (chain : Block) (held : Option Block)
    (pending : Bytes) (pieces : List Bytes) :
    (decryptPieces cipher ⟨false, some error⟩ ending chain held pending pieces).content.length ≤
      Block.size * held.toList.length + pending.length + pieces.flatten.length := by
  induction pieces generalizing chain held pending with
  | nil =>
      cases ending with
      | finished =>
          simp only [decryptPieces]
          cases released : finish ⟨false, some error⟩ held pending with
          | ok text =>
              have few := length_finish_le released
              simp [ByteStream.content]
              omega
          | error refused => simp [ByteStream.content]
      | failing error => simp [decryptPieces, ByteStream.content]
      | rejected error => simp [decryptPieces, ByteStream.content]
  | cons piece pieces ih =>
      simp only [decryptPieces]
      generalize shape : held.toList ++
        decryptBlocks cipher chain (Block.split (pending ++ piece)) = decrypted
      have rest := ih ((Block.split (pending ++ piece)).getLastD chain) decrypted.getLast?
        (Block.remainder (pending ++ piece))
      have front := Progress.length_held decrypted
      have number := congrArg List.length shape
      rw [List.length_append, length_decryptBlocks, Block.length_split] at number
      rw [Block.length_remainder] at rest
      rw [ByteStream.content_consPiece, List.length_append, List.flatten_cons, List.length_append]
      change _ + (decryptPieces cipher _ ending _ _ _ pieces).content.length ≤ _
      have whole := Nat.div_add_mod (pending ++ piece).length Block.size
      rw [List.length_append] at whole rest number
      rw [← number, Nat.mul_add] at front
      omega

theorem length_skipWithin_le (offset : UInt64) (base skipped : Nat) (stream : ByteStream) :
    (skipWithin offset base skipped stream).content.length ≤ stream.content.length := by
  rw [skipWithin]
  split
  · exact Nat.zero_le _
  · rw [ByteStream.content_skip, List.length_drop]
    exact Nat.sub_le _ _

theorem eq_of_primed {stream part : ByteStream} (opened : primed stream = .ok part) :
    part = stream := by
  rw [primed] at opened
  split at opened
  · cases opened
  · cases opened
    rfl

/-- What is opened at an offset is no longer than the ciphertext. -/
theorem length_openAt_le {start : Block} {offset : UInt64} {stream part : ByteStream}
    (opened : openAt cipher start offset stream = .ok part) :
    part.content.length ≤ stream.content.length := by
  have view : ∀ (chain : Block) (error : Error) (base skipped : Nat) (rest : ByteStream),
      (skipWithin offset base skipped
        (decryptView cipher chain ⟨false, some error⟩ rest)).content.length ≤
        rest.content.length := by
    intro chain error base skipped rest
    apply Nat.le_trans (length_skipWithin_le _ _ _ _)
    have few := @length_decryptPieces_le cipher rest.ending error chain none [] rest.pieces
    simp only [Option.toList_none, List.length_nil, Nat.mul_zero, Nat.zero_add] at few
    exact few
  by_cases zero : offset.toNat / Block.size = 0
  · simp only [openAt, if_pos zero, bind, Except.bind, pure, Except.pure] at opened
    split at opened
    · cases opened
      exact view _ _ _ _ _
    · rw [eq_of_primed opened]
      exact view _ _ _ _ _
  · cases cut : stream.splitExactly Block.size with
    | error error =>
        rw [openAt_of_splitExactly_error zero cut] at opened
        cases opened
    | ok found =>
        rcases found with ⟨chain, rest⟩
        have shorter := length_of_splitExactly_rest cut
        rw [← Block.toBytes_ofBytes _ (stream.length_of_splitExactly cut)] at cut
        rw [openAt_of_splitExactly cipher zero cut] at opened
        rw [eq_of_primed opened]
        exact Nat.le_trans (view _ _ _ _ _) shorter

end Chaining

theorem Cipher.length_openAt_le {cipher : Cipher} {key : Bytes} {offset : UInt64}
    {stream part : ByteStream} (opened : cipher.openAt key offset stream = .ok part) :
    part.content.length ≤ stream.content.length := by
  cases cipher with
  | none =>
      cases opened
      exact Nat.le_refl _
  | counter =>
      rcases bind_eq_ok_iff.mp opened with ⟨data, _, result⟩
      cases result
      exact Nat.le_of_eq (by rw [Counter.content_view, Counter.length_mask])
  | chaining =>
      rcases bind_eq_ok_iff.mp opened with ⟨data, _, result⟩
      exact Chaining.length_openAt_le result

/-- Reads of what has been opened at an offset are exact, whatever rooms they offer. -/
theorem Cipher.reads?_of_openAt {cipher : Cipher} {key : Bytes} {offset : UInt64}
    {stream part : ByteStream} (opened : cipher.openAt key offset stream = .ok part)
    (short : stream.content.length < UInt64.size) (rooms : List UInt64) :
    (Chaining.Buffer.ofStream part).reads? rooms =
      some (part.reads (rooms.map UInt64.toNat)) := by
  have fits := Chaining.Buffer.fits_ofStream
    (Nat.lt_of_le_of_lt (Cipher.length_openAt_le opened) short)
  have same := Chaining.Buffer.reads?_eq rooms fits
  rw [Chaining.Buffer.remaining_ofStream] at same
  exact same

end Missive
