import Missive.Proofs.Checksum.Pieces
import Missive.Proofs.Checksum.Standard

/-!
# Checksums that are taken piece by piece

Bytes are written in any pieces, single ones among them, and the checksum is read at any points in
between. A state is one that some pieces have led to (`Checksum.Taken`), and this is kept by every
use, so a reading gives the checksum of all bytes that were written before it, whatever their pieces
were and whether it has been read before (`Checksum.readings_eq_compute`).
-/

namespace Missive.Checksum

/-- What is done with a checksum while it is being taken. -/
inductive Use where
  | write (bytes : Bytes)
  | push (byte : UInt8)
  | read
  deriving DecidableEq, Repr

/-- The bytes that a use adds. -/
def Use.added : Use → Bytes
  | write bytes => bytes
  | push byte => [byte]
  | read => []

/-- The bytes that are written in the course of some uses. -/
def written (uses : List Use) : Bytes :=
  uses.flatMap Use.added

namespace State

/-- The state that a use leaves behind. -/
def after (state : State) : Use → State
  | .write bytes => state.update bytes
  | .push byte => state.push byte
  | .read => state

/-- What a use gives. -/
def given (state : State) : Use → List Bytes
  | .read => [state.value]
  | .write _ | .push _ => []

/-- The values that are read in the course of some uses. -/
def readings (state : State) : List Use → List Bytes
  | [] => []
  | use :: uses => state.given use ++ (state.after use).readings uses

theorem readings_append (state : State) (front back : List Use) :
    state.readings (front ++ back) =
      state.readings front ++ (front.foldl after state).readings back := by
  induction front generalizing state with
  | nil => rfl
  | cons use front ih => simp [readings, ih]

theorem length_readings (state : State) (uses : List Use) :
    (state.readings uses).length = uses.count .read := by
  induction uses generalizing state with
  | nil => rfl
  | cons use uses ih => cases use <;> simp [readings, given, ih]

end State

variable {checksum : Checksum} {state : State} {bytes : Bytes}

/-- A state that has taken in a byte string, in whatever pieces. -/
def Taken (checksum : Checksum) (bytes : Bytes) (state : State) : Prop :=
  ∃ pieces : List Bytes, pieces.flatten = bytes ∧ state = pieces.foldl State.update checksum.start

theorem taken_start (checksum : Checksum) : Taken checksum [] checksum.start :=
  ⟨[], rfl, rfl⟩

theorem Taken.update (taken : Taken checksum bytes state) (piece : Bytes) :
    Taken checksum (bytes ++ piece) (state.update piece) := by
  rcases taken with ⟨pieces, rfl, rfl⟩
  exact ⟨pieces ++ [piece], by simp, by simp⟩

theorem Taken.after (taken : Taken checksum bytes state) (use : Use) :
    Taken checksum (bytes ++ use.added) (state.after use) := by
  cases use with
  | write piece => exact taken.update piece
  | push byte => exact taken.update [byte]
  | read => simpa [Use.added, State.after] using taken

theorem Taken.foldl_after (taken : Taken checksum bytes state) (uses : List Use) :
    Taken checksum (bytes ++ written uses) (uses.foldl State.after state) := by
  induction uses generalizing bytes state with
  | nil => simpa [written] using taken
  | cons use uses ih => simpa [written] using ih (taken.after use)

/-- What a state has taken in is all that its value depends on. -/
theorem Taken.value (taken : Taken checksum bytes state) :
    state.value = checksum.compute bytes := by
  rcases taken with ⟨pieces, rfl, rfl⟩
  exact value_observe checksum ⟨pieces, .finished⟩

theorem ofStream_eq (checksum : Checksum) (stream : ByteStream) :
    checksum.ofStream stream = stream.ending.error?.elim
      (.ok (checksum.compute stream.content)) fun error => .error error.toError := by
  cases ended : stream.ending.error? <;> simp [ofStream, value_observe, ended]

theorem length_compute (checksum : Checksum) (bytes : Bytes) :
    (checksum.compute bytes).length = width := by
  cases checksum with
  | crc32 => simp [compute]
  | adler32 => simp [compute]
  | blake3 => simp [compute, Blake3.digest, Blake3.Node.digest, width]

/--
Whatever is written and read, every reading gives the checksum of the bytes written before it, and
the readings on either side are the same without it. The checksum of a stream is the one of its
content, unless the stream fails. All these values are the ones of the standards, four bytes each.
-/
theorem readings_eq_compute (checksum : Checksum) :
    (∀ front back : List Use, ∃ earlier later : List Bytes,
      earlier.length = front.count .read ∧ later.length = back.count .read ∧
      checksum.start.readings (front ++ back) = earlier ++ later ∧
      checksum.start.readings (front ++ .read :: back) =
        earlier ++ checksum.compute (written front) :: later) ∧
    (∀ stream : ByteStream, checksum.ofStream stream = stream.ending.error?.elim
      (.ok (checksum.compute stream.content)) fun error => .error error.toError) ∧
    ∀ bytes value : Bytes,
      (checksum.compute bytes).length = 4 ∧
        (Standard bytes checksum value ↔ value = checksum.compute bytes) := by
  refine ⟨?_, ?_, ?_⟩
  · intro front back
    have taken := (taken_start checksum).foldl_after front
    refine ⟨checksum.start.readings front,
      (front.foldl State.after checksum.start).readings back, ?_, ?_, ?_, ?_⟩
    · exact State.length_readings _ front
    · exact State.length_readings _ back
    · exact State.readings_append _ front back
    · rw [State.readings_append, ← List.nil_append (written front), ← taken.value]
      rfl
  · exact ofStream_eq checksum
  · intro bytes value
    exact ⟨length_compute checksum bytes, standard_iff⟩

example : crc32.start.readings
    [.write [0x31, 0x32, 0x33, 0x34], .read, .push 0x35, .write [], .read,
      .write [0x36, 0x37, 0x38, 0x39], .read] =
    [[0x9B, 0xE3, 0xE0, 0xA3], [0xCB, 0xF5, 0x3A, 0x1C], [0xCB, 0xF4, 0x39, 0x26]] := by
  decide +kernel

end Missive.Checksum
