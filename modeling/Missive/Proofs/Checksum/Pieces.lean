import Missive.Archive.BodyReader
import Missive.Proofs.Checksum.Blake3

/-!
# Checksums piece by piece

The checksum of a stream is the checksum of its content, however the stream is cut; and so what
is noted of a stream as it is read (`Tally`) says how long its content is and what its checksum is.
-/

namespace Missive

namespace Checksum

theorem foldl_update_crc32 (pieces : List Bytes) (register : UInt32) :
    pieces.foldl State.update (.crc32 register) =
      .crc32 (Crc32.update register pieces.flatten) := by
  induction pieces generalizing register with
  | nil => rfl
  | cons piece pieces ih =>
      rw [List.foldl_cons, State.update, ih, List.flatten_cons, Crc32.update, Crc32.update,
        Crc32.update, List.foldl_append]

theorem foldl_update_adler32 (pieces : List Bytes) (sums : Adler32.Sums) :
    pieces.foldl State.update (.adler32 sums) =
      .adler32 (Adler32.update sums pieces.flatten) := by
  induction pieces generalizing sums with
  | nil => rfl
  | cons piece pieces ih =>
      rw [List.foldl_cons, State.update, ih, List.flatten_cons, Adler32.update, Adler32.update,
        Adler32.update, List.foldl_append]

theorem foldl_update_blake3 (pieces : List Bytes) (state : Blake3.State) :
    pieces.foldl State.update (.blake3 state) =
      .blake3 (pieces.foldl Blake3.State.update state) := by
  induction pieces generalizing state with
  | nil => rfl
  | cons piece pieces ih => rw [List.foldl_cons, State.update, ih, List.foldl_cons]

/-- The checksum that was observed of a stream is the one of its content. -/
theorem value_observe (checksum : Checksum) (stream : ByteStream) :
    (checksum.start.observe stream).value = checksum.compute stream.content := by
  cases checksum with
  | crc32 =>
      rw [start, State.observe, foldl_update_crc32]
      rfl
  | adler32 =>
      rw [start, State.observe, foldl_update_adler32]
      rfl
  | blake3 =>
      rw [start, State.observe, foldl_update_blake3, State.value, Blake3.digest_foldl_update]
      rfl

end Checksum

namespace Tally

theorem foldl_update (pieces : List Bytes) (tally : Tally) :
    pieces.foldl update tally =
      ⟨tally.checksum.map fun state => pieces.foldl Checksum.State.update state,
        tally.count + pieces.flatten.length⟩ := by
  induction pieces generalizing tally with
  | nil => simp
  | cons piece pieces ih =>
      rw [List.foldl_cons, ih]
      simp [update, Function.comp_def, Nat.add_assoc]

theorem observe_start (checksum : Option Checksum) (stream : ByteStream) :
    (start checksum).observe stream =
      ⟨checksum.map fun checksum => checksum.start.observe stream, stream.content.length⟩ := by
  rw [observe, foldl_update, start, Option.map_map, Nat.zero_add]
  rfl

end Tally

end Missive
