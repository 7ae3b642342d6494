import Missive.Proofs.Packed

/-!
# Packed lists have one written form

Unpacking accepts exactly what packing writes: a buffer that is accepted is the packed form of the
list that it gives, byte for byte. The count of a list that is too long is written without its
higher bits, and then the buffer is longer than it declares.

`Packed.read` takes its fields off the front of the buffer. `readAt?` reads the same fields at
their positions, and gives nothing at all if a slice leaves the buffer; that never happens
(`readAt?_eq`).
-/

namespace Missive.Packed

example : signLimit lengthWidth = 9223372036854775808 := by decide

/-! ### Buffers that are accepted -/

theorem bigEndian_ofBigEndian_take {buffer : Bytes} {width : Nat} (room : width ≤ buffer.length) :
    Bytes.bigEndian width (Bytes.ofBigEndian (buffer.take width)) = buffer.take width := by
  have written := Bytes.bigEndian_ofBigEndian (buffer.take width)
  rw [List.length_take, Nat.min_eq_left room] at written
  exact written

/-- What has been met where one length more is accepted. -/
theorem exists_of_readLengths_succ {index declared count total : Nat} {buffer : Bytes}
    {lengths : List Nat}
    (accepted : readLengths index declared (count + 1) buffer = .ok (lengths, total)) :
    ∃ later, lengths = Bytes.ofBigEndian (buffer.take lengthWidth) :: later ∧
      readLengths (index + 1) (declared + Bytes.ofBigEndian (buffer.take lengthWidth)) count
        (buffer.drop lengthWidth) = .ok (later, total) := by
  simp only [readLengths] at accepted
  split at accepted
  · cases accepted
  · split at accepted
    · cases accepted
    · rcases bind_eq_ok_iff.mp accepted with ⟨⟨later, sum⟩, read, result⟩
      cases result
      exact ⟨later, rfl, read⟩

theorem of_readLengths {index declared count total : Nat} {buffer : Bytes} {lengths : List Nat}
    (room : lengthWidth * count ≤ buffer.length)
    (accepted : readLengths index declared count buffer = .ok (lengths, total)) :
    lengths.length = count ∧ total = declared + lengths.foldr (· + ·) 0 ∧
      lengths.flatMap (Bytes.bigEndian lengthWidth) = buffer.take (lengthWidth * count) := by
  induction count generalizing index declared buffer lengths with
  | zero =>
      cases accepted
      simp
  | succ count ih =>
      rw [Nat.mul_succ] at room
      rcases exists_of_readLengths_succ accepted with ⟨later, rfl, read⟩
      have further : lengthWidth * count ≤ (buffer.drop lengthWidth).length := by
        rw [List.length_drop]
        omega
      rcases ih further read with ⟨counted, sum, written⟩
      refine ⟨?_, ?_, ?_⟩
      · rw [List.length_cons, counted]
      · rw [sum, List.foldr_cons, Nat.add_assoc]
      · rw [List.flatMap_cons, written, bigEndian_ofBigEndian_take (by omega), Nat.mul_succ,
          Nat.add_comm, List.take_add]

theorem cut_whole {lengths : List Nat} {buffer : Bytes}
    (whole : buffer.length = lengths.foldr (· + ·) 0) :
    (cut lengths buffer).map List.length = lengths ∧ (cut lengths buffer).flatten = buffer := by
  induction lengths generalizing buffer with
  | nil =>
      have empty : buffer = [] := List.eq_nil_of_length_eq_zero whole
      simp [cut, empty]
  | cons length lengths ih =>
      rw [List.foldr_cons] at whole
      have rest : (buffer.drop length).length = lengths.foldr (· + ·) 0 := by
        rw [List.length_drop]
        omega
      rcases ih rest with ⟨counted, joined⟩
      have first : (buffer.take length).length = length := by
        rw [List.length_take]
        omega
      refine ⟨?_, ?_⟩
      · rw [cut, List.map_cons, first, counted]
      · rw [cut, List.flatten_cons, joined, List.take_append_drop]

/-- What has been met where a whole buffer is accepted. -/
theorem exists_of_read {buffer : Bytes} {blobs : List Bytes} (accepted : read buffer = .ok blobs) :
    let count := Bytes.ofBigEndian (buffer.take countWidth)
    countWidth ≤ buffer.length ∧ count < signLimit countWidth ∧
      headerLength count ≤ buffer.length ∧
      ∃ lengths, readLengths 0 (headerLength count) count (buffer.drop countWidth) =
          .ok (lengths, buffer.length) ∧
        blobs = cut lengths (buffer.drop (headerLength count)) := by
  intro count
  simp only [read, guard_eq_ok_iff] at accepted
  rcases accepted with ⟨present, positive, complete, accepted⟩
  rcases bind_eq_ok_iff.mp accepted with ⟨⟨lengths, declared⟩, lengthsRead, accepted⟩
  rw [guard_eq_ok_iff] at accepted
  rcases accepted with ⟨same, result⟩
  cases result
  have whole : declared = buffer.length := Decidable.not_not.mp same
  rw [whole] at lengthsRead
  exact ⟨Nat.not_lt.mp present, Nat.not_le.mp positive, Nat.not_lt.mp complete, lengths,
    lengthsRead, rfl⟩

/-- A list that is read was written with a count that is not taken for a negative one. -/
theorem pack_of_read {buffer : Bytes} {blobs : List Bytes} (accepted : read buffer = .ok blobs) :
    blobs.length < signLimit countWidth ∧ pack blobs = buffer := by
  rcases exists_of_read accepted with ⟨present, positive, complete, lengths, lengthsRead, rfl⟩
  generalize counted : Bytes.ofBigEndian (buffer.take countWidth) = count at *
  have room : lengthWidth * count ≤ (buffer.drop countWidth).length := by
    rw [List.length_drop]
    rw [headerLength] at complete
    omega
  rcases of_readLengths room lengthsRead with ⟨number, sum, written⟩
  have whole : (buffer.drop (headerLength count)).length = lengths.foldr (· + ·) 0 := by
    rw [List.length_drop]
    omega
  rcases cut_whole whole with ⟨sizes, joined⟩
  have many : (cut lengths (buffer.drop (headerLength count))).length = count := by
    have sized := congrArg List.length sizes
    rw [List.length_map, number] at sized
    exact sized
  refine ⟨by rw [many]; exact positive, ?_⟩
  have front := bigEndian_ofBigEndian_take present
  rw [counted] at front
  rw [pack, sizes, joined, header, number, front, written]
  calc buffer.take countWidth ++ (buffer.drop countWidth).take (lengthWidth * count) ++
        buffer.drop (headerLength count)
      = buffer.take (headerLength count) ++ buffer.drop (headerLength count) := by
        rw [headerLength, List.take_add]
    _ = buffer := List.take_append_drop _ _

/-! ### Lists that are too long -/

/-- The lengths at the front of a written list do not declare more than the whole list. -/
theorem le_of_readLengths {index declared count total : Nat} {lengths found : List Nat}
    {rest : Bytes} (enough : count ≤ lengths.length)
    (accepted : readLengths index declared count
      (lengths.flatMap (Bytes.bigEndian lengthWidth) ++ rest) = .ok (found, total)) :
    total ≤ declared + lengths.foldr (· + ·) 0 := by
  induction count generalizing index declared lengths found with
  | zero =>
      cases accepted
      exact Nat.le_add_right _ _
  | succ count ih =>
      cases lengths with
      | nil => exact absurd enough (Nat.not_succ_le_zero count)
      | cons length lengths =>
          rcases exists_of_readLengths_succ accepted with ⟨later, _, read⟩
          rw [List.flatMap_cons, List.append_assoc, ofBigEndian_take,
            List.drop_left' (Bytes.length_bigEndian _ _)] at read
          have bound := ih (Nat.le_of_succ_le_succ enough) read
          have cutOff := Nat.mod_le length (Bytes.capacity lengthWidth)
          rw [List.foldr_cons]
          omega

/-- A list whose count is taken for another one is not read back at all. -/
theorem read_pack_ne_ok {blobs : List Bytes} (many : signLimit countWidth ≤ blobs.length)
    (result : List Bytes) : read (pack blobs) ≠ .ok result := by
  intro accepted
  have shape : pack blobs = Bytes.bigEndian countWidth blobs.length ++
      ((blobs.map List.length).flatMap (Bytes.bigEndian lengthWidth) ++ blobs.flatten) := by
    rw [pack, header, List.length_map, List.append_assoc]
  have counted : Bytes.ofBigEndian ((pack blobs).take countWidth) =
      blobs.length % Bytes.capacity countWidth := by
    rw [shape, ofBigEndian_take]
  rcases exists_of_read accepted with ⟨_, positive, _, lengths, lengthsRead, _⟩
  rw [counted] at positive lengthsRead
  generalize blobs.length % Bytes.capacity countWidth = count at *
  rw [shape, List.drop_left' (Bytes.length_bigEndian _ _)] at lengthsRead
  have fewer : count < blobs.length := Nat.lt_of_lt_of_le positive many
  have bound := le_of_readLengths (by rw [List.length_map]; omega) lengthsRead
  have total := length_pack blobs
  rw [shape, packedLength, List.length_map] at total
  rw [total] at bound
  simp only [headerLength, lengthWidth] at bound
  omega

/-! ### Reading at positions -/

/-- A slice of a buffer; there is none if it would leave the buffer. -/
def slice? (buffer : Bytes) (start length : Nat) : Option Bytes :=
  if start + length ≤ buffer.length then some (buffer.slice start length) else none

/--
The lengths of `count` blobs from blob `index` on, each read at its own position. There is no
result if one of them would be read outside the buffer.
-/
def lengthsAt? (buffer : Bytes) (index declared : Nat) :
    (count : Nat) → Option (Except FormatFault (List Nat × Nat))
  | 0 => some (.ok ([], declared))
  | count + 1 => do
    let length := Bytes.ofBigEndian (← slice? buffer (headerLength index) lengthWidth)
    if Bytes.capacity lengthWidth / 2 ≤ length then
      return .error (.negativeLength index ((length : Int) - Bytes.capacity lengthWidth))
    else if UInt64.size ≤ declared + length then return .error (.lengthsOverflow index)
    else
      match ← lengthsAt? buffer (index + 1) (declared + length) count with
      | .ok (lengths, total) => return .ok (length :: lengths, total)
      | .error fault => return .error fault

/-- Consecutive blobs from a position on; there are none if one would leave the buffer. -/
def blobsAt? (buffer : Bytes) : (position : Nat) → (lengths : List Nat) → Option (List Bytes)
  | _, [] => some []
  | position, length :: lengths => do
    let blob ← slice? buffer position length
    return blob :: (← blobsAt? buffer (position + length) lengths)

/-- The blobs of a buffer, all of whose fields are read at their positions. -/
def readAt? (buffer : Bytes) : Option (Except FormatFault (List Bytes)) := do
  let total := buffer.length
  if total < countWidth then return .error (.countMissing total)
  let count := Bytes.ofBigEndian (← slice? buffer 0 countWidth)
  if Bytes.capacity countWidth / 2 ≤ count then
    return .error (.negativeCount ((count : Int) - Bytes.capacity countWidth))
  if total < headerLength count then
    return .error (.lengthsMissing count total (headerLength count))
  match ← lengthsAt? buffer 0 (headerLength count) count with
  | .error fault => return .error fault
  | .ok (lengths, declared) =>
    if declared ≠ total then return .error (.lengthMismatch declared total)
    return .ok (← blobsAt? buffer (headerLength count) lengths)

theorem headerLength_succ (count : Nat) :
    headerLength (count + 1) = headerLength count + lengthWidth := by
  rw [headerLength, headerLength, Nat.mul_succ, Nat.add_assoc]

theorem slice?_of_le {buffer : Bytes} {start length : Nat}
    (inside : start + length ≤ buffer.length) :
    slice? buffer start length = some ((buffer.drop start).take length) := by
  rw [slice?, if_pos inside]
  rfl

theorem lengthsAt?_eq {buffer : Bytes} {index declared count : Nat}
    (room : headerLength (index + count) ≤ buffer.length) :
    lengthsAt? buffer index declared count =
      some (readLengths index declared count (buffer.drop (headerLength index))) := by
  induction count generalizing index declared with
  | zero => rfl
  | succ count ih =>
      have later : headerLength (index + 1 + count) ≤ buffer.length := by
        rw [Nat.add_right_comm]
        exact room
      have inside : headerLength index + lengthWidth ≤ buffer.length := by
        simp only [headerLength, lengthWidth] at room ⊢
        omega
      simp only [lengthsAt?, readLengths, slice?_of_le inside, ih later, List.drop_drop,
        headerLength_succ, Option.bind_eq_bind, Option.bind_some, Option.pure_def]
      split
      · rfl
      · split
        · rfl
        · cases readLengths (index + 1) _ count
            (buffer.drop (headerLength index + lengthWidth)) <;> rfl

theorem blobsAt?_eq {buffer : Bytes} {position : Nat} {lengths : List Nat}
    (room : position + lengths.foldr (· + ·) 0 ≤ buffer.length) :
    blobsAt? buffer position lengths = some (cut lengths (buffer.drop position)) := by
  induction lengths generalizing position with
  | nil => rfl
  | cons length lengths ih =>
      rw [List.foldr_cons] at room
      simp only [blobsAt?, cut, slice?_of_le (by omega : position + length ≤ buffer.length),
        ih (by omega : position + length + lengths.foldr (· + ·) 0 ≤ buffer.length),
        List.drop_drop, Option.bind_eq_bind, Option.bind_some, Option.pure_def]

/-- No slice that is taken leaves the buffer. -/
theorem readAt?_eq (buffer : Bytes) : readAt? buffer = some (read buffer) := by
  simp only [readAt?, read]
  split
  · rfl
  · rename_i present
    simp only [slice?_of_le (by omega : 0 + countWidth ≤ buffer.length), List.drop_zero,
      Option.bind_eq_bind, Option.bind_some, Option.pure_def]
    generalize Bytes.ofBigEndian (buffer.take countWidth) = count
    split
    · rfl
    · split
      · rfl
      · rename_i complete
        have room : headerLength (0 + count) ≤ buffer.length := by
          rw [Nat.zero_add]
          omega
        have front : headerLength 0 = countWidth := rfl
        rw [lengthsAt?_eq room, front]
        cases lengthsRead : readLengths 0 (headerLength count) count (buffer.drop countWidth) with
        | error fault => rfl
        | ok found =>
            rcases found with ⟨lengths, declared⟩
            simp only [Option.bind_some]
            by_cases other : declared = buffer.length
            · have enough : lengthWidth * count ≤ (buffer.drop countWidth).length := by
                rw [List.length_drop]
                rw [headerLength] at complete
                omega
              have sum := (of_readLengths enough lengthsRead).2.1
              rw [blobsAt?_eq (by omega)]
              simp [other, bind, Except.bind, pure, Except.pure]
            · simp [other, bind, Except.bind, throw, throwThe, MonadExceptOf.throw]

/-! ### Both directions -/

theorem unpack_eq_ok_iff {buffer : Bytes} {blobs : List Bytes}
    (short : buffer.length < signLimit lengthWidth) :
    unpack buffer = .ok blobs ↔ blobs.length < signLimit countWidth ∧ pack blobs = buffer := by
  constructor
  · intro accepted
    rw [unpack, mapError_eq_ok_iff] at accepted
    exact pack_of_read accepted
  · rintro ⟨few, rfl⟩
    exact unpack_pack few short

theorem exists_unpack_eq_error {buffer : Bytes}
    (refused : ∀ blobs, unpack buffer ≠ .ok blobs) :
    ∃ fault, unpack buffer = .error (.format fault) := by
  cases outcome : read buffer with
  | ok blobs =>
      have accepted : unpack buffer = .ok blobs := by rw [unpack, outcome, mapError_ok]
      exact absurd accepted (refused blobs)
  | error fault => exact ⟨fault, by rw [unpack, outcome, mapError_error]⟩

/--
Unpacking accepts exactly the packed lists of fewer than 2³¹ blobs, each as the list that was
packed, and refuses everything else. Longer lists are written, but refused as well.
-/
theorem unpack_accepts_image :
    (∀ buffer : Bytes, buffer.length < signLimit lengthWidth →
      (∀ blobs, unpack buffer = .ok blobs ↔
        blobs.length < signLimit countWidth ∧ pack blobs = buffer) ∧
      ((∀ blobs, ¬(blobs.length < signLimit countWidth ∧ pack blobs = buffer)) →
        ∃ fault, unpack buffer = .error (.format fault))) ∧
    (∀ blobs : List Bytes,
      (blobs.length < signLimit countWidth → (pack blobs).length < signLimit lengthWidth →
        unpack (pack blobs) = .ok blobs) ∧
      (signLimit countWidth ≤ blobs.length → ∃ fault, unpack (pack blobs) = .error (.format fault)) ∧
      header (blobs.map List.length) ++ blobs.flatten = pack blobs ∧
      (pack blobs).length = packedLength (blobs.map List.length)) ∧
    ∀ buffer : Bytes, readAt? buffer = some (read buffer) := by
  refine ⟨?_, ?_, readAt?_eq⟩
  · intro buffer short
    refine ⟨fun blobs => unpack_eq_ok_iff short, ?_⟩
    intro foreign
    apply exists_unpack_eq_error
    intro blobs accepted
    exact foreign blobs ((unpack_eq_ok_iff short).mp accepted)
  · intro blobs
    refine ⟨unpack_pack, ?_, rfl, length_pack blobs⟩
    intro many
    apply exists_unpack_eq_error
    intro result accepted
    rw [unpack, mapError_eq_ok_iff] at accepted
    exact read_pack_ne_ok many result accepted

/-- Two blobs, one of them empty, and the shortest list that is too long. -/
theorem unpack_accepts_image_two :
    let buffer : Bytes := [0, 0, 0, 2, 0, 0, 0, 0, 0, 0, 0, 2, 0, 0, 0, 0, 0, 0, 0, 0, 7, 9]
    let many : List Bytes := List.replicate 2147483648 []
    buffer.length < signLimit lengthWidth ∧ unpack buffer = .ok [[7, 9], []] ∧
      signLimit countWidth ≤ many.length ∧ ∃ fault, unpack (pack many) = .error (.format fault) := by
  intro buffer many
  have short : buffer.length < signLimit lengthWidth := by decide
  have limit : signLimit countWidth ≤ many.length := by
    rw [List.length_replicate]
    decide
  rcases unpack_accepts_image with ⟨buffers, lists, _⟩
  refine ⟨short, ?_, limit, (lists many).2.1 limit⟩
  exact ((buffers buffer short).1 _).mpr ⟨by decide, by decide⟩

end Missive.Packed
