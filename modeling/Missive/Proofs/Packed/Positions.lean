import Missive.Proofs.Packed.Canonical
import Missive.Proofs.Position

/-!
# Positions in a packed buffer

`Packed.countedUnpack?` reads a packed buffer with words for all positions: where each length
stands, where each blob begins and stops, and the size of the header. The sum of the lengths is
the only one that can leave the range of a word, and it is checked. Every other one is exact for
a buffer whose length is a word (`countedUnpack?_eq`), because each of them is computed only after
the buffer has been found long enough for it.
-/

namespace Missive.Packed

/-- The width of the blob count as a word. -/
def countSize : UInt64 := 4

/-- The width of a blob length as a word. -/
def lengthSize : UInt64 := 8

theorem toNat_countSize : countSize.toNat = countWidth := rfl

theorem toNat_lengthSize : lengthSize.toNat = lengthWidth := rfl

/-- The size of the header for `count` blobs, and the position of the length of blob `count`. -/
def countedHeader? (count : UInt64) : Option UInt64 := do
  let lengths ← Position.mul? lengthSize count
  Position.add? countSize lengths

/-- The number in a field that begins at a position. -/
def field? (buffer : Bytes) (start width : UInt64) : Option UInt64 := do
  let stop ← Position.add? start width
  let field ← buffer.between? start stop
  Position.ofNat? (Bytes.ofBigEndian field)

/-- The lengths of `count` blobs from blob `index` on, with their sum. -/
def countedLengths? (buffer : Bytes) (index : Nat) (declared : UInt64) :
    (count : Nat) → Exact FormatFault (List UInt64 × UInt64)
  | 0 => return ([], declared)
  | count + 1 => do
    let number ← Position.ofNat? index
    let start ← countedHeader? number
    let length ← field? buffer start lengthSize
    if Bytes.capacity lengthWidth / 2 ≤ length.toNat then
      throw (.negativeLength index ((length.toNat : Int) - Bytes.capacity lengthWidth))
    match Position.add? declared length with
    | none => throw (.lengthsOverflow index)
    | some declared =>
      let (lengths, total) ← countedLengths? buffer (index + 1) declared count
      return (length :: lengths, total)

/-- Consecutive blobs from a position on. -/
def countedBlobs? (buffer : Bytes) : (start : UInt64) → (lengths : List UInt64) →
    Option (List Bytes)
  | _, [] => some []
  | start, length :: lengths => do
    let stop ← Position.add? start length
    let blob ← buffer.between? start stop
    let blobs ← countedBlobs? buffer stop lengths
    return blob :: blobs

/-- What follows the count in a buffer of `total` bytes, whose header is complete. -/
def countedBody? (buffer : Bytes) (total header count : UInt64) :
    Exact FormatFault (List Bytes) := do
  let (lengths, declared) ← countedLengths? buffer 0 header count.toNat
  if declared ≠ total then throw (.lengthMismatch declared.toNat total.toNat)
  liftM (countedBlobs? buffer header lengths)

/-- The blobs of a buffer, or the first thing that is wrong with it. -/
def countedRead? (buffer : Bytes) : Exact FormatFault (List Bytes) := do
  let total ← Position.ofNat? buffer.length
  if total < countSize then throw (.countMissing total.toNat)
  let count ← field? buffer 0 countSize
  if Bytes.capacity countWidth / 2 ≤ count.toNat then
    throw (.negativeCount ((count.toNat : Int) - Bytes.capacity countWidth))
  let header ← countedHeader? count
  if total < header then throw (.lengthsMissing count.toNat total.toNat header.toNat)
  countedBody? buffer total header count

/-- The blobs of a packed buffer; any inconsistency is a format error. -/
def countedUnpack? (buffer : Bytes) : Exact Error (List Bytes) :=
  (countedRead? buffer).adapt .format

variable {buffer : Bytes}

theorem exists_countedHeader? {count : UInt64} (few : headerLength count.toNat < UInt64.size) :
    ∃ header, countedHeader? count = some header ∧ header.toNat = headerLength count.toNat := by
  rw [headerLength] at few
  obtain ⟨lengths, multiplied, product⟩ := @Position.exists_mul? lengthSize count
    (by rw [toNat_lengthSize]; omega)
  rw [toNat_lengthSize] at product
  obtain ⟨header, added, sum⟩ := @Position.exists_add? countSize lengths
    (by rw [toNat_countSize]; omega)
  rw [toNat_countSize, product] at sum
  refine ⟨header, ?_, sum⟩
  rw [countedHeader?, multiplied]
  exact added

theorem exists_field? {start width : UInt64} (room : start.toNat + width.toNat ≤ buffer.length)
    (short : buffer.length < UInt64.size) (narrow : Bytes.capacity width.toNat ≤ UInt64.size) :
    ∃ number, field? buffer start width = some number ∧
      number.toNat = Bytes.ofBigEndian ((buffer.drop start.toNat).take width.toNat) := by
  obtain ⟨stop, added, sum⟩ := @Position.exists_add? start width (by omega)
  have cut : buffer.between? start stop = some ((buffer.drop start.toNat).take width.toNat) := by
    rw [Bytes.between?, if_pos (by omega), Bytes.slice, sum, Nat.add_sub_cancel_left]
  have length : ((buffer.drop start.toNat).take width.toNat).reverse.length = width.toNat := by
    rw [List.length_reverse, List.length_take, List.length_drop]
    omega
  have bound := Bytes.ofLittleEndian_lt ((buffer.drop start.toNat).take width.toNat).reverse
  rw [length] at bound
  obtain ⟨number, counted, value⟩ :=
    Position.exists_ofNat? (Nat.lt_of_lt_of_le bound narrow)
  refine ⟨number, ?_, value⟩
  simp only [field?, added, cut, Option.bind_eq_bind, Option.bind_some]
  exact counted

/-- The lengths with their positions are the lengths one after the other. -/
theorem countedLengths?_eq {index count : Nat} {declared : UInt64}
    (room : headerLength (index + count) ≤ buffer.length) (short : buffer.length < UInt64.size) :
    (∃ fault, countedLengths? buffer index declared count = .of (.error fault) ∧
      readLengths index declared.toNat count (buffer.drop (headerLength index)) =
        .error fault) ∨
    ∃ lengths total, countedLengths? buffer index declared count = .of (.ok (lengths, total)) ∧
      readLengths index declared.toNat count (buffer.drop (headerLength index)) =
        .ok (lengths.map UInt64.toNat, total.toNat) := by
  induction count generalizing index declared with
  | zero => exact .inr ⟨[], declared, rfl, rfl⟩
  | succ count ih =>
      have later : headerLength (index + 1 + count) ≤ buffer.length := by
        rw [Nat.add_right_comm]
        exact room
      have inside : headerLength index + lengthWidth ≤ buffer.length := by
        simp only [headerLength, lengthWidth] at room ⊢
        omega
      obtain ⟨number, numbered, place⟩ := @Position.exists_ofNat? index (by
        simp only [headerLength, lengthWidth] at inside
        omega)
      obtain ⟨start, started, position⟩ := @exists_countedHeader? number (by
        rw [place]
        omega)
      rw [place] at position
      obtain ⟨length, found, value⟩ := @exists_field? buffer start lengthSize
        (by rw [position, toNat_lengthSize]; exact inside) short (by decide)
      rw [position, toNat_lengthSize] at value
      simp only [countedLengths?, numbered, started, found, Exact.liftM_some_bind, readLengths,
        ← value]
      by_cases negative : Bytes.capacity lengthWidth / 2 ≤ length.toNat
      · refine .inl ⟨.negativeLength index
          ((length.toNat : Int) - Bytes.capacity lengthWidth), ?_, ?_⟩
        · simp [negative]
        · simp [negative]
      · by_cases large : UInt64.size ≤ declared.toNat + length.toNat
        · have none : Position.add? declared length = .none := if_neg (Nat.not_lt.mpr large)
          refine .inl ⟨.lengthsOverflow index, ?_, ?_⟩
          · simp [negative, none]
          · simp [negative, large]
        · obtain ⟨sum, added, total⟩ := Position.exists_add? (Nat.not_le.mp large)
          have rest := @ih (index + 1) sum later
          rw [total, headerLength_succ] at rest
          simp only [if_neg negative, if_neg large, added, List.drop_drop]
          rcases rest with ⟨fault, counted, read⟩ | ⟨lengths, declared, counted, read⟩
          · refine .inl ⟨fault, ?_, ?_⟩
            · simp [counted]
            · rw [read]
              rfl
          · refine .inr ⟨length :: lengths, declared, ?_, ?_⟩
            · simp [counted]
            · rw [read]
              rfl

theorem countedBlobs?_eq {start : UInt64} {lengths : List UInt64}
    (room : start.toNat + (lengths.map UInt64.toNat).foldr (· + ·) 0 ≤ buffer.length)
    (short : buffer.length < UInt64.size) :
    countedBlobs? buffer start lengths =
      some (cut (lengths.map UInt64.toNat) (buffer.drop start.toNat)) := by
  induction lengths generalizing start with
  | nil => rfl
  | cons length lengths ih =>
      rw [List.map_cons, List.foldr_cons] at room
      obtain ⟨stop, added, sum⟩ := @Position.exists_add? start length (by omega)
      have blob : buffer.between? start stop =
          some ((buffer.drop start.toNat).take length.toNat) := by
        rw [Bytes.between?, if_pos (by omega), Bytes.slice, sum, Nat.add_sub_cancel_left]
      have rest := @ih stop (by omega)
      simp only [countedBlobs?, added, blob, rest, sum, cut, List.map_cons, List.drop_drop,
        Option.bind_eq_bind, Option.bind_some, Option.pure_def]

/-- The lengths are read and the blobs cut out once the header has been found to be complete. -/
theorem countedBody?_eq {count total header : UInt64}
    (whole : total.toNat = buffer.length) (size : header.toNat = headerLength count.toNat)
    (complete : headerLength count.toNat ≤ buffer.length) :
    countedBody? buffer total header count = .of (do
      let (lengths, declared) ←
        readLengths 0 (headerLength count.toNat) count.toNat (buffer.drop countWidth)
      if declared ≠ buffer.length then throw (.lengthMismatch declared buffer.length)
      return cut lengths (buffer.drop (headerLength count.toNat))) := by
  have short : buffer.length < UInt64.size := by
    rw [← whole]
    exact total.toNat_lt_size
  have front : headerLength 0 = countWidth := rfl
  have lengthsRead := @countedLengths?_eq buffer 0 count.toNat header
    (by rw [Nat.zero_add]; exact complete) short
  rw [size, front] at lengthsRead
  rw [countedBody?]
  rcases lengthsRead with ⟨fault, counted, read⟩ | ⟨lengths, declared, counted, read⟩
  · rw [counted, read]
    rfl
  · have enough : lengthWidth * count.toNat ≤ (buffer.drop countWidth).length := by
      rw [List.length_drop]
      rw [headerLength] at complete
      omega
    have sum := (of_readLengths enough read).2.1
    have same : declared ≠ total ↔ declared.toNat ≠ buffer.length := by
      rw [← whole]
      exact not_congr UInt64.toNat_inj.symm
    rw [counted, read, Exact.of_bind]
    simp only [same, whole]
    refine Exact.guard_eq fun matching => ?_
    rw [countedBlobs?_eq (by rw [size]; omega) short, size]
    rfl

/-- A buffer is read with exact positions, and with the outcome that reading it in order has. -/
theorem countedRead?_eq (short : buffer.length < UInt64.size) :
    countedRead? buffer = .of (read buffer) := by
  obtain ⟨total, counted, length⟩ := Position.exists_ofNat? short
  have tooShort : total < countSize ↔ buffer.length < countWidth := by
    rw [UInt64.lt_iff_toNat_lt, length, toNat_countSize]
  simp only [countedRead?, read, counted, Exact.liftM_some_bind, tooShort, length]
  refine Exact.guard_eq fun present => ?_
  obtain ⟨count, found, value⟩ := @exists_field? buffer 0 countSize
    (by rw [UInt64.toNat_zero, toNat_countSize]; omega) short (by decide)
  rw [UInt64.toNat_zero, List.drop_zero, toNat_countSize] at value
  simp only [found, ← value, Exact.liftM_some_bind]
  refine Exact.guard_eq fun positive => ?_
  have narrow : Bytes.capacity countWidth / 2 = 2147483648 := by decide
  obtain ⟨header, sized, size⟩ := @exists_countedHeader? count (by
    rw [narrow] at positive
    simp only [headerLength, countWidth, lengthWidth, UInt64.size]
    omega)
  have incomplete : total < header ↔ buffer.length < headerLength count.toNat := by
    rw [UInt64.lt_iff_toNat_lt, length, size]
  simp only [sized, incomplete, size, Exact.liftM_some_bind]
  refine Exact.guard_eq fun complete => ?_
  exact countedBody?_eq length size (Nat.not_lt.mp complete)

theorem countedUnpack?_eq (short : buffer.length < UInt64.size) :
    countedUnpack? buffer = .of (unpack buffer) := by
  rw [countedUnpack?, countedRead?_eq short, unpack]
  cases read buffer <;> rfl

end Missive.Packed
