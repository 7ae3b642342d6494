import Missive.Error

/-!
# Packed blob lists

The metadata section of a package is one buffer that holds an ordered list of blobs:

    [4 bytes: count N][N x 8 bytes: lengths][blob 0] ... [blob N-1]

All numbers are big-endian and signed, so a count or length with the top bit set is negative and
refused. The buffer must be exactly as long as its header declares. Packing writes the count in
32 bits whatever it is, and so a list of 2³¹ blobs or more is written, but cannot be read back.
-/

namespace Missive.Packed

/-- The width of the blob count. -/
def countWidth : Nat := 4

/-- The width of one blob length. -/
def lengthWidth : Nat := 8

/-- The count and the lengths that go before the blobs themselves. -/
def header (lengths : List Nat) : Bytes :=
  Bytes.bigEndian countWidth lengths.length ++ lengths.flatMap (Bytes.bigEndian lengthWidth)

/-- The size of the header for `count` blobs. -/
def headerLength (count : Nat) : Nat :=
  countWidth + lengthWidth * count

/-- The size of the whole buffer for blobs of the given lengths. -/
def packedLength (lengths : List Nat) : Nat :=
  headerLength lengths.length + lengths.foldr (· + ·) 0

/-- One buffer for an ordered list of blobs. -/
def pack (blobs : List Bytes) : Bytes :=
  header (blobs.map List.length) ++ blobs.flatten

@[simp]
theorem length_header (lengths : List Nat) :
    (header lengths).length = headerLength lengths.length := by
  have sizes : ∀ lengths : List Nat,
      (lengths.flatMap (Bytes.bigEndian lengthWidth)).length = lengthWidth * lengths.length := by
    intro lengths
    induction lengths with
    | nil => rfl
    | cons length rest ih =>
      simp only [List.flatMap_cons, List.length_append, Bytes.length_bigEndian, ih,
        List.length_cons, Nat.mul_succ]
      omega
  simp [header, headerLength, sizes]

/-- The buffer has the declared size. -/
theorem length_pack (blobs : List Bytes) :
    (pack blobs).length = packedLength (blobs.map List.length) := by
  simp [pack, packedLength, List.length_flatten, List.sum_eq_foldr]

/--
The lengths that stand at the front of `buffer`, `count` of them, the first of which belongs to
blob `index`. The sum of the header and of the lengths before is `declared`; the second result is
the sum after all of them, which must stay below 2⁶⁴.
-/
def readLengths (index declared : Nat) :
    (count : Nat) → (buffer : Bytes) → Except FormatFault (List Nat × Nat)
  | 0, _ => .ok ([], declared)
  | count + 1, buffer =>
    let length := Bytes.ofBigEndian (buffer.take lengthWidth)
    if Bytes.capacity lengthWidth / 2 ≤ length then
      .error (.negativeLength index ((length : Int) - Bytes.capacity lengthWidth))
    else if UInt64.size ≤ declared + length then .error (.lengthsOverflow index)
    else do
      let (lengths, total) ←
        readLengths (index + 1) (declared + length) count (buffer.drop lengthWidth)
      return (length :: lengths, total)

/-- Cuts a buffer into consecutive blobs of the given lengths. -/
def cut : (lengths : List Nat) → (buffer : Bytes) → List Bytes
  | [], _ => []
  | length :: lengths, buffer => buffer.take length :: cut lengths (buffer.drop length)

/-- The blobs of a buffer, or the first thing that is wrong with it. -/
def read (buffer : Bytes) : Except FormatFault (List Bytes) := do
  let total := buffer.length
  if total < countWidth then throw (.countMissing total)
  let count := Bytes.ofBigEndian (buffer.take countWidth)
  if Bytes.capacity countWidth / 2 ≤ count then
    throw (.negativeCount ((count : Int) - Bytes.capacity countWidth))
  if total < headerLength count then
    throw (.lengthsMissing count total (headerLength count))
  let (lengths, declared) ←
    readLengths 0 (headerLength count) count (buffer.drop countWidth)
  if declared ≠ total then throw (.lengthMismatch declared total)
  return cut lengths (buffer.drop (headerLength count))

/-- The blobs of a packed buffer; any inconsistency is a format error. -/
def unpack (buffer : Bytes) : Except Error (List Bytes) :=
  (read buffer).mapError .format

end Missive.Packed
