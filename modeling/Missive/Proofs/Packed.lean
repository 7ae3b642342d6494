import Missive.Packed
import Missive.Proofs.Outcome

/-!
# Packed lists without loss

A packed list of blobs is read back, unless the count or a length has its top bit set: those are
taken for negative numbers.
-/

namespace Missive.Packed

/-- The first count or length that is taken for a negative one. -/
def signLimit (width : Nat) : Nat :=
  Bytes.capacity width / 2

example : signLimit countWidth = 2147483648 := by decide

theorem ofBigEndian_take (width value : Nat) (rest : Bytes) :
    Bytes.ofBigEndian ((Bytes.bigEndian width value ++ rest).take width) =
      value % Bytes.capacity width := by
  rw [List.take_left' (Bytes.length_bigEndian width value), Bytes.ofBigEndian_bigEndian]

theorem readLengths_written (lengths : List Nat) (index declared : Nat) (rest : Bytes)
    (small : declared + lengths.foldr (· + ·) 0 < signLimit lengthWidth) :
    readLengths index declared lengths.length
        (lengths.flatMap (Bytes.bigEndian lengthWidth) ++ rest) =
      .ok (lengths, declared + lengths.foldr (· + ·) 0) := by
  induction lengths generalizing index declared with
  | nil => rfl
  | cons length lengths ih =>
      rw [List.foldr_cons, ← Nat.add_assoc] at small
      have capacity : Bytes.capacity lengthWidth = UInt64.size := by decide
      rw [signLimit] at small
      have first := ofBigEndian_take lengthWidth length
        (lengths.flatMap (Bytes.bigEndian lengthWidth) ++ rest)
      rw [Nat.mod_eq_of_lt (by omega)] at first
      have later : ∀ rest, (Bytes.bigEndian lengthWidth length ++ rest).drop lengthWidth = rest :=
        fun rest => List.drop_left' (Bytes.length_bigEndian _ _)
      have positive : ¬Bytes.capacity lengthWidth / 2 ≤ length := by omega
      have fits : ¬UInt64.size ≤ declared + length := by
        omega
      rw [List.flatMap_cons, List.append_assoc, List.length_cons, readLengths]
      simp only [first, later, if_neg positive, if_neg fits,
        ih (index + 1) (declared + length) small, List.foldr_cons, Nat.add_assoc]
      rfl

theorem cut_flatten (blobs : List Bytes) : cut (blobs.map List.length) blobs.flatten = blobs := by
  induction blobs with
  | nil => rfl
  | cons blob blobs ih =>
      rw [List.map_cons, List.flatten_cons, cut, List.take_left' rfl, List.drop_left' rfl, ih]

/-- A packed list is read back as it was. -/
theorem unpack_pack {blobs : List Bytes} (few : blobs.length < signLimit countWidth)
    (short : (pack blobs).length < signLimit lengthWidth) :
    unpack (pack blobs) = .ok blobs := by
  have total := length_pack blobs
  rw [packedLength, List.length_map] at total
  have capacity : 0 < Bytes.capacity countWidth := by decide
  rw [signLimit] at few
  have count := ofBigEndian_take countWidth blobs.length
    ((blobs.map List.length).flatMap (Bytes.bigEndian lengthWidth) ++ blobs.flatten)
  rw [Nat.mod_eq_of_lt (by omega)] at count
  have shape : pack blobs = Bytes.bigEndian countWidth blobs.length ++
      ((blobs.map List.length).flatMap (Bytes.bigEndian lengthWidth) ++ blobs.flatten) := by
    rw [pack, header, List.length_map, List.append_assoc]
  have after : (pack blobs).drop countWidth =
      (blobs.map List.length).flatMap (Bytes.bigEndian lengthWidth) ++ blobs.flatten := by
    rw [shape, List.drop_left' (Bytes.length_bigEndian _ _)]
  have content : (pack blobs).drop (headerLength blobs.length) = blobs.flatten := by
    rw [pack, List.drop_left' (by rw [length_header, List.length_map])]
  have lengths := readLengths_written (blobs.map List.length) 0 (headerLength blobs.length)
    blobs.flatten (by omega)
  rw [List.length_map] at lengths
  rw [← shape] at count
  have present : ¬(pack blobs).length < countWidth := by
    rw [total, headerLength]
    omega
  have positive : ¬Bytes.capacity countWidth / 2 ≤ blobs.length := by omega
  have complete : ¬(pack blobs).length < headerLength blobs.length := by omega
  have same : ¬headerLength blobs.length + (blobs.map List.length).foldr (· + ·) 0 ≠
      (pack blobs).length := by
    omega
  rw [unpack, mapError_eq_ok_iff, read]
  simp only [count, if_neg present, if_neg positive, if_neg complete, after, lengths,
    if_neg same, content, cut_flatten, bind, Except.bind, pure, Except.pure]

end Missive.Packed
