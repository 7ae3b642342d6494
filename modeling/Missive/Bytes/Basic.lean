/-!
# Byte strings

Every body, key, checksum and record of a message package is a list of bytes. This file fixes
that type and the few operations the formats share: slices, pointwise exclusive or, the
big-endian and little-endian forms of a natural number, and the bytes of a text.

The number forms are exact up to their width: reading `bigEndian width value` gives
`value % capacity width`.
-/

namespace Missive

/-- A byte string. -/
abbrev Bytes := List UInt8

namespace Bytes

/-- The bytes from position `offset` on, at most `length` of them. -/
def slice (bytes : Bytes) (offset length : Nat) : Bytes :=
  (bytes.drop offset).take length

/-- Pointwise exclusive or, as long as the shorter operand. -/
def xor (left right : Bytes) : Bytes :=
  List.zipWith (· ^^^ ·) left right

@[simp]
theorem length_xor (left right : Bytes) :
    (xor left right).length = min left.length right.length := by
  simp [xor]

/-- The number of values that `width` bytes can take. -/
def capacity : (width : Nat) → Nat
  | 0 => 1
  | width + 1 => 256 * capacity width

/-- The `width` bytes of `value`, least significant first; higher bytes are dropped. -/
def littleEndian : (width value : Nat) → Bytes
  | 0, _ => []
  | width + 1, value => UInt8.ofNat value :: littleEndian width (value / 256)

/-- The natural number with the given bytes, least significant first. -/
def ofLittleEndian : Bytes → Nat
  | [] => 0
  | byte :: rest => byte.toNat + 256 * ofLittleEndian rest

/-- The `width` bytes of `value`, most significant first; higher bytes are dropped. -/
def bigEndian (width value : Nat) : Bytes :=
  (littleEndian width value).reverse

/-- The natural number with the given bytes, most significant first. -/
def ofBigEndian (bytes : Bytes) : Nat :=
  ofLittleEndian bytes.reverse

@[simp]
theorem length_littleEndian (width value : Nat) :
    (littleEndian width value).length = width := by
  induction width generalizing value with
  | zero => rfl
  | succ width ih => simp [littleEndian, ih]

@[simp]
theorem length_bigEndian (width value : Nat) :
    (bigEndian width value).length = width := by
  simp [bigEndian]

/-- Reading the little-endian form gives the value back modulo its width. -/
theorem ofLittleEndian_littleEndian (width value : Nat) :
    ofLittleEndian (littleEndian width value) = value % capacity width := by
  induction width generalizing value with
  | zero => simp [littleEndian, ofLittleEndian, capacity, Nat.mod_one]
  | succ width ih =>
    have low : (UInt8.ofNat value).toNat = value % 256 := by simp
    rw [littleEndian, ofLittleEndian, ih, low, capacity, Nat.mod_mul]

/-- Reading the big-endian form gives the value back modulo its width. -/
theorem ofBigEndian_bigEndian (width value : Nat) :
    ofBigEndian (bigEndian width value) = value % capacity width := by
  simp [ofBigEndian, bigEndian, ofLittleEndian_littleEndian]

/-- A byte string reads as one of the values that so many bytes can take. -/
theorem ofLittleEndian_lt (bytes : Bytes) : ofLittleEndian bytes < capacity bytes.length := by
  induction bytes with
  | nil => simp [ofLittleEndian, capacity]
  | cons byte rest ih =>
    have bound := byte.toNat_lt
    simp only [ofLittleEndian, List.length_cons, capacity]
    omega

/-- Writing what was read gives the same bytes. -/
theorem littleEndian_ofLittleEndian (bytes : Bytes) :
    littleEndian bytes.length (ofLittleEndian bytes) = bytes := by
  induction bytes with
  | nil => rfl
  | cons byte rest ih =>
    have bound := byte.toNat_lt
    have low : UInt8.ofNat (byte.toNat + 256 * ofLittleEndian rest) = byte := by
      apply UInt8.toNat_inj.mp
      simp only [UInt8.toNat_ofNat']
      omega
    have high : (byte.toNat + 256 * ofLittleEndian rest) / 256 = ofLittleEndian rest := by
      omega
    simp only [ofLittleEndian, List.length_cons, littleEndian, low, high, ih]

/-- Writing what was read gives the same bytes. -/
theorem bigEndian_ofBigEndian (bytes : Bytes) :
    bigEndian bytes.length (ofBigEndian bytes) = bytes := by
  have written := littleEndian_ofLittleEndian bytes.reverse
  rw [List.length_reverse] at written
  simp [bigEndian, ofBigEndian, written]

/-- The UTF-8 form of a text. -/
def ofString (text : String) : Bytes :=
  text.toUTF8.data.toList

/-- The text with the given UTF-8 form, if there is one. -/
def toString? (bytes : Bytes) : Option String :=
  String.fromUTF8? ⟨bytes.toArray⟩

/-- A text is recovered from its UTF-8 form. -/
@[simp]
theorem toString?_ofString (text : String) : toString? (ofString text) = some text := by
  have whole : (⟨(ofString text).toArray⟩ : ByteArray) = text.toByteArray := by
    simp [ofString, String.toUTF8]
  rw [toString?, whole, String.fromUTF8?, dif_pos text.isValidUTF8]
  rfl

end Bytes

end Missive
