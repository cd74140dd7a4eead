import LimitOrderBook.BigEndian
import Mathlib.Data.List.Range

/-!
# Fields of a byte vector

Bytes and big-endian numbers at fixed positions of a vector of any size.  A
write changes its own field, every field apart from it keeps its value, and a
vector is known by the fields that cover it.
-/

namespace ByteFields

variable {size : Nat}

/-- The byte at a position; positions outside read as zero. -/
def byteAt (b : Vector UInt8 size) (position : Nat) : UInt8 :=
  b[position]?.getD 0

def setByte (b : Vector UInt8 size) (position : Nat) (value : UInt8) :
    Vector UInt8 size :=
  b.setIfInBounds position value

/-- Write a number in some bytes, the last byte first. -/
def putNumber (b : Vector UInt8 size) (position value : Nat) :
    Nat → Vector UInt8 size
  | 0 => b
  | count + 1 =>
      putNumber (setByte b (position + count) (UInt8.ofNat (value % 256)))
        position (value / 256) count

/-- Read a number from some bytes. -/
def getNumber (b : Vector UInt8 size) (position count : Nat) : Nat :=
  (List.range count).foldl
    (fun value i => value * 256 + (byteAt b (position + i)).toNat) 0

/-- The bytes that `getNumber` reads. -/
def slice (b : Vector UInt8 size) (position count : Nat) : List UInt8 :=
  (List.range count).map fun i => byteAt b (position + i)

variable {b first second : Vector UInt8 size}
  {position other value count otherCount : Nat} {raw : UInt8}

/-- A frame starts with zeros. -/
theorem byteAt_replicate (size position : Nat) :
    byteAt (Vector.replicate size 0) position = 0 := by
  rw [byteAt, Vector.getElem?_replicate]
  split_ifs
  · rfl
  · rfl

/-- A byte that was written is read back. -/
theorem byteAt_setByte_same (inside : position < size) :
    byteAt (setByte b position raw) position = raw := by
  simp [byteAt, setByte, inside]

/-- Writing a byte changes no other. -/
theorem byteAt_setByte_other (different : position ≠ other) :
    byteAt (setByte b position raw) other = byteAt b other := by
  simp [byteAt, setByte, different]

/-- Writing a number changes its own bytes only. -/
theorem byteAt_putNumber_other
    (outside : other < position ∨ position + count ≤ other) :
    byteAt (putNumber b position value count) other = byteAt b other := by
  induction count generalizing b value with
  | zero => rfl
  | succ count inductionHypothesis =>
      rw [putNumber, inductionHypothesis (by omega),
        byteAt_setByte_other (by omega)]

/-- The bytes of a number that was written. -/
theorem slice_putNumber (inside : position + count ≤ size) :
    slice (putNumber b position value count) position count =
      BigEndian.bytes value count := by
  induction count generalizing b value with
  | zero => rfl
  | succ count inductionHypothesis =>
      have earlier := @inductionHypothesis
        (setByte b (position + count) (UInt8.ofNat (value % 256)))
        (value / 256) (by omega)
      unfold slice at earlier ⊢
      rw [List.range_succ, List.map_append, putNumber, earlier,
        BigEndian.bytes, List.map_singleton, byteAt_putNumber_other (by omega),
        byteAt_setByte_same (by omega)]

/-- Numbers are read with the most significant byte first. -/
theorem getNumber_eq_number (b : Vector UInt8 size) (position count : Nat) :
    getNumber b position count =
      BigEndian.number (slice b position count) := by
  rw [getNumber, slice, BigEndian.number, List.foldl_map]

/-- A number that was written is read back, up to its width. -/
theorem getNumber_putNumber_same (inside : position + count ≤ size) :
    getNumber (putNumber b position value count) position count =
      value % 256 ^ count := by
  rw [getNumber_eq_number, slice_putNumber inside, BigEndian.number_bytes]

theorem getNumber_replicate (size position count : Nat) :
    getNumber (Vector.replicate size 0) position count = 0 := by
  unfold getNumber
  induction count with
  | zero => rfl
  | succ count inductionHypothesis =>
      rw [List.range_succ, List.foldl_append, inductionHypothesis,
        List.foldl_cons, byteAt_replicate]
      rfl

/-- A number depends on its own bytes only. -/
theorem getNumber_congr
    (same : ∀ i < count,
      byteAt first (position + i) = byteAt second (position + i)) :
    getNumber first position count = getNumber second position count := by
  rw [getNumber_eq_number, getNumber_eq_number, slice, slice]
  congr 1
  exact List.map_congr_left fun i member => same i (List.mem_range.mp member)

/-- Numbers in different places do not meet. -/
theorem getNumber_putNumber_other
    (apart : other + otherCount ≤ position ∨ position + count ≤ other) :
    getNumber (putNumber b position value count) other otherCount =
      getNumber b other otherCount :=
  getNumber_congr fun _ _ => byteAt_putNumber_other (by omega)

theorem getNumber_setByte_other
    (apart : position < other ∨ other + otherCount ≤ position) :
    getNumber (setByte b position raw) other otherCount =
      getNumber b other otherCount :=
  getNumber_congr fun _ _ => byteAt_setByte_other (by omega)

theorem length_slice (b : Vector UInt8 size) (position count : Nat) :
    (slice b position count).length = count := by
  simp [slice]

/-- So many bytes bound a number. -/
theorem getNumber_lt (b : Vector UInt8 size) (position count : Nat) :
    getNumber b position count < 256 ^ count := by
  have small := BigEndian.number_lt (slice b position count)
  rwa [length_slice, ← getNumber_eq_number] at small

/-- Vectors with the same number have the same bytes there. -/
theorem byteAt_eq_of_getNumber
    (same : getNumber first position count = getNumber second position count)
    (here : position ≤ other ∧ other < position + count) :
    byteAt first other = byteAt second other := by
  rw [getNumber_eq_number, getNumber_eq_number] at same
  have sameSlice := BigEndian.number_inj
    ((length_slice ..).trans (length_slice ..).symm) same
  have sameByte := congrArg (fun bytes => bytes[other - position]?) sameSlice
  have inRange : other - position < count := by omega
  have isOther : position + (other - position) = other := by omega
  simpa [slice, inRange, isOther] using sameByte

/-- Vectors with the same bytes are the same. -/
theorem ext_byteAt
    (same : ∀ position < size, byteAt first position = byteAt second position) :
    first = second := by
  apply Vector.ext
  intro position inside
  have sameByte := same position inside
  simpa [byteAt, inside] using sameByte

end ByteFields
