import LimitOrderBook.BigEndian

/-!
# Numbers in little-endian bytes

A number in a fixed count of bytes, the least significant one first.  Read from
the last byte to the first, such bytes are big-endian.
-/

namespace LittleEndian

/-- The last bytes of a number, the least significant one first. -/
def bytes (value : Nat) : Nat → List UInt8
  | 0 => []
  | count + 1 => UInt8.ofNat (value % 256) :: bytes (value / 256) count

/-- The number that some bytes stand for. -/
def number : List UInt8 → Nat
  | [] => 0
  | digit :: rest => digit.toNat + 256 * number rest

/-- Both orders agree on the reversed bytes. -/
theorem number_reverse (digits : List UInt8) :
    BigEndian.number digits.reverse = number digits := by
  induction digits with
  | nil => rfl
  | cons digit rest inductionHypothesis =>
      rw [List.reverse_cons, BigEndian.number_concat, inductionHypothesis,
        number, Nat.mul_comm, Nat.add_comm]

theorem reverse_bytes (value count : Nat) :
    (bytes value count).reverse = BigEndian.bytes value count := by
  induction count generalizing value with
  | zero => rfl
  | succ count inductionHypothesis =>
      rw [bytes, List.reverse_cons, inductionHypothesis, BigEndian.bytes]

@[simp] theorem length_bytes (value count : Nat) :
    (bytes value count).length = count := by
  rw [← List.length_reverse, reverse_bytes, BigEndian.length_bytes]

theorem number_bytes (value count : Nat) :
    number (bytes value count) = value % 256 ^ count := by
  rw [← number_reverse, reverse_bytes, BigEndian.number_bytes]

/-- A number that fits in the bytes is read back. -/
theorem number_bytes_of_lt
    {value count : Nat} (fits : value < 256 ^ count) :
    number (bytes value count) = value := by
  rw [number_bytes, Nat.mod_eq_of_lt fits]

end LittleEndian
