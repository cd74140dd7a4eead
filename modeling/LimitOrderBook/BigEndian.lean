import Mathlib.Data.UInt

/-!
# Numbers in big-endian bytes

A number is written in a fixed count of bytes, the most significant one first,
and read back modulo what so many bytes can hold.
-/

namespace BigEndian

/-- The last bytes of a number. -/
def bytes (value : Nat) : Nat → List UInt8
  | 0 => []
  | count + 1 => bytes (value / 256) count ++ [UInt8.ofNat (value % 256)]

/-- The number that some bytes stand for. -/
def number (digits : List UInt8) : Nat :=
  digits.foldl (fun value digit => value * 256 + digit.toNat) 0

@[simp] theorem length_bytes (value count : Nat) :
    (bytes value count).length = count := by
  induction count generalizing value with
  | zero => rfl
  | succ count inductionHypothesis =>
      simp [bytes, inductionHypothesis]

theorem number_concat (digits : List UInt8) (digit : UInt8) :
    number (digits ++ [digit]) = number digits * 256 + digit.toNat := by
  simp [number]

theorem number_bytes (value count : Nat) :
    number (bytes value count) = value % 256 ^ count := by
  induction count generalizing value with
  | zero => simp [bytes, number, Nat.mod_one]
  | succ count inductionHypothesis =>
      have digit : (UInt8.ofNat (value % 256)).toNat = value % 256 :=
        UInt8.toNat_ofNat_of_lt' (Nat.mod_lt _ (by decide))
      rw [bytes, number_concat, inductionHypothesis, digit, pow_succ,
        Nat.mul_comm (256 ^ count), Nat.mod_mul]
      omega

/-- Numbers that fit are told apart by their bytes. -/
theorem bytes_inj
    {first second count : Nat} (firstFits : first < 256 ^ count)
    (secondFits : second < 256 ^ count)
    (same : bytes first count = bytes second count) : first = second := by
  have sameNumber := congrArg number same
  rwa [number_bytes, number_bytes, Nat.mod_eq_of_lt firstFits,
    Nat.mod_eq_of_lt secondFits] at sameNumber

/-- The bytes of a number that was read are the ones it was read from. -/
theorem bytes_number (digits : List UInt8) :
    bytes (number digits) digits.length = digits := by
  induction digits using List.reverseRecOn with
  | nil => rfl
  | append_singleton digits digit inductionHypothesis =>
      have small := digit.toNat_lt
      have quotient : (number digits * 256 + digit.toNat) / 256 =
          number digits := by omega
      have remainder : (number digits * 256 + digit.toNat) % 256 =
          digit.toNat := by omega
      rw [number_concat, List.length_append, List.length_singleton, bytes,
        quotient, remainder, inductionHypothesis, UInt8.ofNat_toNat]

theorem number_inj
    {first second : List UInt8} (sameLength : first.length = second.length)
    (same : number first = number second) : first = second := by
  rw [← bytes_number first, ← bytes_number second, sameLength, same]

theorem number_lt (digits : List UInt8) :
    number digits < 256 ^ digits.length := by
  have whole := number_bytes (number digits) digits.length
  rw [bytes_number] at whole
  rw [whole]
  exact Nat.mod_lt _ (Nat.pow_pos (by decide))

end BigEndian
