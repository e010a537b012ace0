import Mathlib.Algebra.Order.Ring.Nat
import Mathlib.Data.Nat.ModEq

/-!
# Little-endian numbers

Numbers of a fixed width in bytes, lowest byte first.

Main results:

- Theorem {lit}`LittleEndian.value_bytes`: a number that fits its width is read back.
- Theorem {lit}`LittleEndian.bytes_value`: the bytes of a number that was read are the ones it
  was read from.
-/

namespace LittleEndian

/-- The lowest {lit}`width` bytes of a number. -/
def bytes : Nat → Nat → List UInt8
  | 0, _ => []
  | width + 1, n => UInt8.ofNat n :: bytes width (n / 256)

def value : List UInt8 → Nat
  | [] => 0
  | low :: rest => low.toNat + 256 * value rest

@[simp]
theorem length_bytes (width n : Nat) : (bytes width n).length = width := by
  induction width generalizing n with
  | zero => rfl
  | succ width ih => rw [bytes, List.length_cons, ih]

theorem value_bytes {width n : Nat} (fits : n < 256 ^ width) : value (bytes width n) = n := by
  induction width generalizing n with
  | zero =>
      rw [Nat.pow_zero] at fits
      have zero : n = 0 := by omega
      rw [zero]
      rfl
  | succ width ih =>
      have high : n / 256 < 256 ^ width := by
        rw [Nat.pow_succ] at fits
        exact Nat.div_lt_of_lt_mul (by rwa [Nat.mul_comm])
      have low : (UInt8.ofNat n).toNat = n % 256 := rfl
      rw [bytes, value, ih high, low]
      omega

theorem value_lt (encoded : List UInt8) : value encoded < 256 ^ encoded.length := by
  induction encoded with
  | nil => exact Nat.one_pos
  | cons low rest ih =>
      have small : low.toNat < 256 := low.toNat_lt
      rw [value, List.length_cons, Nat.pow_succ]
      omega

theorem bytes_value (encoded : List UInt8) : bytes encoded.length (value encoded) = encoded := by
  induction encoded with
  | nil => rfl
  | cons low rest ih =>
      have small : low.toNat < 256 := low.toNat_lt
      have high : (low.toNat + 256 * value rest) / 256 = value rest := by omega
      have lowest : UInt8.ofNat (low.toNat + 256 * value rest) = low := by
        rw [← UInt8.toNat_inj]
        change (low.toNat + 256 * value rest) % 256 = low.toNat
        omega
      rw [value, List.length_cons, bytes, high, lowest, ih]

end LittleEndian
