import Mathlib.Algebra.Ring.Nat
import ClassStub.Bytes

/-!
# Digits in base 256

The bytes of a number are its digits in base 256. Writing a number in a fixed number of bytes and
reading it back are inverse to each other as far as the width allows (`ofBigEndian_bigEndian`,
`bigEndian_ofBigEndian`).
-/

namespace ClassStub

private theorem bigEndian_succ (width n : Nat) :
    bigEndian (width + 1) n = UInt8.ofNat (n / 256 ^ width) :: bigEndian width n := by
  rw [bigEndian, Nat.shiftRight_eq_div_pow, Nat.pow_mul]

private theorem foldl_digits (bytes : Bytes) (n : Nat) :
    bytes.foldl (fun n byte => n * 256 + byte.toNat) n =
      n * 256 ^ bytes.length + ofBigEndian bytes := by
  induction bytes generalizing n with
  | nil => simp [ofBigEndian]
  | cons b bs ih =>
    simp only [List.foldl_cons, List.length_cons, ofBigEndian, Nat.zero_mul, Nat.zero_add]
    rw [ih, ih b.toNat, Nat.pow_succ, Nat.add_mul, Nat.mul_assoc, Nat.mul_comm 256, Nat.add_assoc]

/-- The first byte counts most. -/
theorem ofBigEndian_cons (b : UInt8) (bs : Bytes) :
    ofBigEndian (b :: bs) = b.toNat * 256 ^ bs.length + ofBigEndian bs := by
  rw [ofBigEndian, List.foldl_cons, Nat.zero_mul, Nat.zero_add, foldl_digits]

/-- A number is smaller than the power of its bytes. -/
theorem ofBigEndian_lt (bytes : Bytes) : ofBigEndian bytes < 256 ^ bytes.length := by
  induction bytes with
  | nil => simp [ofBigEndian]
  | cons b bs ih =>
    have hb : b.toNat + 1 ≤ 256 := b.toNat_lt
    have hm := Nat.mul_le_mul_right (256 ^ bs.length) hb
    rw [Nat.add_mul, Nat.one_mul] at hm
    rw [ofBigEndian_cons, List.length_cons, Nat.pow_succ, Nat.mul_comm _ 256]
    omega

/-- Reading what was written gives the number back, reduced to the width. -/
theorem ofBigEndian_bigEndian (width n : Nat) :
    ofBigEndian (bigEndian width n) = n % 256 ^ width := by
  induction width with
  | zero => simp [bigEndian, ofBigEndian, Nat.mod_one]
  | succ k ih =>
    rw [bigEndian_succ, ofBigEndian_cons, length_bigEndian, ih, Nat.pow_succ, Nat.mod_mul,
      UInt8.toNat_ofNat', Nat.mul_comm (256 ^ k), show 2 ^ 8 = 256 from rfl, Nat.add_comm]

/-- Only the lowest `width` digits of a number are written. -/
private theorem bigEndian_mod (width n m : Nat) :
    bigEndian width (n % 256 ^ (width + m)) = bigEndian width n := by
  induction width generalizing m with
  | zero => rfl
  | succ k ih =>
    have hmod : n % 256 ^ (k + 1 + m) / 256 ^ k % 256 = n / 256 ^ k % 256 := by
      rw [show k + 1 + m = k + (m + 1) by omega, Nat.pow_add, Nat.mod_mul_right_div_self,
        Nat.pow_succ, Nat.mod_mul_left_mod]
    have hbyte : UInt8.ofNat (n % 256 ^ (k + 1 + m) / 256 ^ k) = UInt8.ofNat (n / 256 ^ k) := by
      rw [← UInt8.toNat_inj, UInt8.toNat_ofNat', UInt8.toNat_ofNat']
      exact hmod
    rw [bigEndian_succ, bigEndian_succ, hbyte, show k + 1 + m = k + (1 + m) by omega, ih (1 + m)]

/-- Writing a number that was read gives the same bytes. -/
theorem bigEndian_ofBigEndian (bytes : Bytes) :
    bigEndian bytes.length (ofBigEndian bytes) = bytes := by
  induction bytes with
  | nil => rfl
  | cons b bs ih =>
    have hlt := ofBigEndian_lt bs
    have hpos : 0 < 256 ^ bs.length := Nat.pow_pos (by omega)
    rw [List.length_cons, bigEndian_succ, ofBigEndian_cons]
    congr 1
    · rw [Nat.mul_comm, Nat.mul_add_div hpos, Nat.div_eq_of_lt hlt, Nat.add_zero,
        UInt8.ofNat_toNat]
    · rw [← bigEndian_mod bs.length _ 0, Nat.add_zero, Nat.mul_comm, Nat.mul_add_mod,
        Nat.mod_eq_of_lt hlt, ih]

end ClassStub
