/-!
# Byte strings and big-endian numbers

A class file is a string of bytes in which every number is written with its most significant
byte first. `bigEndian` writes a number in a fixed number of bytes and `ofBigEndian` reads one
back.
-/

namespace ClassStub

/-- A string of bytes. -/
abbrev Bytes := List UInt8

/-- The lowest `width` bytes of a number, most significant byte first. Higher digits are
dropped, so a number that does not fit wraps around. -/
def bigEndian : (width : Nat) → (n : Nat) → Bytes
  | 0, _ => []
  | k + 1, n => UInt8.ofNat (n >>> (8 * k)) :: bigEndian k n

/-- The number whose digits in base 256 are the given bytes, most significant byte first. -/
def ofBigEndian (bytes : Bytes) : Nat :=
  bytes.foldl (fun n byte => n * 256 + byte.toNat) 0

@[simp] theorem length_bigEndian (width n : Nat) : (bigEndian width n).length = width := by
  induction width with
  | zero => rfl
  | succ k ih => simp [bigEndian, ih]

end ClassStub
