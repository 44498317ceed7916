import ClassStub.Bytes
import ClassStub.Text.Utf16

/-!
# Modified UTF-8

The text encoding of class files. Each UTF-16 code unit of a text is written on its own, in
one, two or three bytes; a supplementary character is therefore two groups of three bytes, and
the unit zero takes two bytes, so that no zero byte occurs.

* `encode` writes a text.
* `units?` reads the units of a *well-formed* byte string, one whose groups are complete. It
  allows groups that are longer than needed and surrogates without a partner.
* `decode?` reads a text, and only from the bytes that `encode` writes for it, so that reading
  loses nothing.
-/

namespace ClassStub.ModifiedUtf8

/-! ### Writing -/

/-- The bytes of one code unit: as few as will hold it, but two for the unit zero. -/
def encodeUnit (unit : UInt16) : Bytes :=
  let n := unit.toNat
  if 0 < n ∧ n < 0x80 then
    [UInt8.ofNat n]
  else if n < 0x800 then
    [UInt8.ofNat (0xC0 + n / 0x40), UInt8.ofNat (0x80 + n % 0x40)]
  else
    [UInt8.ofNat (0xE0 + n / 0x1000), UInt8.ofNat (0x80 + n / 0x40 % 0x40),
      UInt8.ofNat (0x80 + n % 0x40)]

/-- The bytes of a text. -/
def encode (text : String) : Bytes := (Utf16.encode text).flatMap encodeUnit

/-! ### Reading -/

/-- A byte that continues a group. -/
def isContinuation (byte : UInt8) : Bool := 0x80 ≤ byte.toNat && byte.toNat < 0xC0

/-- The unit of a group of two bytes. -/
def unitOfTwo (a b : UInt8) : UInt16 :=
  UInt16.ofNat (a.toNat % 0x20 * 0x40 + b.toNat % 0x40)

/-- The unit of a group of three bytes. -/
def unitOfThree (a b c : UInt8) : UInt16 :=
  UInt16.ofNat (a.toNat % 0x10 * 0x1000 + b.toNat % 0x40 * 0x40 + c.toNat % 0x40)

/-- Reads groups behind the units `before`, which stand in reverse order. -/
def unitsOnto (before : List UInt16) : Bytes → Option (List UInt16)
  | [] => some before.reverse
  | a :: rest =>
    if a.toNat = 0 then
      none
    else if a.toNat < 0x80 then
      unitsOnto (UInt16.ofNat a.toNat :: before) rest
    else if 0xC0 ≤ a.toNat ∧ a.toNat < 0xE0 then
      match rest with
      | b :: rest =>
        if isContinuation b then unitsOnto (unitOfTwo a b :: before) rest else none
      | [] => none
    else if 0xE0 ≤ a.toNat ∧ a.toNat < 0xF0 then
      match rest with
      | b :: c :: rest =>
        if isContinuation b && isContinuation c then
          unitsOnto (unitOfThree a b c :: before) rest
        else
          none
      | _ => none
    else
      none

/-- The code units of a byte string, if all its groups are complete. -/
def units? (bytes : Bytes) : Option (List UInt16) := unitsOnto [] bytes

/-- Every group of the byte string is complete. -/
def isWellFormed (bytes : Bytes) : Bool := (units? bytes).isSome

/-- The text whose encoding the byte string is, if there is one. -/
def decode? (bytes : Bytes) : Option String := do
  let units ← units? bytes
  let text ← Utf16.decode? units
  if encode text == bytes then some text else none

end ClassStub.ModifiedUtf8
