import ClassStub.Proofs.Text

/-!
# The bytes of a text, character by character

`ModifiedUtf8.encode` cuts a text into UTF-16 units and writes each of them on its own. The same
bytes can be had without units, from the code points: those below `0x80` other than zero are a
byte, those up to `0x7FF` and zero are two, the others below `0x10000` are three, and the rest are
six, which are two groups of three (`ModifiedUtf8.encode_eq_flatMap`). The bits of a code point
are spread over the bytes of a group from the front, six bits to each byte but the first.

Reading undoes this for every text, and accepts no other bytes
(`ModifiedUtf8.decode?_iff_encode`).
-/

namespace ClassStub.ModifiedUtf8

/-- A group of three bytes: four bits under the mark `1110`, then twice six under `10`. -/
def threeBytes (n : Nat) : Bytes :=
  [UInt8.ofNat (0xE0 ||| n >>> 12), UInt8.ofNat (0x80 ||| n >>> 6 &&& 0x3F),
    UInt8.ofNat (0x80 ||| n &&& 0x3F)]

/-- The bytes of a character, by the range that its code point lies in. Above `0xFFFF` these are
two groups, each with ten bits of the distance to `0x10000`. -/
def bytesOfChar (c : Char) : Bytes :=
  let n := c.toNat
  if 0x01 ≤ n ∧ n ≤ 0x7F then
    [UInt8.ofNat n]
  else if n ≤ 0x7FF then
    [UInt8.ofNat (0xC0 ||| n >>> 6), UInt8.ofNat (0x80 ||| n &&& 0x3F)]
  else if n ≤ 0xFFFF then
    threeBytes n
  else
    threeBytes (0xD800 ||| (n - 0x10000) >>> 10) ++ threeBytes (0xDC00 ||| n - 0x10000 &&& 0x3FF)

/-! ### Bits and numbers -/

private theorem mark_or_six (n : Nat) : 0x80 ||| n &&& 0x3F = 0x80 + n % 0x40 := by
  have hbits : n &&& 0x3F = n % 2 ^ 6 := Nat.and_two_pow_sub_one_eq_mod n 6
  rw [hbits]
  exact (Nat.two_pow_add_eq_or_of_lt (i := 7) (by omega) 1).symm

private theorem threeBytes_eq {n : Nat} (h : n < 0x10000) :
    threeBytes n = [UInt8.ofNat (0xE0 + n / 0x1000), UInt8.ofNat (0x80 + n / 0x40 % 0x40),
      UInt8.ofNat (0x80 + n % 0x40)] := by
  have hlead : 0xE0 ||| n / 2 ^ 12 = 0xE0 + n / 0x1000 :=
    (Nat.two_pow_add_eq_or_of_lt (i := 5) (by omega) 7).symm
  rw [threeBytes, mark_or_six, mark_or_six, Nat.shiftRight_eq_div_pow, Nat.shiftRight_eq_div_pow,
    hlead]

private theorem encodeUnit_ofNat {n : Nat} (h : n < 0x10000) :
    encodeUnit (UInt16.ofNat n) =
      if 0x01 ≤ n ∧ n ≤ 0x7F then
        [UInt8.ofNat n]
      else if n ≤ 0x7FF then
        [UInt8.ofNat (0xC0 ||| n >>> 6), UInt8.ofNat (0x80 ||| n &&& 0x3F)]
      else
        threeBytes n := by
  have hunit : (UInt16.ofNat n).toNat = n := UInt16.toNat_ofNat_of_lt' h
  rw [encodeUnit, hunit, threeBytes_eq h, mark_or_six]
  split
  case isTrue hone => rw [if_pos (by omega : 0x01 ≤ n ∧ n ≤ 0x7F)]
  case isFalse hone =>
    rw [if_neg (by omega : ¬(0x01 ≤ n ∧ n ≤ 0x7F))]
    split
    case isTrue htwo =>
      have hlead : 0xC0 ||| n / 2 ^ 6 = 0xC0 + n / 0x40 :=
        (Nat.two_pow_add_eq_or_of_lt (i := 6) (by omega) 3).symm
      rw [if_pos (by omega : n ≤ 0x7FF), Nat.shiftRight_eq_div_pow, hlead]
    case isFalse htwo => rw [if_neg (by omega : ¬n ≤ 0x7FF)]

/-- The units of a surrogate pair are large, so each is a group of three bytes. -/
private theorem encodeUnit_of_large {n : Nat} (hlarge : 0x7FF < n) (hlt : n < 0x10000) :
    encodeUnit (UInt16.ofNat n) = threeBytes n := by
  rw [encodeUnit_ofNat hlt, if_neg (by omega), if_neg (by omega)]

/-! ### Texts -/

private theorem flatMap_encodeUnit_encodeChar (c : Char) :
    (Utf16.encodeChar c).flatMap encodeUnit = bytesOfChar c := by
  have hrange : c.toNat < 0xD800 ∨ (0xDFFF < c.toNat ∧ c.toNat < 0x110000) := c.valid
  rw [Utf16.encodeChar, bytesOfChar]
  split
  case isTrue hsmall =>
    rw [List.flatMap_singleton, encodeUnit_ofNat hsmall, if_pos (by omega : c.toNat ≤ 0xFFFF)]
  case isFalse hlarge =>
    -- ten bits fit under the marks of the two surrogates
    generalize hdistance : c.toNat - 0x10000 = distance
    have hlow : distance &&& 0x3FF = distance % 2 ^ 10 := Nat.and_two_pow_sub_one_eq_mod distance 10
    have hhighMark : 0xD800 ||| distance / 2 ^ 10 = 0xD800 + distance / 0x400 :=
      (Nat.two_pow_add_eq_or_of_lt (i := 11) (by omega) 27).symm
    have hlowMark : 0xDC00 ||| distance % 2 ^ 10 = 0xDC00 + distance % 0x400 :=
      (Nat.two_pow_add_eq_or_of_lt (i := 10) (by omega) 55).symm
    rw [if_neg (by omega), if_neg (by omega), if_neg (by omega), Nat.shiftRight_eq_div_pow, hlow,
      hhighMark, hlowMark, List.flatMap_cons, List.flatMap_singleton,
      encodeUnit_of_large (by omega) (by omega), encodeUnit_of_large (by omega) (by omega)]

/-- The bytes of a text are those of its characters. -/
theorem encode_eq_flatMap (text : String) : encode text = text.toList.flatMap bytesOfChar := by
  rw [encode, Utf16.encode, List.flatMap_assoc]
  exact congrArg (text.toList.flatMap ·) (funext flatMap_encodeUnit_encodeChar)

/-- **Texts and their bytes correspond.** A text is read from its encoding and from nothing else.
So every text survives, no two byte strings are read as the same text, and the bytes are those
that the ranges of code points prescribe: zero, for one, is `C0 80`. -/
theorem decode?_iff_encode :
    (∀ (bytes : Bytes) (text : String), decode? bytes = some text ↔ bytes = encode text) ∧
      (∀ text, decode? (encode text) = some text) ∧
      (∀ first second text, decode? first = some text → decode? second = some text →
        first = second) ∧
      ∀ text, encode text = text.toList.flatMap bytesOfChar := by
  refine ⟨fun bytes text => decode?_eq_some_iff, decode?_encode, ?_, encode_eq_flatMap⟩
  intro first second text hfirst hsecond
  rw [decode?_eq_some_iff.1 hfirst, decode?_eq_some_iff.1 hsecond]

example : encode "a\x00😀" = [0x61, 0xC0, 0x80, 0xED, 0xA0, 0xBD, 0xED, 0xB8, 0x80] := by decide

end ClassStub.ModifiedUtf8
