import ClassStub.Text.ModifiedUtf8

/-!
# Texts survive their encodings

`Utf16.decode?` reads a text back from its code units (`Utf16.decode?_encode`) and
`ModifiedUtf8.decode?` from its bytes (`ModifiedUtf8.decode?_encode`), for every text, with the
character zero and supplementary characters among them. Both readers work from the front and
keep what they have read in an accumulator, so each law is an induction over what was written,
whose step says what the reader does with one character or one unit.

In the other direction nothing is to be shown: `ModifiedUtf8.decode?` compares the bytes with
the encoding of its result (`ModifiedUtf8.decode?_eq_some_iff`).
-/

namespace ClassStub

namespace Utf16

/-- No character is a surrogate. -/
private theorem toNat_range (c : Char) :
    c.toNat < 0xD800 ∨ (0xDFFF < c.toNat ∧ c.toNat < 0x110000) := c.valid

private theorem decodeOnto_single (before : List Char) {unit : UInt16} (rest : List UInt16)
    (hhigh : isHigh unit = false) (hlow : isLow unit = false) :
    decodeOnto before (unit :: rest) = decodeOnto (Char.ofNat unit.toNat :: before) rest := by
  rw [decodeOnto.eq_def]
  simp [hhigh, hlow]

private theorem decodeOnto_pair (before : List Char) {high low : UInt16} (rest : List UInt16)
    (hhigh : isHigh high = true) (hlow : isLow low = true) :
    decodeOnto before (high :: low :: rest) = decodeOnto (joinPair high low :: before) rest := by
  rw [decodeOnto.eq_def]
  simp [hhigh, hlow]

/-- The units of one character are read as that character. -/
private theorem decodeOnto_encodeChar (before : List Char) (c : Char) (rest : List UInt16) :
    decodeOnto before (encodeChar c ++ rest) = decodeOnto (c :: before) rest := by
  have hrange := toNat_range c
  rw [encodeChar]
  split
  case isTrue hsmall =>
    have hunit : (UInt16.ofNat c.toNat).toNat = c.toNat := UInt16.toNat_ofNat_of_lt' hsmall
    have hhigh : isHigh (UInt16.ofNat c.toNat) = false := by
      simp only [isHigh, hunit, Bool.and_eq_false_iff, decide_eq_false_iff_not]
      omega
    have hlow : isLow (UInt16.ofNat c.toNat) = false := by
      simp only [isLow, hunit, Bool.and_eq_false_iff, decide_eq_false_iff_not]
      omega
    rw [List.singleton_append, decodeOnto_single _ _ hhigh hlow, hunit, Char.ofNat_toNat]
  case isFalse hlarge =>
    -- the ten upper and the ten lower bits of what is left above `0x10000`
    generalize hupper : (c.toNat - 0x10000) / 0x400 = upper
    generalize hlower : (c.toNat - 0x10000) % 0x400 = lower
    have hhighUnit : (UInt16.ofNat (0xD800 + upper)).toNat = 0xD800 + upper :=
      UInt16.toNat_ofNat_of_lt' (show _ < 0x10000 by omega)
    have hlowUnit : (UInt16.ofNat (0xDC00 + lower)).toNat = 0xDC00 + lower :=
      UInt16.toNat_ofNat_of_lt' (show _ < 0x10000 by omega)
    have hhigh : isHigh (UInt16.ofNat (0xD800 + upper)) = true := by
      simp only [isHigh, hhighUnit, Bool.and_eq_true, decide_eq_true_eq]
      omega
    have hlow : isLow (UInt16.ofNat (0xDC00 + lower)) = true := by
      simp only [isLow, hlowUnit, Bool.and_eq_true, decide_eq_true_eq]
      omega
    have hjoin : joinPair (UInt16.ofNat (0xD800 + upper)) (UInt16.ofNat (0xDC00 + lower)) = c := by
      have hnat : 0x10000 + (0xD800 + upper - 0xD800) * 0x400 + (0xDC00 + lower - 0xDC00) =
          c.toNat := by omega
      rw [joinPair, hhighUnit, hlowUnit, hnat, Char.ofNat_toNat]
    rw [List.cons_append, List.singleton_append, decodeOnto_pair _ _ hhigh hlow, hjoin]

private theorem decodeOnto_flatMap (chars before : List Char) :
    decodeOnto before (chars.flatMap encodeChar) = some (before.reverse ++ chars) := by
  induction chars generalizing before with
  | nil => simp [decodeOnto]
  | cons c chars ih =>
    rw [List.flatMap_cons, decodeOnto_encodeChar, ih]
    simp

/-- A text is read back from its units. -/
theorem decode?_encode (text : String) : decode? (encode text) = some text := by
  rw [decode?, encode, decodeOnto_flatMap]
  simp

end Utf16

namespace ModifiedUtf8

private theorem toNat_ofNat {n : Nat} (h : n < 0x100) : (UInt8.ofNat n).toNat = n :=
  UInt8.toNat_ofNat_of_lt' h

/-- A small unit is read from a single byte. -/
theorem unitsOnto_one (before : List UInt16) {a : UInt8} (rest : Bytes)
    (hpos : 0 < a.toNat) (hlt : a.toNat < 0x80) :
    unitsOnto before (a :: rest) = unitsOnto (UInt16.ofNat a.toNat :: before) rest := by
  rw [unitsOnto.eq_def]
  simp [hlt, Nat.pos_iff_ne_zero.1 hpos]

/-- A unit is read from two bytes by the mark of the first one. -/
theorem unitsOnto_two (before : List UInt16) {a b : UInt8} (rest : Bytes)
    (hlead : 0xC0 ≤ a.toNat ∧ a.toNat < 0xE0) (hcont : isContinuation b = true) :
    unitsOnto before (a :: b :: rest) = unitsOnto (unitOfTwo a b :: before) rest := by
  rw [unitsOnto.eq_def]
  simp only [hcont, if_true]
  rw [if_neg (by omega), if_neg (by omega), if_pos hlead]

/-- A unit is read from three bytes by the mark of the first one. -/
theorem unitsOnto_three (before : List UInt16) {a b c : UInt8} (rest : Bytes)
    (hlead : 0xE0 ≤ a.toNat ∧ a.toNat < 0xF0) (hcont₁ : isContinuation b = true)
    (hcont₂ : isContinuation c = true) :
    unitsOnto before (a :: b :: c :: rest) = unitsOnto (unitOfThree a b c :: before) rest := by
  rw [unitsOnto.eq_def]
  simp only [hcont₁, hcont₂, Bool.and_self, if_true]
  rw [if_neg (by omega), if_neg (by omega), if_neg (by omega), if_pos hlead]

/-- Six bits under the mark `10` make a byte that continues a group. -/
private theorem isContinuation_ofNat (n : Nat) :
    isContinuation (UInt8.ofNat (0x80 + n % 0x40)) = true := by
  rw [isContinuation, toNat_ofNat (by omega), Bool.and_eq_true, decide_eq_true_eq,
    decide_eq_true_eq]
  omega

/-- The bytes of one unit are read as that unit. -/
private theorem unitsOnto_encodeUnit (before : List UInt16) (unit : UInt16) (rest : Bytes) :
    unitsOnto before (encodeUnit unit ++ rest) = unitsOnto (unit :: before) rest := by
  have hlt : unit.toNat < 0x10000 := unit.toNat_lt
  have hlast := toNat_ofNat (show 0x80 + unit.toNat % 0x40 < 0x100 by omega)
  rw [encodeUnit]
  split
  case isTrue hone =>
    have ha := toNat_ofNat (show unit.toNat < 0x100 by omega)
    rw [List.singleton_append, unitsOnto_one _ _ (by omega) (by omega), ha, UInt16.ofNat_toNat]
  case isFalse hone =>
    split
    case isTrue htwo =>
      have ha := toNat_ofNat (show 0xC0 + unit.toNat / 0x40 < 0x100 by omega)
      have hunit : unitOfTwo (UInt8.ofNat (0xC0 + unit.toNat / 0x40))
          (UInt8.ofNat (0x80 + unit.toNat % 0x40)) = unit := by
        rw [unitOfTwo, ha, hlast, show (0xC0 + unit.toNat / 0x40) % 0x20 * 0x40 +
          (0x80 + unit.toNat % 0x40) % 0x40 = unit.toNat by omega, UInt16.ofNat_toNat]
      rw [List.cons_append, List.singleton_append, unitsOnto_two _ _ (by omega)
        (isContinuation_ofNat _), hunit]
    case isFalse htwo =>
      have ha := toNat_ofNat (show 0xE0 + unit.toNat / 0x1000 < 0x100 by omega)
      have hb := toNat_ofNat (show 0x80 + unit.toNat / 0x40 % 0x40 < 0x100 by omega)
      have hunit : unitOfThree (UInt8.ofNat (0xE0 + unit.toNat / 0x1000))
          (UInt8.ofNat (0x80 + unit.toNat / 0x40 % 0x40))
          (UInt8.ofNat (0x80 + unit.toNat % 0x40)) = unit := by
        rw [unitOfThree, ha, hb, hlast, show (0xE0 + unit.toNat / 0x1000) % 0x10 * 0x1000 +
          (0x80 + unit.toNat / 0x40 % 0x40) % 0x40 * 0x40 + (0x80 + unit.toNat % 0x40) % 0x40 =
            unit.toNat by omega, UInt16.ofNat_toNat]
      rw [List.cons_append, List.cons_append, List.singleton_append, unitsOnto_three _ _
        (by omega) (isContinuation_ofNat _) (isContinuation_ofNat _), hunit]

private theorem unitsOnto_flatMap (units before : List UInt16) :
    unitsOnto before (units.flatMap encodeUnit) = some (before.reverse ++ units) := by
  induction units generalizing before with
  | nil => simp [unitsOnto]
  | cons unit units ih =>
    rw [List.flatMap_cons, unitsOnto_encodeUnit, ih]
    simp

/-- The units of a text are read back from its bytes. -/
theorem units?_encode (text : String) : units? (encode text) = some (Utf16.encode text) := by
  rw [units?, encode, unitsOnto_flatMap, List.reverse_nil, List.nil_append]

/-- A text is read back from its bytes. -/
theorem decode?_encode (text : String) : decode? (encode text) = some text := by
  simp [decode?, units?_encode, Utf16.decode?_encode]

/-- A text is read from its encoding and from no other bytes. -/
theorem decode?_eq_some_iff {bytes : Bytes} {text : String} :
    decode? bytes = some text ↔ bytes = encode text := by
  constructor
  · intro h
    simp only [decode?, Option.bind_eq_bind, Option.bind_eq_some_iff] at h
    obtain ⟨units, -, found, -, h⟩ := h
    split at h
    case isTrue hbytes =>
      obtain rfl := Option.some.inj h
      exact (beq_iff_eq.1 hbytes).symm
    case isFalse => exact absurd h (by simp)
  · rintro rfl
    exact decode?_encode text

end ModifiedUtf8

end ClassStub
