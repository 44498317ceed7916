/-!
# Texts as their UTF-8 bytes

The bytes of a text are those of its characters, one after another (`toList_toUTF8`). A character
below `0x80` is a single byte, and this byte occurs in the encoding of no other character. So a
byte string that is the encoding of a text can be cut at such a byte, and the two parts are
encodings as well (`exists_split_of_utf8`).
-/

namespace ClassStub

private theorem toList_loop_eq (bytes : ByteArray) (i : Nat) (front : List UInt8) :
    ByteArray.toList.loop bytes i front = front.reverse ++ bytes.data.toList.drop i := by
  fun_induction ByteArray.toList.loop bytes i front with
  | case1 i front hlt ih =>
    have hsize : i < bytes.data.toList.length := hlt
    have hbyte : bytes.get! i = bytes.data.toList[i] := getElem!_pos bytes.data i hlt
    rw [ih, List.reverse_cons, List.append_assoc, List.singleton_append, hbyte,
      List.getElem_cons_drop]
  | case2 i front hge =>
    have hsize : bytes.data.toList.length ≤ i := Nat.le_of_not_lt hge
    rw [List.drop_eq_nil_of_le hsize, List.append_nil]

theorem toList_toUTF8 (text : String) :
    text.toUTF8.toList = text.toList.flatMap String.utf8EncodeChar := by
  rw [ByteArray.toList, toList_loop_eq, String.toUTF8_eq_toByteArray, ← String.utf8Encode_toList]
  exact List.toList_data_toByteArray

/-! ### Characters of one byte -/

variable {c d : Char}

/-- The byte of a character below `0x80`. -/
def byteOf (c : Char) : UInt8 := UInt8.ofNat c.toNat

private theorem toNat_byteOf (h : c.toNat < 0x80) : (byteOf c).toNat = c.toNat :=
  UInt8.toNat_ofNat_of_lt' (show c.toNat < 256 by omega)

/-- A small character is a single byte. -/
theorem utf8EncodeChar_of_lt (h : c.toNat < 0x80) :
    String.utf8EncodeChar c = [byteOf c] := by
  have hle : c.val.toNat ≤ 127 := Nat.le_of_lt_succ h
  rw [String.utf8EncodeChar, if_pos hle, Char.toNat_val, byteOf]

/-- All bytes of a longer encoding are marked by their highest bit. -/
private theorem le_of_mem_utf8EncodeChar (h : 0x80 ≤ c.toNat) {byte : UInt8}
    (hmem : byte ∈ String.utf8EncodeChar c) : 0x80 ≤ byte.toNat := by
  have hmarked : ∀ n, 0x80 ≤ n → n < 0x100 → 0x80 ≤ (UInt8.ofNat n).toNat := by
    intro n hle hlt
    rwa [UInt8.toNat_ofNat_of_lt' hlt]
  have hlarge : ¬c.val.toNat ≤ 127 := Nat.not_le.2 h
  rw [String.utf8EncodeChar, if_neg hlarge] at hmem
  split at hmem
  case isTrue =>
    simp only [List.mem_cons, List.not_mem_nil, or_false] at hmem
    rcases hmem with rfl | rfl <;> exact hmarked _ (by omega) (by omega)
  case isFalse =>
    split at hmem
    case isTrue =>
      simp only [List.mem_cons, List.not_mem_nil, or_false] at hmem
      rcases hmem with rfl | rfl | rfl <;> exact hmarked _ (by omega) (by omega)
    case isFalse =>
      simp only [List.mem_cons, List.not_mem_nil, or_false] at hmem
      rcases hmem with rfl | rfl | rfl | rfl <;> exact hmarked _ (by omega) (by omega)

/-- The byte of a small character occurs in no other encoding. -/
theorem mem_utf8EncodeChar_iff (hd : d.toNat < 0x80) :
    byteOf d ∈ String.utf8EncodeChar c ↔ c = d := by
  have hbyte := toNat_byteOf hd
  constructor
  · intro hmem
    by_cases hc : c.toNat < 0x80
    · rw [utf8EncodeChar_of_lt hc, List.mem_singleton] at hmem
      rw [hmem, toNat_byteOf hc] at hbyte
      exact Char.toNat_inj.1 hbyte
    · have hle := le_of_mem_utf8EncodeChar (Nat.not_lt.1 hc) hmem
      omega
  · rintro rfl
    rw [utf8EncodeChar_of_lt hd]
    exact List.mem_singleton_self _

/-! ### Cutting an encoding -/

private theorem append_cons_inj {α : Type} {a : α} {front front' back back' : List α}
    (h : a ∉ front) (h' : a ∉ front') (heq : front ++ a :: back = front' ++ a :: back') :
    front = front' ∧ back = back' := by
  induction front generalizing front' with
  | nil =>
    cases front' with
    | nil => exact ⟨rfl, (List.cons.inj heq).2⟩
    | cons b front' =>
      exact absurd ((List.cons.inj heq).1 ▸ List.mem_cons_self) h'
  | cons b front ih =>
    cases front' with
    | nil => exact absurd ((List.cons.inj heq).1 ▸ List.mem_cons_self) h
    | cons b' front' =>
      obtain ⟨rfl, htail⟩ := List.cons.inj heq
      rw [List.mem_cons, not_or] at h h'
      obtain ⟨rfl, rfl⟩ := ih h.2 h'.2 htail
      exact ⟨rfl, rfl⟩

/-- An encoding is cut at the first byte that is a small character. -/
theorem exists_split_of_utf8 (hd : d.toNat < 0x80) {chars : List Char} {front back : List UInt8}
    (heq : chars.flatMap String.utf8EncodeChar = front ++ byteOf d :: back)
    (hfront : byteOf d ∉ front) :
    ∃ before after, chars = before ++ d :: after ∧
      before.flatMap String.utf8EncodeChar = front ∧
      after.flatMap String.utf8EncodeChar = back := by
  have hmem : d ∈ chars := by
    have hbyte : byteOf d ∈ chars.flatMap String.utf8EncodeChar := by
      rw [heq]
      exact List.mem_append_right _ List.mem_cons_self
    obtain ⟨c, hc, hbyte⟩ := List.mem_flatMap.1 hbyte
    rwa [← (mem_utf8EncodeChar_iff hd).1 hbyte]
  obtain ⟨before, after, rfl, hbefore⟩ := List.eq_append_cons_of_mem hmem
  have hnot : byteOf d ∉ before.flatMap String.utf8EncodeChar := by
    intro hbyte
    obtain ⟨c, hc, hbyte⟩ := List.mem_flatMap.1 hbyte
    rw [(mem_utf8EncodeChar_iff hd).1 hbyte] at hc
    exact hbefore hc
  rw [List.flatMap_append, List.flatMap_cons, utf8EncodeChar_of_lt hd, List.singleton_append] at heq
  obtain ⟨rfl, rfl⟩ := append_cons_inj hnot hfront heq
  exact ⟨before, after, rfl, rfl, rfl⟩

/-- An encoding that starts with a small character is that of a text that starts with it. -/
theorem exists_cons_of_utf8 (hd : d.toNat < 0x80) {chars : List Char} {back : List UInt8}
    (heq : chars.flatMap String.utf8EncodeChar = byteOf d :: back) :
    ∃ after, chars = d :: after ∧ after.flatMap String.utf8EncodeChar = back := by
  rw [← List.nil_append (byteOf d :: back)] at heq
  obtain ⟨before, after, rfl, hbefore, hafter⟩ := exists_split_of_utf8 hd heq List.not_mem_nil
  cases before with
  | nil => exact ⟨after, rfl, hafter⟩
  | cons c before => simp at hbefore

end ClassStub
