import ClassStub.Proofs.PoolFormat
import ClassStub.Proofs.Surrogates

/-!
# Which byte strings are texts

A text entry of a class file is cut into groups of one, two or three bytes, and each group gives
one UTF-16 unit (`ModifiedUtf8.Group`). A byte string that can be cut in this way is well formed;
there is only one way to cut it.

Which of these are texts is not decided group by group: `ModifiedUtf8.decode?` reads the units,
joins them and writes the result again, and asks whether this gives the bytes that it started
from. What this amounts to is local all the same. No group is longer than what is written for its
unit, so the two byte strings are equal only if each group is as short as it can be
(`Group.IsShortest`), and the units are joined without loss if each surrogate has its partner.

The main result is `ModifiedUtf8.read_iff_groups`, which also says what becomes of a text entry
when a constant pool is read.
-/

namespace ClassStub

namespace ModifiedUtf8

/-! ### Groups -/

/-- The bytes of one unit: a byte below `0x80` that is not zero, or a lead byte with the one or
two continuation bytes that it asks for. -/
inductive Group where
  | one (a : UInt8) (ha : 0x01 ≤ a.toNat ∧ a.toNat ≤ 0x7F)
  | two (a b : UInt8) (ha : 0xC0 ≤ a.toNat ∧ a.toNat ≤ 0xDF) (hb : 0x80 ≤ b.toNat ∧ b.toNat ≤ 0xBF)
  | three (a b c : UInt8) (ha : 0xE0 ≤ a.toNat ∧ a.toNat ≤ 0xEF)
      (hb : 0x80 ≤ b.toNat ∧ b.toNat ≤ 0xBF) (hc : 0x80 ≤ c.toNat ∧ c.toNat ≤ 0xBF)

namespace Group

/-- The bytes of a group, in order. -/
def bytes : Group → Bytes
  | one a _ => [a]
  | two a b _ _ => [a, b]
  | three a b c _ _ _ => [a, b, c]

/-- The unit of a group: the bits that its bytes hold under their marks. -/
def unit : Group → UInt16
  | one a _ => UInt16.ofNat a.toNat
  | two a b _ _ => UInt16.ofNat ((a.toNat - 0xC0) * 0x40 + (b.toNat - 0x80))
  | three a b c _ _ _ =>
    UInt16.ofNat ((a.toNat - 0xE0) * 0x1000 + (b.toNat - 0x80) * 0x40 + (c.toNat - 0x80))

/-- No shorter group has the unit, except that two bytes are right for the unit zero. -/
def IsShortest (group : Group) : Prop :=
  match group with
  | one _ _ => True
  | two _ _ _ _ => group.unit.toNat = 0 ∨ (0x80 ≤ group.unit.toNat ∧ group.unit.toNat ≤ 0x7FF)
  | three _ _ _ _ _ _ => 0x800 ≤ group.unit.toNat

private theorem toNat_unit_one {a : UInt8} (ha : 0x01 ≤ a.toNat ∧ a.toNat ≤ 0x7F) :
    (one a ha).unit.toNat = a.toNat :=
  UInt16.toNat_ofNat_of_lt' (show a.toNat < 0x10000 by omega)

private theorem toNat_unit_two {a b : UInt8} (ha : 0xC0 ≤ a.toNat ∧ a.toNat ≤ 0xDF)
    (hb : 0x80 ≤ b.toNat ∧ b.toNat ≤ 0xBF) :
    (two a b ha hb).unit.toNat = (a.toNat - 0xC0) * 0x40 + (b.toNat - 0x80) :=
  UInt16.toNat_ofNat_of_lt' (show _ < 0x10000 by omega)

private theorem toNat_unit_three {a b c : UInt8} (ha : 0xE0 ≤ a.toNat ∧ a.toNat ≤ 0xEF)
    (hb : 0x80 ≤ b.toNat ∧ b.toNat ≤ 0xBF) (hc : 0x80 ≤ c.toNat ∧ c.toNat ≤ 0xBF) :
    (three a b c ha hb hc).unit.toNat =
      (a.toNat - 0xE0) * 0x1000 + (b.toNat - 0x80) * 0x40 + (c.toNat - 0x80) :=
  UInt16.toNat_ofNat_of_lt' (show _ < 0x10000 by omega)

/-- What is written for the unit of a group is no longer than the group. It is the group if the
group is the shortest, and else it is shorter. -/
private theorem encodeUnit_unit (group : Group) :
    (group.IsShortest ∧ encodeUnit group.unit = group.bytes) ∨
      (¬ group.IsShortest ∧ (encodeUnit group.unit).length < group.bytes.length) := by
  cases group with
  | one a ha =>
    have hunit := toNat_unit_one ha
    refine .inl ⟨trivial, ?_⟩
    rw [encodeUnit, hunit, if_pos (by omega), UInt8.ofNat_toNat]
    rfl
  | two a b ha hb =>
    have hunit := toNat_unit_two ha hb
    have hlead : 0xC0 + (two a b ha hb).unit.toNat / 0x40 = a.toNat := by omega
    have hlast : 0x80 + (two a b ha hb).unit.toNat % 0x40 = b.toNat := by omega
    -- a unit that fits in one byte was written with two
    by_cases hone : 0 < (two a b ha hb).unit.toNat ∧ (two a b ha hb).unit.toNat < 0x80
    · refine .inr ⟨?_, ?_⟩
      · rw [IsShortest]
        omega
      · rw [encodeUnit, if_pos hone]
        exact Nat.lt_succ_self 1
    · refine .inl ⟨?_, ?_⟩
      · rw [IsShortest]
        omega
      · rw [encodeUnit, if_neg hone, if_pos (by omega), hlead, hlast, UInt8.ofNat_toNat,
          UInt8.ofNat_toNat]
        rfl
  | three a b c ha hb hc =>
    have hunit := toNat_unit_three ha hb hc
    have hlead : 0xE0 + (three a b c ha hb hc).unit.toNat / 0x1000 = a.toNat := by omega
    have hmiddle : 0x80 + (three a b c ha hb hc).unit.toNat / 0x40 % 0x40 = b.toNat := by omega
    have hlast : 0x80 + (three a b c ha hb hc).unit.toNat % 0x40 = c.toNat := by omega
    -- a unit that fits in two bytes was written with three
    by_cases htwo : (three a b c ha hb hc).unit.toNat < 0x800
    · refine .inr ⟨Nat.not_le.2 htwo, ?_⟩
      have hlength : (encodeUnit (three a b c ha hb hc).unit).length ≤ 2 := by
        by_cases hone : 0 < (three a b c ha hb hc).unit.toNat ∧
          (three a b c ha hb hc).unit.toNat < 0x80
        · rw [encodeUnit, if_pos hone]
          exact Nat.le_succ 1
        · rw [encodeUnit, if_neg hone, if_pos htwo]
          exact Nat.le_refl 2
      exact Nat.lt_succ_of_le hlength
    · refine .inl ⟨Nat.not_lt.1 htwo, ?_⟩
      rw [encodeUnit, if_neg (by omega), if_neg htwo, hlead, hmiddle, hlast, UInt8.ofNat_toNat,
        UInt8.ofNat_toNat, UInt8.ofNat_toNat]
      rfl

private theorem length_encodeUnit_le (group : Group) :
    (encodeUnit group.unit).length ≤ group.bytes.length := by
  rcases group.encodeUnit_unit with ⟨-, hbytes⟩ | ⟨-, hlt⟩
  · rw [hbytes]
  · exact Nat.le_of_lt hlt

end Group

/-- Of the written forms of the units, none makes up for what another one saves: all groups are
the shortest if the units are written as the bytes of the groups. -/
private theorem flatMap_encodeUnit_eq_iff (groups : List Group) :
    (groups.map Group.unit).flatMap encodeUnit = groups.flatMap Group.bytes ↔
      ∀ group ∈ groups, group.IsShortest := by
  have hlength : ∀ others : List Group, ((others.map Group.unit).flatMap encodeUnit).length ≤
      (others.flatMap Group.bytes).length := by
    intro others
    induction others with
    | nil => exact Nat.le_refl 0
    | cons other others ih =>
      have hother := other.length_encodeUnit_le
      rw [List.map_cons, List.flatMap_cons, List.flatMap_cons, List.length_append,
        List.length_append]
      omega
  induction groups with
  | nil => simp
  | cons group groups ih =>
    rw [List.map_cons, List.flatMap_cons, List.flatMap_cons, List.forall_mem_cons]
    rcases group.encodeUnit_unit with ⟨hshortest, hbytes⟩ | ⟨hnot, hlt⟩
    · rw [hbytes, List.append_cancel_left_eq, and_iff_right hshortest]
      exact ih
    · refine iff_of_false (fun h => ?_) fun h => hnot h.1
      have htotal := congrArg List.length h
      have hrest := hlength groups
      rw [List.length_append, List.length_append] at htotal
      omega

/-! ### Cutting -/

/-- The byte string can be cut into groups. -/
def IsGrouped (bytes : Bytes) : Prop := ∃ groups : List Group, bytes = groups.flatMap Group.bytes

/-- It can be cut into groups that are the shortest for their units, and these units form a
text. -/
def IsCanonical (bytes : Bytes) : Prop :=
  ∃ groups : List Group, bytes = groups.flatMap Group.bytes ∧
    (∀ group ∈ groups, group.IsShortest) ∧ Utf16.IsPaired (groups.map Group.unit)

private theorem isContinuation_iff {b : UInt8} :
    isContinuation b = true ↔ 0x80 ≤ b.toNat ∧ b.toNat ≤ 0xBF := by
  rw [isContinuation, Bool.and_eq_true, decide_eq_true_eq, decide_eq_true_eq]
  omega

private theorem unitOfTwo_eq {a b : UInt8} (ha : 0xC0 ≤ a.toNat ∧ a.toNat ≤ 0xDF)
    (hb : 0x80 ≤ b.toNat ∧ b.toNat ≤ 0xBF) : unitOfTwo a b = (Group.two a b ha hb).unit := by
  have hlead : a.toNat % 0x20 = a.toNat - 0xC0 := by omega
  have hlast : b.toNat % 0x40 = b.toNat - 0x80 := by omega
  rw [unitOfTwo, hlead, hlast, Group.unit]

private theorem unitOfThree_eq {a b c : UInt8} (ha : 0xE0 ≤ a.toNat ∧ a.toNat ≤ 0xEF)
    (hb : 0x80 ≤ b.toNat ∧ b.toNat ≤ 0xBF) (hc : 0x80 ≤ c.toNat ∧ c.toNat ≤ 0xBF) :
    unitOfThree a b c = (Group.three a b c ha hb hc).unit := by
  have hlead : a.toNat % 0x10 = a.toNat - 0xE0 := by omega
  have hmiddle : b.toNat % 0x40 = b.toNat - 0x80 := by omega
  have hlast : c.toNat % 0x40 = c.toNat - 0x80 := by omega
  rw [unitOfThree, hlead, hmiddle, hlast, Group.unit]

private theorem unitsOnto_group (before : List UInt16) (group : Group) (rest : Bytes) :
    unitsOnto before (group.bytes ++ rest) = unitsOnto (group.unit :: before) rest := by
  cases group with
  | one a ha => exact unitsOnto_one before rest (by omega) (by omega)
  | two a b ha hb =>
    rw [← unitOfTwo_eq ha hb]
    exact unitsOnto_two before rest (by omega) (isContinuation_iff.2 hb)
  | three a b c ha hb hc =>
    rw [← unitOfThree_eq ha hb hc]
    exact unitsOnto_three before rest (by omega) (isContinuation_iff.2 hb)
      (isContinuation_iff.2 hc)

/-- From groups, their units are read. -/
private theorem units?_flatMap (groups : List Group) :
    units? (groups.flatMap Group.bytes) = some (groups.map Group.unit) := by
  have honto : ∀ before, unitsOnto before (groups.flatMap Group.bytes) =
      some (before.reverse ++ groups.map Group.unit) := by
    induction groups with
    | nil =>
      intro before
      simp [unitsOnto]
    | cons group groups ih =>
      intro before
      rw [List.flatMap_cons, unitsOnto_group, ih, List.reverse_cons, List.append_assoc,
        List.singleton_append, List.map_cons]
  rw [units?, honto, List.reverse_nil, List.nil_append]

/-- Units are read from groups only. -/
private theorem isGrouped_of_unitsOnto {before units : List UInt16} {bytes : Bytes}
    (h : unitsOnto before bytes = some units) : IsGrouped bytes := by
  fun_induction unitsOnto before bytes with
  | case1 => exact ⟨[], rfl⟩
  | case2 => exact nomatch h
  | case3 before a rest hzero hone ih =>
    obtain ⟨groups, rfl⟩ := ih h
    exact ⟨.one a (by omega) :: groups, rfl⟩
  | case4 before a hzero hone htwo b rest hb ih =>
    obtain ⟨groups, rfl⟩ := ih h
    exact ⟨.two a b (by omega) (isContinuation_iff.1 hb) :: groups, rfl⟩
  | case5 => exact nomatch h
  | case6 => exact nomatch h
  | case7 before a hzero hone htwo hthree b c rest hcont ih =>
    rw [Bool.and_eq_true, isContinuation_iff, isContinuation_iff] at hcont
    obtain ⟨groups, rfl⟩ := ih h
    exact ⟨.three a b c (by omega) hcont.1 hcont.2 :: groups, rfl⟩
  | case8 => exact nomatch h
  | case9 => exact nomatch h
  | case10 => exact nomatch h

private theorem isWellFormed_iff_isGrouped {bytes : Bytes} :
    isWellFormed bytes = true ↔ IsGrouped bytes := by
  constructor
  · intro h
    obtain ⟨units, hunits⟩ := Option.isSome_iff_exists.1 h
    exact isGrouped_of_unitsOnto hunits
  · rintro ⟨groups, rfl⟩
    rw [isWellFormed, units?_flatMap]
    rfl

/-- Groups are read as a text if none is too long and no surrogate is without its partner. -/
private theorem isSome_decode?_flatMap_iff (groups : List Group) :
    (decode? (groups.flatMap Group.bytes)).isSome = true ↔
      (∀ group ∈ groups, group.IsShortest) ∧ Utf16.IsPaired (groups.map Group.unit) := by
  rw [← flatMap_encodeUnit_eq_iff, ← Utf16.isSome_decode?_iff, Option.isSome_iff_exists,
    Option.isSome_iff_exists]
  constructor
  · rintro ⟨text, htext⟩
    have hbytes := decode?_eq_some_iff.1 htext
    -- the text has the units of the groups, for these were read from its bytes
    have hunits : groups.map Group.unit = Utf16.encode text := by
      rw [← Option.some.injEq, ← units?_flatMap, hbytes, units?_encode]
    rw [hunits]
    exact ⟨hbytes.symm, text, Utf16.decode?_encode text⟩
  · rintro ⟨hbytes, text, htext⟩
    refine ⟨text, decode?_eq_some_iff.2 ?_⟩
    rw [encode, Utf16.decode?_eq_some_iff.1 htext, hbytes]

private theorem isWellFormed_of_decode? {bytes : Bytes} {text : String}
    (h : decode? bytes = some text) :
    isWellFormed bytes = true := by
  rw [decode?_eq_some_iff.1 h, isWellFormed, units?_encode]
  rfl

private theorem isSome_decode?_iff_isCanonical {bytes : Bytes} :
    (decode? bytes).isSome = true ↔ IsCanonical bytes := by
  constructor
  · intro h
    obtain ⟨text, htext⟩ := Option.isSome_iff_exists.1 h
    obtain ⟨groups, rfl⟩ := isWellFormed_iff_isGrouped.1 (isWellFormed_of_decode? htext)
    exact ⟨groups, rfl, (isSome_decode?_flatMap_iff groups).1 h⟩
  · rintro ⟨groups, rfl, h⟩
    exact (isSome_decode?_flatMap_iff groups).2 h

end ModifiedUtf8

/-! ### Text entries -/

namespace Constant

/-- The written form of a text entry: the tag, the number of bytes and the bytes. -/
def textEntry (bytes : Bytes) : Bytes := 1 :: (bigEndian 2 bytes.length ++ bytes)

/-- Whatever the bytes of a text entry are, they are taken together. -/
private theorem decoder_textEntry (index : UInt16) {bytes : Bytes} (hlength : bytes.length < 2 ^ 16)
    (offset : Nat) (rest : Bytes) :
    decoder index ⟨offset, textEntry bytes ++ rest⟩ =
      (ofTextBytes index bytes).map fun constant =>
        (constant, (⟨offset + 3 + bytes.length, rest⟩ : Input)) := by
  have htag : Decoder.u8 ⟨offset, textEntry bytes ++ rest⟩ =
      .ok (1, ⟨offset + 1, bigEndian 2 bytes.length ++ bytes ++ rest⟩) :=
    (Decoder.takes_u8 _ _ _).2 ⟨[1], rfl, rfl, rfl⟩
  have hsized : Decoder.sized 2 ⟨offset + 1, bigEndian 2 bytes.length ++ bytes ++ rest⟩ =
      .ok (bytes, ⟨offset + 3 + bytes.length, rest⟩) := by
    refine (Decoder.takes_sized 2 _ _ _).2 ⟨_, ⟨hlength, rfl⟩, rfl, ?_⟩
    rw [List.length_append, length_bigEndian]
    dsimp only
    omega
  rw [decoder, Decoder.bind_of_eq_ok (rfl : Decoder.offset _ = _), Decoder.bind_of_eq_ok htag]
  change (Decoder.sized 2 >>= _) _ = _
  rw [Decoder.bind_of_eq_ok hsized]
  cases ofTextBytes index bytes with
  | ok constant => rfl
  | error error => rfl

end Constant

/-- A text entry is appended to a pool with a slot missing, or its bytes are refused. -/
private theorem ConstantPool.decodeSlots_textEntry (pool : ConstantPool) (missing : Nat)
    {bytes : Bytes} (hlength : bytes.length < 2 ^ 16) (offset : Nat) (rest : Bytes) :
    pool.decodeSlots (missing + 1) ⟨offset, Constant.textEntry bytes ++ rest⟩ =
      Constant.ofTextBytes (UInt16.ofNat (pool.size + 1)) bytes >>= fun constant =>
        (pool.addEntry constant >>= (decodeSlots · missing)) ⟨offset + 3 + bytes.length, rest⟩ := by
  have htaken := Constant.decoder_textEntry (UInt16.ofNat (pool.size + 1)) hlength offset rest
  generalize hvalue : Constant.ofTextBytes (UInt16.ofNat (pool.size + 1)) bytes = value at htaken
  cases value with
  | error error =>
    cases missing with
    | zero => exact Decoder.bind_eq_error_iff.2 (.inl htaken)
    | succ missing => exact Decoder.bind_eq_error_iff.2 (.inl htaken)
  | ok constant =>
    -- the entry takes one slot, however many are missing
    have hnarrow : constant.isWide = false := by
      rcases Constant.ofTextBytes_eq_ok_iff.1 hvalue with ⟨text, -, rfl⟩ | ⟨-, -, rfl⟩
      · rfl
      · rfl
    cases missing with
    | zero =>
      rw [decodeSlots, Decoder.bind_of_eq_ok htaken, hnarrow]
      exact congrFun (bind_pure (pool.addEntry constant)).symm _
    | succ missing =>
      rw [decodeSlots, Decoder.bind_of_eq_ok htaken, hnarrow]
      rfl

namespace ModifiedUtf8

/-- **A text is read from the shortest groups, with each surrogate beside its partner.** A byte
string is well formed if it can be cut into groups, and it is a text if, besides, no group could
be shorter and the units of the groups have no surrogate on its own. There is only one way to
cut, for the groups that are looked at may be any that make up the bytes.

This decides what becomes of a text entry, whichever slot it is read for: it is appended as a text,
it is appended as bytes, or it is refused with the index of its slot. -/
theorem read_iff_groups :
    (∀ bytes, isWellFormed bytes = true ↔ IsGrouped bytes) ∧
      (∀ bytes, (decode? bytes).isSome = true ↔ IsCanonical bytes) ∧
      (∀ groups : List Group, (decode? (groups.flatMap Group.bytes)).isSome = true ↔
        (∀ group ∈ groups, group.IsShortest) ∧ Utf16.IsPaired (groups.map Group.unit)) ∧
      ∀ (pool : ConstantPool) (missing offset : Nat) (bytes rest : Bytes),
        bytes.length < 2 ^ 16 →
        (IsCanonical bytes → ∃ text, decode? bytes = some text ∧
          pool.decodeSlots (missing + 1) ⟨offset, Constant.textEntry bytes ++ rest⟩ =
            (pool.addEntry (.utf8 text) >>= (·.decodeSlots missing))
              ⟨offset + 3 + bytes.length, rest⟩) ∧
        (IsGrouped bytes ∧ ¬ IsCanonical bytes →
          pool.decodeSlots (missing + 1) ⟨offset, Constant.textEntry bytes ++ rest⟩ =
            (pool.addEntry (.utf8Raw bytes) >>= (·.decodeSlots missing))
              ⟨offset + 3 + bytes.length, rest⟩) ∧
        (¬ IsGrouped bytes →
          pool.decodeSlots (missing + 1) ⟨offset, Constant.textEntry bytes ++ rest⟩ =
            .error (.invalidText (UInt16.ofNat (pool.size + 1)))) := by
  refine ⟨fun bytes => isWellFormed_iff_isGrouped, fun bytes => isSome_decode?_iff_isCanonical,
    isSome_decode?_flatMap_iff, ?_⟩
  intro pool missing offset bytes rest hlength
  rw [pool.decodeSlots_textEntry missing hlength offset rest, Constant.ofTextBytes,
    ← isSome_decode?_iff_isCanonical, ← isWellFormed_iff_isGrouped]
  -- what the reader makes of the bytes is a matter of the two tests on them
  cases htext : decode? bytes with
  | some text =>
    have hformed := isWellFormed_of_decode? htext
    refine ⟨fun _ => ⟨text, rfl, rfl⟩, fun h => absurd rfl h.2, fun h => absurd hformed h⟩
  | none =>
    refine ⟨fun h => absurd h (by decide), fun h => ?_, fun h => ?_⟩
    · rw [if_pos h.1]
      rfl
    · rw [if_neg h]
      rfl

/-- A surrogate without its partner is kept as bytes, in the slot that it was read for. -/
theorem read_iff_groups_loneSurrogate :
    [0xED, 0xA0, 0x80, 0x78].length < 2 ^ 16 ∧
      (IsGrouped [0xED, 0xA0, 0x80, 0x78] ∧ ¬ IsCanonical [0xED, 0xA0, 0x80, 0x78]) ∧
      ConstantPool.empty.decodeSlots 1 ⟨10, Constant.textEntry [0xED, 0xA0, 0x80, 0x78] ++ []⟩ =
        .ok (ConstantPool.empty.append (.utf8Raw [0xED, 0xA0, 0x80, 0x78]), ⟨17, []⟩) := by
  obtain ⟨hgrouped, hcanonical, -, hentry⟩ := read_iff_groups
  have hformed := (hgrouped [0xED, 0xA0, 0x80, 0x78]).1 (by decide)
  have hnot : ¬ IsCanonical [0xED, 0xA0, 0x80, 0x78] := fun h =>
    absurd ((hcanonical _).2 h) (by decide)
  exact ⟨by decide, ⟨hformed, hnot⟩,
    (hentry .empty 0 10 [0xED, 0xA0, 0x80, 0x78] [] (by decide)).2.1 ⟨hformed, hnot⟩⟩

example : decode? [0xC0, 0x80] = some "\x00" ∧ decode? [0xC1, 0x81] = none ∧
    decode? [0xE0, 0x80, 0x80] = none ∧ isWellFormed [0xE0, 0x80, 0x80] = true ∧
    isWellFormed [0xE2, 0x82] = false := by decide

end ModifiedUtf8

end ClassStub
