import ClassStub.ClassFile.Decode
import ClassStub.Proofs.Formats
import ClassStub.Proofs.Text

/-!
# The written form of a constant pool

A constant is written as its tag and its payload, and the tag alone decides how the payload is
read (`Constant.takes_decoder`). A pool is its count and its constants one after another. The
second slot of a wide constant is counted but not written, so the slots that a reader fills are
those of a list in which an unusable slot stands behind each wide constant and nowhere else
(`LaidOut`). The reader of the slots is followed by induction on the number of slots that are
missing; what it does with one constant is `filledTo_succ`.
-/

namespace ClassStub

namespace Constant

/-- The constant can be written without loss: the length of its text fits in sixteen bits, and
bytes are kept only where they are well formed and the encoding of no text. -/
def IsEncodable : Constant → Prop
  | utf8 text => (ModifiedUtf8.encode text).length < 2 ^ 16
  | utf8Raw bytes => bytes.length < 2 ^ 16 ∧ ModifiedUtf8.isWellFormed bytes = true ∧
      ModifiedUtf8.decode? bytes = none
  | _ => True

/-- Bytes are a text if they decode to one, and are kept as they are if they are only well formed.
-/
theorem ofTextBytes_eq_ok_iff {index : UInt16} {bytes : Bytes} {constant : Constant} :
    ofTextBytes index bytes = .ok constant ↔
      (∃ text, ModifiedUtf8.decode? bytes = some text ∧ constant = utf8 text) ∨
      (ModifiedUtf8.decode? bytes = none ∧ ModifiedUtf8.isWellFormed bytes = true ∧
        constant = utf8Raw bytes) := by
  rw [ofTextBytes]
  split
  case h_1 text htext => simp [htext, @eq_comm _ constant]
  case h_2 hnone =>
    split
    case isTrue hformed => simp [hnone, hformed, @eq_comm _ constant]
    case isFalse hformed => simp [hnone, hformed]

/-! ### Constants -/

/-- The constants with a tag, each with the bytes behind its tag. -/
private def PayloadFormat (tag : UInt8) (constant : Constant) (bytes : Bytes) : Prop :=
  (constant.tag? = some tag ∧ constant.IsEncodable) ∧ bytes = constant.encodePayload

/-- One part of a constant is read by a decoder and determines the constant. -/
private theorem takes_payload {α : Type} {part : Decoder α} {encode : α → Bytes}
    (hpart : part.Takes fun a bytes => bytes = encode a) {tag : UInt8} (make : α → Constant)
    (hmake : ∀ constant : Constant, constant.tag? = some tag ∧ constant.IsEncodable ↔
      ∃ a, constant = make a)
    (hencode : ∀ a, (make a).encodePayload = encode a) :
    (do return make (← part) : Decoder Constant).Takes (PayloadFormat tag) := by
  refine (hpart.bind fun a => Decoder.Takes.pure (make a)).congr fun constant bytes => ?_
  rw [PayloadFormat, hmake]
  constructor
  · rintro ⟨a, _, _, rfl, ⟨rfl, rfl⟩, rfl⟩
    exact ⟨⟨a, rfl⟩, by rw [hencode, List.append_nil]⟩
  · rintro ⟨⟨a, rfl⟩, rfl⟩
    exact ⟨a, _, _, rfl, ⟨rfl, rfl⟩, by rw [hencode, List.append_nil]⟩

/-- A constant that holds one index is read from it. -/
private theorem takes_index {tag : UInt8} (make : UInt16 → Constant)
    (hmake : ∀ constant : Constant, constant.tag? = some tag ∧ constant.IsEncodable ↔
      ∃ index, constant = make index)
    (hencode : ∀ index, (make index).encodePayload = bigEndian 2 index.toNat) :
    (do return make (← Decoder.u16) : Decoder Constant).Takes (PayloadFormat tag) :=
  takes_payload Decoder.takes_u16 make hmake hencode

/-- A constant that holds two indices is read from the one and then the other. -/
private theorem takes_pairDecoder {tag : UInt8} (make : UInt16 → UInt16 → Constant)
    (hmake : ∀ constant : Constant, constant.tag? = some tag ∧ constant.IsEncodable ↔
      ∃ first second, constant = make first second)
    (hencode : ∀ first second, (make first second).encodePayload = encodePair first second) :
    (pairDecoder make).Takes (PayloadFormat tag) := by
  refine (Decoder.takes_u16.bind fun first => Decoder.takes_u16.bind fun second =>
    Decoder.Takes.pure (make first second)).congr fun constant bytes => ?_
  rw [PayloadFormat, hmake]
  constructor
  · rintro ⟨first, _, _, rfl, ⟨second, _, _, rfl, ⟨rfl, rfl⟩, rfl⟩, rfl⟩
    exact ⟨⟨first, second, rfl⟩, by rw [hencode, List.append_nil]; rfl⟩
  · rintro ⟨⟨first, second, rfl⟩, rfl⟩
    exact ⟨first, _, _, rfl, ⟨second, _, _, rfl, ⟨rfl, rfl⟩, rfl⟩,
      by rw [hencode, List.append_nil]; rfl⟩

/-- A method handle is read from its kind and its reference. -/
private theorem takes_methodHandle :
    (do
      let kind ← Decoder.u8
      let reference ← Decoder.u16
      return .methodHandle kind reference : Decoder Constant).Takes (PayloadFormat 15) := by
  refine (Decoder.takes_u8.bind fun kind => Decoder.takes_u16.bind fun reference =>
    Decoder.Takes.pure (methodHandle kind reference)).congr fun constant bytes => ?_
  constructor
  · rintro ⟨kind, _, _, rfl, ⟨reference, _, _, rfl, ⟨rfl, rfl⟩, rfl⟩, rfl⟩
    exact ⟨⟨rfl, trivial⟩, by rw [List.append_nil]; rfl⟩
  · rintro ⟨⟨htag, -⟩, rfl⟩
    cases constant with
    | methodHandle kind reference =>
      exact ⟨kind, _, _, rfl, ⟨reference, _, _, rfl, ⟨rfl, rfl⟩, rfl⟩,
        by rw [List.append_nil]; rfl⟩
    | _ => simp [tag?] at htag

/-- A text entry is read from its length and its bytes, of which a text that they encode is
kept if there is one. -/
private theorem takes_text (index : UInt16) :
    (do ofTextBytes index (← Decoder.sized 2) : Decoder Constant).Takes (PayloadFormat 1) := by
  refine ((Decoder.takes_sized 2).bind fun bytes =>
    Decoder.takes_liftM (ofTextBytes index bytes)).congr fun constant bytes => ?_
  simp only [PayloadFormat, ofTextBytes_eq_ok_iff]
  constructor
  · rintro ⟨payload, _, _, ⟨hlength, rfl⟩, ⟨⟨text, htext, rfl⟩ | ⟨hnone, hformed, rfl⟩, rfl⟩, rfl⟩
    · -- bytes that are kept as a text are the encoding of this text
      obtain rfl := ModifiedUtf8.decode?_eq_some_iff.1 htext
      exact ⟨⟨rfl, hlength⟩, by rw [List.append_nil]; rfl⟩
    · exact ⟨⟨rfl, hlength, hformed, hnone⟩, by rw [List.append_nil]; rfl⟩
  · rintro ⟨⟨htag, hencodable⟩, rfl⟩
    cases constant with
    | utf8 text =>
      exact ⟨_, _, _, ⟨hencodable, rfl⟩, ⟨.inl ⟨text, ModifiedUtf8.decode?_encode text, rfl⟩, rfl⟩,
        by rw [List.append_nil]; rfl⟩
    | utf8Raw payload =>
      exact ⟨_, _, _, ⟨hencodable.1, rfl⟩,
        ⟨.inr ⟨hencodable.2.2, hencodable.2.1, rfl⟩, rfl⟩, by rw [List.append_nil]; rfl⟩
    | _ => simp [tag?] at htag

/-- A constant is read from its written form. An unusable slot has none. -/
theorem takes_decoder (index : UInt16) :
    (decoder index).Takes fun constant bytes =>
      (constant.isUnusable = false ∧ constant.IsEncodable) ∧ bytes = constant.encode := by
  refine (Decoder.takes_offset_bind fun offset => Decoder.takes_u8.bind
    (G := PayloadFormat) fun tag => ?_).congr fun constant bytes => ?_
  · -- one case for each tag, by the kind of the payload
    split
    case h_1 => exact takes_text index
    case h_12 => exact takes_methodHandle
    case h_18 =>
      -- no constant has a tag that is not known
      refine (Decoder.Takes.throw _).congr fun constant bytes => ?_
      cases constant <;> simp_all [PayloadFormat, tag?, @eq_comm UInt8]
    case h_2 =>
      refine takes_payload Decoder.takes_u32 (integer ·.toInt32) (fun constant => ?_) fun _ => rfl
      cases constant <;> simp [tag?, IsEncodable]
      exact ⟨_, (Int32.toInt32_toUInt32 _).symm⟩
    case h_4 =>
      refine takes_payload Decoder.takes_u64 (long ·.toInt64) (fun constant => ?_) fun _ => rfl
      cases constant <;> simp [tag?, IsEncodable]
      exact ⟨_, (Int64.toInt64_toUInt64 _).symm⟩
    case h_3 =>
      refine takes_payload Decoder.takes_u32 float (fun constant => ?_) fun _ => rfl
      cases constant <;> simp [tag?, IsEncodable]
    case h_5 =>
      refine takes_payload Decoder.takes_u64 double (fun constant => ?_) fun _ => rfl
      cases constant <;> simp [tag?, IsEncodable]
    case h_8 | h_9 | h_10 | h_11 | h_14 | h_15 =>
      refine takes_pairDecoder _ (fun constant => ?_) fun _ _ => rfl
      cases constant <;> simp [tag?, IsEncodable]
    case h_6 | h_7 | h_13 | h_16 | h_17 =>
      refine takes_index _ (fun constant => ?_) fun _ => rfl
      cases constant <;> simp [tag?, IsEncodable]
  · constructor
    · rintro ⟨tag, _, _, rfl, ⟨⟨htag, hencodable⟩, rfl⟩, rfl⟩
      refine ⟨⟨?_, hencodable⟩, ?_⟩
      · cases constant <;> simp_all [tag?, isUnusable]
      · rw [encode, htag]; rfl
    · rintro ⟨⟨husable, hencodable⟩, rfl⟩
      obtain ⟨tag, htag⟩ : ∃ tag, constant.tag? = some tag := by
        cases constant <;> simp_all [tag?, isUnusable]
      exact ⟨tag, _, _, rfl, ⟨⟨htag, hencodable⟩, rfl⟩, by rw [encode, htag]; rfl⟩

end Constant

/-! ### Slots -/

/-- The slots that a constant fills: a wide one is followed by an unusable slot. -/
def Constant.slots (constant : Constant) : List Constant :=
  if constant.isWide then [constant, .unusable] else [constant]

/-- A constant takes up as many slots as it is wide. -/
@[simp] theorem Constant.length_slots (constant : Constant) :
    constant.slots.length = constant.width := by
  rw [slots, width]
  split <;> rfl

/-- The second slot of a wide constant has no bytes. -/
@[simp] theorem Constant.flatMap_encode_slots (constant : Constant) :
    constant.slots.flatMap encode = constant.encode := by
  rw [slots]
  split
  · simp [show encode .unusable = [] from rfl]
  · simp

/-- Each constant takes up a slot. -/
theorem Constant.width_pos (constant : Constant) : 0 < constant.width := by
  rw [width]
  split <;> omega

/-- The slots of a constant can be written if the constant can. -/
theorem Constant.forall_slots_isEncodable {constant : Constant} :
    (∀ slot ∈ constant.slots, slot.IsEncodable) ↔ constant.IsEncodable := by
  rw [slots]
  split
  · simp [show IsEncodable .unusable from trivial]
  · simp

/-- A constant is appended with all its slots. -/
@[simp] theorem ConstantPool.toList_append (pool : ConstantPool) (constant : Constant) :
    (pool.append constant).slots.toList = pool.slots.toList ++ constant.slots := by
  rw [append, Constant.slots]
  split <;> simp

/-- A constant makes the pool longer by the slots that it fills. -/
theorem ConstantPool.size_append (pool : ConstantPool) (constant : Constant) :
    (pool.append constant).size = pool.size + constant.width := by
  have hlength := congrArg List.length (toList_append pool constant)
  rwa [List.length_append, Constant.length_slots] at hlength

/-- Behind a slot that is wide or not, the slots are laid out as they should be: a slot is
unusable exactly when the one before it is wide, and the last one is not wide. -/
def LaidOut : (afterWide : Bool) → List Constant → Prop
  | afterWide, [] => afterWide = false
  | afterWide, constant :: rest => constant.isUnusable = afterWide ∧ LaidOut constant.isWide rest

/-- The slots of a constant may stand in front of others unless they start with an unusable one. -/
theorem laidOut_slots_append {constant : Constant} {rest : List Constant} :
    LaidOut false (constant.slots ++ rest) ↔ constant.isUnusable = false ∧ LaidOut false rest := by
  rw [Constant.slots]
  split
  case isTrue hwide =>
    have hrest : LaidOut true (.unusable :: rest) ↔ LaidOut false rest := by
      simp [LaidOut, Constant.isUnusable, Constant.isWide]
    rw [List.cons_append, List.singleton_append, LaidOut, hwide, hrest]
  case isFalse hwide =>
    rw [Bool.not_eq_true] at hwide
    rw [List.singleton_append, LaidOut, hwide]

/-- The slots of a constant are laid out well unless they start with an unusable one. -/
theorem laidOut_slots {constant : Constant} :
    LaidOut false constant.slots ↔ constant.isUnusable = false := by
  have hslots : LaidOut false (constant.slots ++ []) ↔ _ := laidOut_slots_append
  rw [List.append_nil] at hslots
  exact hslots.trans (and_iff_left rfl)

/-- Slots that are laid out well can be followed by just those that can stand first. -/
theorem laidOut_append {afterWide : Bool} {first second : List Constant}
    (hfirst : LaidOut afterWide first) :
    LaidOut afterWide (first ++ second) ↔ LaidOut false second := by
  induction first generalizing afterWide with
  | nil =>
    rw [show afterWide = false from hfirst]
    rfl
  | cons constant first ih =>
    obtain ⟨hunusable, hrest⟩ := hfirst
    rw [List.cons_append, LaidOut, ih hrest]
    exact and_iff_right hunusable

/-- Slots that are laid out well start with those of a usable constant. -/
private theorem exists_slots_append_of_laidOut {slots : List Constant} (h : LaidOut false slots)
    (hne : slots ≠ []) : ∃ (constant : Constant) (rest : List Constant),
      slots = constant.slots ++ rest := by
  cases slots with
  | nil => exact absurd rfl hne
  | cons constant rest =>
    obtain ⟨-, hrest⟩ := h
    cases hwide : constant.isWide with
    | false => exact ⟨constant, rest, by simp [Constant.slots, hwide]⟩
    | true =>
      rw [hwide] at hrest
      cases rest with
      | nil => exact absurd hrest (by simp [LaidOut])
      | cons second rest =>
        -- the second slot of the wide constant is the unusable one
        obtain ⟨hunusable, -⟩ := hrest
        cases second <;> simp [Constant.isUnusable] at hunusable
        exact ⟨constant, rest, by simp [Constant.slots, hwide]⟩

namespace ConstantPool

/-- The second pool is the first with a number of slots behind it that are laid out well, and
the bytes are the written form of these. -/
private def FilledTo (pool : ConstantPool) (missing : Nat) (filled : ConstantPool)
    (bytes : Bytes) : Prop :=
  ∃ slots, filled.slots.toList = pool.slots.toList ++ slots ∧ slots.length = missing ∧
    LaidOut false slots ∧ (∀ constant ∈ slots, constant.IsEncodable) ∧
    bytes = slots.flatMap Constant.encode

private theorem filledTo_zero {pool filled : ConstantPool} {bytes : Bytes} :
    pool.FilledTo 0 filled bytes ↔ filled = pool ∧ bytes = [] := by
  constructor
  · rintro ⟨slots, hfilled, hlength, -, -, rfl⟩
    obtain rfl := List.length_eq_zero_iff.1 hlength
    rw [List.append_nil] at hfilled
    refine ⟨?_, rfl⟩
    cases filled
    cases pool
    rw [mk.injEq]
    exact Array.toList_inj.1 hfilled
  · rintro ⟨rfl, rfl⟩
    exact ⟨[], by simp, rfl, rfl, by simp, rfl⟩

/-- The slots that are missing start with those of one constant. -/
private theorem filledTo_succ {pool filled : ConstantPool} {missing : Nat} {bytes : Bytes} :
    pool.FilledTo (missing + 1) filled bytes ↔
      ∃ constant back, (constant.isUnusable = false ∧ constant.IsEncodable) ∧
        constant.width ≤ missing + 1 ∧
        (pool.append constant).FilledTo (missing + 1 - constant.width) filled back ∧
        bytes = constant.encode ++ back := by
  constructor
  · rintro ⟨slots, hfilled, hlength, hlaid, hencodable, rfl⟩
    -- slots that are laid out well start with those of a constant
    obtain ⟨constant, rest, rfl⟩ := exists_slots_append_of_laidOut hlaid
      (List.ne_nil_of_length_eq_add_one hlength)
    rw [laidOut_slots_append] at hlaid
    rw [List.length_append, Constant.length_slots] at hlength
    rw [List.forall_mem_append, Constant.forall_slots_isEncodable] at hencodable
    refine ⟨constant, _, ⟨hlaid.1, hencodable.1⟩, by omega,
      ⟨rest, ?_, by omega, hlaid.2, hencodable.2, rfl⟩, by simp⟩
    rw [hfilled, toList_append, List.append_assoc]
  · rintro ⟨constant, _, ⟨husable, hencodable⟩, hwidth,
      ⟨rest, hfilled, hlength, hlaid, hrest, rfl⟩, rfl⟩
    refine ⟨constant.slots ++ rest, ?_, ?_, laidOut_slots_append.2 ⟨husable, hlaid⟩, ?_, by simp⟩
    · rw [hfilled, toList_append, List.append_assoc]
    · rw [List.length_append, Constant.length_slots, hlength]
      omega
    · exact List.forall_mem_append.2 ⟨Constant.forall_slots_isEncodable.2 hencodable, hrest⟩

private theorem takes_constant_bind {pool : ConstantPool} {missing : Nat} (index : UInt16)
    {next : Constant → Decoder ConstantPool}
    (hnext : ∀ constant, (next constant).Takes fun filled bytes =>
      constant.width ≤ missing + 1 ∧
        (pool.append constant).FilledTo (missing + 1 - constant.width) filled bytes) :
    (Constant.decoder index >>= next).Takes (pool.FilledTo (missing + 1)) := by
  refine ((Constant.takes_decoder index).bind hnext).congr fun filled bytes => ?_
  rw [filledTo_succ]
  constructor
  · rintro ⟨constant, _, back, ⟨hconstant, rfl⟩, ⟨hwidth, hfilled⟩, rfl⟩
    exact ⟨constant, back, hconstant, hwidth, hfilled, rfl⟩
  · rintro ⟨constant, back, hconstant, hwidth, hfilled, rfl⟩
    exact ⟨constant, _, back, ⟨hconstant, rfl⟩, ⟨hwidth, hfilled⟩, rfl⟩

/-- An entry for which there is room is appended. -/
theorem addEntry_of_fits {pool : ConstantPool} {constant : Constant}
    (hfits : pool.size + constant.width ≤ maxSlots) :
    addEntry pool constant = pure (pool.append constant) := by
  rw [addEntry, push, if_neg (Nat.not_lt.2 hfits)]

/-- As long as the slots that are there and those that are missing are not too many, there is room
for every entry that is read. -/
private theorem takes_decodeSlots (missing : Nat) (pool : ConstantPool)
    (hfits : pool.size + missing ≤ maxSlots) :
    (decodeSlots pool missing).Takes (pool.FilledTo missing) := by
  induction pool, missing using decodeSlots.induct with
  | case1 pool => exact (Decoder.Takes.pure pool).congr fun filled bytes => filledTo_zero.symm
  | case2 pool =>
    -- one slot is missing, and a wide constant does not fit
    refine takes_constant_bind _ fun constant => ?_
    split
    case isTrue hwide =>
      refine (Decoder.Takes.throw _).congr fun filled bytes => ?_
      simp [Constant.width, hwide]
    case isFalse hwide =>
      have hwidth : constant.width = 1 := if_neg hwide
      rw [addEntry_of_fits (hwidth ▸ hfits)]
      refine (Decoder.Takes.pure _).congr fun filled bytes => ?_
      simp [hwidth, filledTo_zero]
  | case3 pool missing ih₁ ih₂ =>
    refine takes_constant_bind _ fun constant => ?_
    have hsize := size_append pool constant
    by_cases hwide : constant.isWide = true
    · have hwidth : constant.width = 2 := if_pos hwide
      rw [addEntry_of_fits (by omega), pure_bind, if_pos hwide]
      refine (ih₁ (pool.append constant) (by omega)).congr fun filled bytes => ?_
      simp [hwidth]
    · have hwidth : constant.width = 1 := if_neg hwide
      rw [addEntry_of_fits (by omega), pure_bind, if_neg hwide]
      refine (ih₂ (pool.append constant) (by omega)).congr fun filled bytes => ?_
      simp [hwidth]

/-! ### Pools -/

/-- The pool can be written without loss: its slots can be counted and are laid out well, and
each holds a constant that can be written without loss. -/
structure IsEncodable (pool : ConstantPool) : Prop where
  size_le : pool.size ≤ maxSlots
  laidOut : LaidOut false pool.slots.toList
  constants : ∀ constant ∈ pool.slots.toList, constant.IsEncodable

/-- A pool is read from its count and its constants. An empty pool may have the count zero, too. -/
theorem takes_decoder :
    decoder.Takes fun pool bytes => pool.IsEncodable ∧
      ∃ count, count < 2 ^ 16 ∧ count - 1 = pool.size ∧
        bytes = bigEndian 2 count ++ pool.slots.toList.flatMap Constant.encode := by
  have hslots : ∀ count front, count < 256 ^ 2 ∧ front = bigEndian 2 count →
      (decodeSlots empty (count - 1)).Takes (empty.FilledTo (count - 1)) := by
    intro count _ hread
    refine takes_decodeSlots (count - 1) empty ?_
    rw [show empty.size = 0 from rfl, maxSlots]
    omega
  refine ((Decoder.takes_number 2).bind_of_read hslots).congr fun pool bytes => ?_
  constructor
  · rintro ⟨count, _, _, ⟨hcount, rfl⟩, ⟨slots, hslots, hlength, hlaid, hencodable, rfl⟩, rfl⟩
    rw [show empty.slots.toList = [] from rfl, List.nil_append] at hslots
    subst hslots
    have hsize : count - 1 = pool.size := hlength.symm
    exact ⟨⟨by rw [maxSlots]; omega, hlaid, hencodable⟩, count, hcount, hsize, rfl⟩
  · rintro ⟨⟨-, hlaid, hencodable⟩, count, hcount, hsize, rfl⟩
    exact ⟨count, _, _, ⟨hcount, rfl⟩, ⟨_, rfl, hsize.symm, hlaid, hencodable, rfl⟩, rfl⟩

end ConstantPool

end ClassStub
