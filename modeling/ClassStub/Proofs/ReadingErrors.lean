import ClassStub.Proofs.Interning
import ClassStub.Proofs.Streaming

/-!
# Where reading a pool fails

Two errors of the reader say where in the file something is wrong: a tag that is not known is
reported with its offset, and a text that is not well formed with the index of its slot. Offset and
index move at different paces. Texts have any length, and a wide constant fills two slots of which
the second has no bytes.

What has been read of a pool when such an error occurs are slots that are laid out well, and the
error tells exactly how many bytes and how many slots they take (`ConstantPool.Blames`). This is
carried through the reader of the slots backwards from the error: each constant that was read puts
its bytes and its slots in front (`ConstantPool.Blames.cons`). All other decoders of a class file
have errors of other kinds only (`Decoder.FailsPlainly`), so the two errors come from nowhere else.

Each entry that was read is pushed, which fails if the pool is full. That the reader never meets
this limit follows from the count, which has sixteen bits: at every step the slots that are there
and those that are missing are no more than a pool may have (`ConstantPool.decodeSlots_eq_error`).
-/

namespace ClassStub

/-! ### Plain failures -/

/-- The error is about the bytes of the file as a whole, or about an index that does not lead to
what it should. -/
def FormatError.IsPlain : FormatError → Prop
  | .unexpectedEnd _ | .wrongMagic _ | .trailingBytes _ => True
  | .pool error => error ≠ .outOfSpace
  | _ => False

namespace Decoder

variable {α β : Type}

/-- The decoder has plain errors only. -/
structure FailsPlainly (decoder : Decoder α) : Prop where
  isPlain {start : Input} {error : FormatError} : decoder start = .error error → error.IsPlain

/-- A decoder that takes nothing does not fail. -/
theorem FailsPlainly.pure (a : α) : (Pure.pure a : Decoder α).FailsPlainly where
  isPlain := by rintro _ _ ⟨⟩

/-- A decoder that fails at once fails as it says. -/
theorem FailsPlainly.throw {error : FormatError} (h : error.IsPlain) :
    (MonadExcept.throw error : Decoder α).FailsPlainly where
  isPlain := by
    rintro _ _ ⟨⟩
    exact h

/-- One decoder behind another fails as either does. -/
theorem FailsPlainly.bind {decoder : Decoder α} {next : α → Decoder β}
    (hdecoder : decoder.FailsPlainly) (hnext : ∀ a, (next a).FailsPlainly) :
    (decoder >>= next).FailsPlainly where
  isPlain := by
    intro start error h
    obtain hfirst | ⟨a, middle, -, hsecond⟩ := bind_eq_error_iff.1 h
    · exact hdecoder.isPlain hfirst
    · exact (hnext a).isPlain hsecond

private theorem failsPlainly_ofPool {value : Except PoolError α} (h : value ≠ .error .outOfSpace) :
    (ofPool value).FailsPlainly := by
  cases value with
  | ok a => exact .pure a
  | error error =>
    refine ⟨?_⟩
    rintro _ _ ⟨⟩ rfl
    exact h rfl

private theorem of_liftM_eq_error {value : Except FormatError α} {start : Input}
    {error : FormatError}
    (h : (liftM value : Decoder α) start = .error error) : value = .error error := by
  cases value with
  | ok a => exact nomatch h
  | error cause => exact congrArg Except.error (Except.error.inj h)

private theorem failsPlainly_take (count : Nat) : (take count).FailsPlainly where
  isPlain := by
    intro start error h
    obtain rfl := take_eq_error h
    trivial

private theorem FailsPlainly.isInherited : IsInherited FailsPlainly where
  pure := .pure
  take := failsPlainly_take
  bind := .bind

end Decoder

/-! ### One constant -/

namespace Constant

/-- The tags of constants. -/
def tags : List UInt8 := [1, 3, 4, 5, 6, 7, 8, 9, 10, 11, 12, 15, 16, 17, 18, 19, 20]

/-- The bytes, which stand at an offset and are for the slot with an index, open with no constant,
and the error says why: the first byte is not a tag, or it is that of a text and the bytes of the
text are not well formed. -/
inductive Blames (index : UInt16) (offset : Nat) : Bytes → FormatError → Prop
  | tag {tag : UInt8} {behind : Bytes} (hunknown : tag ∉ tags) :
      Blames index offset (tag :: behind) (.unknownTag tag offset)
  | text {text behind : Bytes} (hlength : text.length < 2 ^ 16)
      (hformed : ModifiedUtf8.isWellFormed text = false) :
      Blames index offset (1 :: bigEndian 2 text.length ++ text ++ behind) (.invalidText index)

private theorem ofTextBytes_eq_error {index : UInt16} {bytes : Bytes} {error : FormatError}
    (h : ofTextBytes index bytes = .error error) :
    error = .invalidText index ∧ ModifiedUtf8.isWellFormed bytes = false := by
  rw [ofTextBytes] at h
  split at h
  · cases h
  · split at h
    · cases h
    case isFalse hformed => exact ⟨(Except.error.inj h).symm, eq_false_of_ne_true hformed⟩

/-- A constant is not read because of a plain failure, or because the bytes open with none. -/
theorem decoder_eq_error {index : UInt16} {start : Input} {error : FormatError}
    (h : decoder index start = .error error) :
    error.IsPlain ∨ Blames index start.offset start.rest error := by
  have hparts := Decoder.FailsPlainly.isInherited
  rw [decoder, Decoder.bind_of_eq_ok (rfl : Decoder.offset start = .ok (start.offset, start))] at h
  obtain hfirst | ⟨tag, middle, htag, h⟩ := Decoder.bind_eq_error_iff.1 h
  · exact .inl (hparts.u8.isPlain hfirst)
  obtain ⟨_, rfl, hrest, -⟩ := (Decoder.takes_u8 _ _ _).1 htag
  -- one case for each tag, by the kind of the payload
  split at h
  case h_1 =>
    obtain hsized | ⟨text, last, hsized, htext⟩ := Decoder.bind_eq_error_iff.1 h
    · exact .inl ((hparts.sized 2).isPlain hsized)
    · obtain ⟨_, ⟨hlength, rfl⟩, hmiddle, -⟩ := (Decoder.takes_sized 2 _ _ _).1 hsized
      obtain ⟨rfl, hformed⟩ := ofTextBytes_eq_error (Decoder.of_liftM_eq_error htext)
      rw [hrest, hmiddle]
      exact .inr (.text hlength hformed)
  case h_18 =>
    obtain rfl := Except.error.inj h
    have hunknown : tag ∉ tags := by
      simp only [tags, List.mem_cons, List.not_mem_nil, or_false, not_or]
      and_intros <;> assumption
    rw [hrest]
    exact .inr (.tag hunknown)
  case h_12 =>
    exact .inl ((hparts.u8.bind fun _ => hparts.u16.bind fun _ => .pure _).isPlain h)
  case h_2 | h_3 => exact .inl ((hparts.u32.bind fun _ => .pure _).isPlain h)
  case h_4 | h_5 => exact .inl ((hparts.u64.bind fun _ => .pure _).isPlain h)
  case h_8 | h_9 | h_10 | h_11 | h_14 | h_15 => exact .inl ((hparts.pairDecoder _).isPlain h)
  case h_6 | h_7 | h_13 | h_16 | h_17 =>
    exact .inl ((hparts.u16.bind fun _ => .pure _).isPlain h)

end Constant

/-! ### The slots of a pool -/

namespace ConstantPool

/-- The bytes, which stand at an offset and are for `missing` slots behind some others, open with
slots that are laid out well, and what comes next opens with no constant though there is a slot for
one. The error says why, at the offset that the slots lead to and with the index behind them. -/
inductive Blames (before missing offset : Nat) : Bytes → FormatError → Prop
  | behind {slots : List Constant} {bytes : Bytes} {error : FormatError}
      (hfits : slots.length < missing) (hlaid : LaidOut false slots)
      (hencodable : ∀ slot ∈ slots, slot.IsEncodable)
      (hblames : Constant.Blames (UInt16.ofNat (before + slots.length + 1))
        (offset + (slots.flatMap Constant.encode).length) bytes error) :
      Blames before missing offset (slots.flatMap Constant.encode ++ bytes) error

/-- The constant that comes next is the one that cannot be read. -/
private theorem Blames.next {before missing offset : Nat} {bytes : Bytes} {error : FormatError}
    (hmissing : 0 < missing)
    (h : Constant.Blames (UInt16.ofNat (before + 1)) offset bytes error) :
    Blames before missing offset bytes error := by
  have hlaid : LaidOut false [] := rfl
  exact .behind hmissing hlaid (List.forall_mem_nil _) h

/-- A constant that was read moves the offset by its bytes and the index by its slots. -/
theorem Blames.cons {before missing offset : Nat} {bytes : Bytes} {error : FormatError}
    {constant : Constant} (husable : constant.isUnusable = false)
    (hconstant : constant.IsEncodable)
    (h : Blames (before + constant.width) (missing - constant.width)
      (offset + constant.encode.length) bytes error) :
    Blames before missing offset (constant.encode ++ bytes) error := by
  obtain @⟨slots, bytes, _, hfits, hlaid, hencodable, hblames⟩ := h
  have hlength : (constant.slots ++ slots).length = constant.width + slots.length := by
    rw [List.length_append, Constant.length_slots]
  have hbytes : (constant.slots ++ slots).flatMap Constant.encode =
      constant.encode ++ slots.flatMap Constant.encode := by
    rw [List.flatMap_append, Constant.flatMap_encode_slots]
  rw [← List.append_assoc, ← hbytes]
  refine .behind (by omega) (laidOut_slots_append.2 ⟨husable, hlaid⟩)
    (List.forall_mem_append.2 ⟨Constant.forall_slots_isEncodable.2 hconstant, hencodable⟩) ?_
  rwa [hlength, hbytes, List.length_append, ← Nat.add_assoc, ← Nat.add_assoc]

/-- The slots are not read because of a plain failure, or because of a constant among them. The
pool is never full, for there is room for the slots that are missing. -/
theorem decodeSlots_eq_error {pool : ConstantPool} {missing : Nat} {start : Input}
    {error : FormatError} (hfits : pool.size + missing ≤ maxSlots)
    (h : decodeSlots pool missing start = .error error) :
    error.IsPlain ∨ Blames pool.size missing start.offset start.rest error := by
  induction pool, missing using decodeSlots.induct generalizing start with
  | case1 pool => cases h
  | case2 pool =>
    obtain hconstant | ⟨constant, middle, -, h⟩ := Decoder.bind_eq_error_iff.1 h
    · exact (Constant.decoder_eq_error hconstant).imp_right (.next Nat.one_pos)
    · -- one slot is missing, and a wide constant does not fit
      split at h
      case isTrue =>
        obtain rfl := Except.error.inj h
        exact .inl PoolError.noConfusion
      case isFalse hnarrow =>
        have hwidth : constant.width = 1 := if_neg hnarrow
        rw [addEntry_of_fits (hwidth ▸ hfits)] at h
        cases h
  | case3 pool missing ih₁ ih₂ =>
    obtain hconstant | ⟨constant, middle, hconstant, h⟩ := Decoder.bind_eq_error_iff.1 h
    · exact (Constant.decoder_eq_error hconstant).imp_right (.next (Nat.succ_pos _))
    · obtain ⟨_, ⟨⟨husable, hencodable⟩, rfl⟩, hrest, hoffset⟩ :=
        (Constant.takes_decoder _ _ _ _).1 hconstant
      have hsize := size_append pool constant
      have hlater : error.IsPlain ∨ Blames (pool.append constant).size
          (missing + 2 - constant.width) middle.offset middle.rest error := by
        by_cases hwide : constant.isWide = true
        · have hwidth : constant.width = 2 := if_pos hwide
          rw [addEntry_of_fits (by omega), pure_bind, if_pos hwide] at h
          rw [hwidth]
          exact ih₁ (pool.append constant) (by omega) h
        · have hwidth : constant.width = 1 := if_neg hwide
          rw [addEntry_of_fits (by omega), pure_bind, if_neg hwide] at h
          rw [hwidth]
          exact ih₂ (pool.append constant) (by omega) h
      rw [hsize, hoffset] at hlater
      rw [hrest]
      exact hlater.imp_right (.cons husable hencodable)

/-- The slots stand behind their count. -/
theorem decoder_eq_error {start : Input} {error : FormatError}
    (h : decoder start = .error error) : error.IsPlain ∨
      Blames 0 (ofBigEndian (start.rest.take 2) - 1) (start.offset + 2) (start.rest.drop 2)
        error := by
  obtain hcount | ⟨count, middle, hcount, h⟩ := Decoder.bind_eq_error_iff.1 h
  · exact .inl ((Decoder.FailsPlainly.isInherited.number 2).isPlain hcount)
  · obtain ⟨_, ⟨hlt, rfl⟩, hrest, hoffset⟩ := (Decoder.takes_number 2 _ _ _).1 hcount
    have hfits : empty.size + (count - 1) ≤ maxSlots := by
      rw [show empty.size = 0 from rfl, maxSlots]
      omega
    refine (decodeSlots_eq_error hfits h).imp_right fun hblames => ?_
    have htake : start.rest.take 2 = bigEndian 2 count := by
      rw [hrest, List.take_left' (length_bigEndian 2 count)]
    have hdrop : start.rest.drop 2 = middle.rest := by
      rw [hrest, List.drop_left' (length_bigEndian 2 count)]
    rw [hoffset, length_bigEndian] at hblames
    rwa [htake, hdrop, ofBigEndian_bigEndian, Nat.mod_eq_of_lt hlt]

/-- The slots in front of the constant that is blamed form a pool. -/
private theorem Blames.exists_pool {count offset : Nat} {bytes : Bytes} {error : FormatError}
    (hcount : count < 2 ^ 16) (h : Blames 0 (count - 1) offset bytes error) :
    ∃ (pool : ConstantPool) (back : Bytes), pool.IsEncodable ∧ pool.size + 1 < count ∧
      bytes = pool.slots.toList.flatMap Constant.encode ++ back ∧
      Constant.Blames (UInt16.ofNat (pool.size + 1))
        (offset + (pool.slots.toList.flatMap Constant.encode).length) back error := by
  obtain @⟨slots, back, _, hfits, hlaid, hencodable, hblames⟩ := h
  rw [Nat.zero_add] at hblames
  have hsize : slots.length ≤ maxSlots := by
    rw [maxSlots]
    omega
  have hlt : slots.length + 1 < count := by omega
  exact ⟨⟨slots.toArray⟩, back, ⟨hsize, hlaid, hencodable⟩, hlt, rfl, hblames⟩

end ConstantPool

/-! ### Class files -/

namespace ClassFile

/-- An error that is not plain comes from the pool, whose count stands behind eight bytes. -/
theorem decoder_eq_error {bytes : Bytes} {error : FormatError}
    (h : decoder ⟨0, bytes⟩ = .error error) : error.IsPlain ∨
      ConstantPool.Blames 0 (ofBigEndian (bytes.extract 8 10) - 1) 10 (bytes.drop 10) error := by
  have hparts := Decoder.FailsPlainly.isInherited
  rw [decoder_eq] at h
  obtain hmagic | ⟨magic, afterMagic, hmagic, h⟩ := Decoder.bind_eq_error_iff.1 h
  · exact .inl ((hparts.magicDecoder fun _ => .throw trivial).isPlain hmagic)
  obtain hminor | ⟨minorVersion, afterMinor, hminor, h⟩ := Decoder.bind_eq_error_iff.1 h
  · exact .inl (hparts.u16.isPlain hminor)
  obtain hmajor | ⟨majorVersion, afterMajor, hmajor, h⟩ := Decoder.bind_eq_error_iff.1 h
  · exact .inl (hparts.u16.isPlain hmajor)
  obtain hpool | ⟨pool, behind, -, hbody⟩ := Decoder.bind_eq_error_iff.1 h
  swap
  · have hplain := hparts.bodyDecoder
      (fun index => Decoder.failsPlainly_ofPool (pool.utf8_ne_outOfSpace index))
      (fun index => Decoder.failsPlainly_ofPool (pool.className_ne_outOfSpace index))
      magic minorVersion majorVersion
    exact .inl (hplain.isPlain hbody)
  obtain ⟨_, ⟨-, rfl⟩, hrest₁, hoffset₁⟩ := (takes_magicDecoder _ _ _).1 hmagic
  obtain ⟨_, rfl, hrest₂, hoffset₂⟩ := (Decoder.takes_u16 _ _ _).1 hminor
  obtain ⟨_, rfl, hrest₃, hoffset₃⟩ := (Decoder.takes_u16 _ _ _).1 hmajor
  simp only [length_bigEndian] at hoffset₁ hoffset₂ hoffset₃
  have hoffset : afterMajor.offset = 8 := by omega
  have hbytes : bytes = bigEndian 4 magic.toNat ++ (bigEndian 2 minorVersion.toNat ++
      (bigEndian 2 majorVersion.toNat ++ afterMajor.rest)) := by
    rw [← hrest₃, ← hrest₂, ← hrest₁]
  have hrest : bytes.drop 8 = afterMajor.rest := by
    rw [hbytes, ← List.append_assoc, ← List.append_assoc]
    exact List.drop_left' (by simp)
  have hpoolError := ConstantPool.decoder_eq_error hpool
  rwa [← hrest, hoffset, List.drop_drop] at hpoolError

/-- What is reported about a constant is about the one behind the slots that were read. -/
private theorem decode_eq_error {bytes : Bytes} {error : FormatError}
    (h : decode bytes = .error error) :
    error.IsPlain ∨ ∃ (pool : ConstantPool) (back : Bytes), pool.IsEncodable ∧
      pool.size + 1 < ofBigEndian (bytes.extract 8 10) ∧
      bytes.drop 10 = pool.slots.toList.flatMap Constant.encode ++ back ∧
      Constant.Blames (UInt16.ofNat (pool.size + 1))
        (10 + (pool.slots.toList.flatMap Constant.encode).length) back error := by
  obtain hrun | ⟨c, stop, -, rfl⟩ := Decoder.runAll_eq_error h
  · have hcount : ofBigEndian (bytes.extract 8 10) < 2 ^ 16 :=
      calc ofBigEndian (bytes.extract 8 10)
        _ < 256 ^ (bytes.extract 8 10).length := ofBigEndian_lt _
        _ ≤ 256 ^ 2 := Nat.pow_le_pow_right (by decide) (List.length_take_le 2 (bytes.drop 8))
    exact (decoder_eq_error hrun).imp_right (ConstantPool.Blames.exists_pool hcount)
  · exact .inl trivial

/-- **Errors in a pool name the culprit.** A tag is reported as not known where it stands: it is
none of the tags of constants, and the bytes from the pool's first to it are those of slots that
are fewer than the count says. A text is reported as not well formed by its index: behind as many
slots as are in front of this index comes a text that is not well formed. Nothing is ever reported
about the payload of an attribute, nor that a pool is full. -/
theorem decode_blames (bytes : Bytes) :
    (∀ tag offset, decode bytes = .error (.unknownTag tag offset) →
      bytes[offset]? = some tag ∧ tag ∉ Constant.tags ∧ 10 ≤ offset ∧
        ∃ pool : ConstantPool, pool.IsEncodable ∧
          pool.size + 1 < ofBigEndian (bytes.extract 8 10) ∧
          bytes.extract 10 offset = pool.slots.toList.flatMap Constant.encode) ∧
      (∀ index, decode bytes = .error (.invalidText index) →
        ∃ (pool : ConstantPool) (text : Bytes), pool.IsEncodable ∧ pool.size + 1 = index.toNat ∧
          text.length < 2 ^ 16 ∧ ModifiedUtf8.isWellFormed text = false ∧
          pool.slots.toList.flatMap Constant.encode ++ 1 :: (bigEndian 2 text.length ++ text) <+:
            bytes.drop 10) ∧
      (∀ left, decode bytes ≠ .error (.codeSlack left)) ∧
      decode bytes ≠ .error .exceptionsSlack ∧
      (∀ length, decode bytes ≠ .error (.signatureLength length)) ∧
      decode bytes ≠ .error (.pool .outOfSpace) := by
  refine ⟨fun tag offset h => ?_, fun index h => ?_, fun left h => ?_, fun h => ?_,
    fun length h => ?_, fun h => ?_⟩
  · obtain ⟨⟨⟩⟩ | ⟨pool, _, hpool, hsize, hbytes, hunknown⟩ := decode_eq_error h
    cases hunknown with
    | @tag _ behind hunknown =>
      refine ⟨?_, hunknown, Nat.le_add_right 10 _, pool, hpool, hsize, ?_⟩
      · rw [← List.getElem?_drop, hbytes, List.getElem?_append_right le_rfl, Nat.sub_self]
        rfl
      · rw [List.extract_eq_take_drop, Nat.add_sub_cancel_left, hbytes, List.take_left]
  · obtain ⟨⟨⟩⟩ | ⟨pool, _, hpool, hsize, hbytes, hmalformed⟩ := decode_eq_error h
    cases hmalformed with
    | @text text behind hlength hformed =>
      have hfits : pool.size + 1 < 2 ^ 16 := Nat.lt_succ_of_le (Nat.succ_le_succ hpool.size_le)
      refine ⟨pool, text, hpool, ?_, hlength, hformed, behind, ?_⟩
      · rw [UInt16.toNat_ofNat', Nat.mod_eq_of_lt hfits]
      · simp [hbytes]
  · obtain ⟨⟨⟩⟩ | ⟨pool, back, -, -, -, ⟨⟩⟩ := decode_eq_error h
  · obtain ⟨⟨⟩⟩ | ⟨pool, back, -, -, -, ⟨⟩⟩ := decode_eq_error h
  · obtain ⟨⟨⟩⟩ | ⟨pool, back, -, -, -, ⟨⟩⟩ := decode_eq_error h
  · -- a pool that is read is filled by `push`, which always has room there
    obtain hplain | ⟨pool, back, -, -, -, ⟨⟩⟩ := decode_eq_error h
    exact hplain rfl

/-- The front of a class file that claims to have five slots and has a long and a text in three. -/
def wideBytes : Bytes :=
  bigEndian 4 magicNumber.toNat ++ [0, 0, 0, 52, 0, 6] ++
    (Constant.long 7).encode ++ (Constant.utf8 "A").encode

/-- The constant behind three slots and 23 bytes, with a tag that is not known and with a text that
is not well formed. -/
theorem decode_blames_wideBytes :
    (decode (wideBytes ++ [2]) = .error (.unknownTag 2 23) ∧
      ∃ pool : ConstantPool, pool.IsEncodable ∧ pool.size + 1 < 6 ∧
        (wideBytes ++ [2]).extract 10 23 = pool.slots.toList.flatMap Constant.encode) ∧
      decode (wideBytes ++ [1, 0, 1, 255]) = .error (.invalidText 4) ∧
        ∃ (pool : ConstantPool) (text : Bytes), pool.size + 1 = 4 ∧
          ModifiedUtf8.isWellFormed text = false ∧
          pool.slots.toList.flatMap Constant.encode ++
            1 :: (bigEndian 2 text.length ++ text) <+: (wideBytes ++ [1, 0, 1, 255]).drop 10 := by
  have htag : decode (wideBytes ++ [2]) = .error (.unknownTag 2 23) := by decide +kernel
  have htext : decode (wideBytes ++ [1, 0, 1, 255]) = .error (.invalidText 4) := by decide +kernel
  obtain ⟨-, -, -, hpool⟩ := (decode_blames (wideBytes ++ [2])).1 2 23 htag
  obtain ⟨pool, text, -, hsize, -, hformed, hbytes⟩ :=
    (decode_blames (wideBytes ++ [1, 0, 1, 255])).2.1 4 htext
  exact ⟨⟨htag, hpool⟩, htext, pool, text, hsize, hformed, hbytes⟩

end ClassFile

end ClassStub
