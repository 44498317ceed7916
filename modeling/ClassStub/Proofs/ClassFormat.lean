import ClassStub.ClassFile.Decode
import ClassStub.ClassFile.Encode
import ClassStub.Proofs.PoolFormat

/-!
# The written form of a class

Each part of a class file has a predicate `IsEncodable`: it can be written without loss, which
means that every count and every length fits its field and that every name the reader looks up
is there. The decoder of the part reads exactly the encodings of its encodable values
(`Attribute.takes_decoder`, `CodePayload.takes_decoder`, `Member.takes_decoder`), and so decoding
a class and encoding an encodable class are inverse to each other:

* `ClassFile.encode_eq_of_decode`: a class that was read is written back to the same bytes.
* `ClassFile.decode_encode_iff_isEncodable`: exactly the encodable classes are read back from
  their bytes, and only they are ever read from any bytes.
-/

namespace ClassStub

/-! ### Attributes -/

namespace Attribute

/-- The attribute can be written without loss: the length of its payload fits in thirty-two
bits. -/
def IsEncodable (attr : Attribute) : Prop := attr.info.length < 2 ^ 32

/-- An attribute is read from its name index, its length, and its payload. -/
theorem takes_decoder :
    decoder.Takes fun attr bytes => attr.IsEncodable ∧ bytes = attr.encode := by
  refine (Decoder.takes_u16.bind fun nameIndex => (Decoder.takes_sized 4).bind fun info =>
    Decoder.Takes.pure (Attribute.mk nameIndex info)).congr fun attr bytes => ?_
  constructor
  · rintro ⟨nameIndex, _, _, rfl, ⟨info, _, _, ⟨hlength, rfl⟩, ⟨rfl, rfl⟩, rfl⟩, rfl⟩
    exact ⟨hlength, by simp [encode]⟩
  · rintro ⟨hlength, rfl⟩
    exact ⟨attr.nameIndex, _, _, rfl, ⟨attr.info, _, _, ⟨hlength, rfl⟩, ⟨rfl, rfl⟩, rfl⟩,
      by simp [encode]⟩

end Attribute

/-! ### Code payloads -/

/-- An exception handler is read from its four numbers. -/
theorem ExceptionHandler.takes_decoder :
    decoder.Takes fun range bytes => bytes = range.encode := by
  refine (Decoder.takes_u16.bind fun start => Decoder.takes_u16.bind fun stop =>
    Decoder.takes_u16.bind fun handler => Decoder.takes_u16.bind fun catchType =>
      Decoder.Takes.pure (ExceptionHandler.mk start stop handler catchType)).congr
        fun range bytes => ?_
  constructor
  · rintro ⟨start, _, _, rfl, ⟨stop, _, _, rfl, ⟨handler, _, _, rfl,
      ⟨catchType, _, _, rfl, ⟨rfl, rfl⟩, rfl⟩, rfl⟩, rfl⟩, rfl⟩
    simp [encode]
  · rintro rfl
    exact ⟨range.start, _, _, rfl, ⟨range.stop, _, _, rfl, ⟨range.handler, _, _, rfl,
      ⟨range.catchType, _, _, rfl, ⟨rfl, rfl⟩, rfl⟩, rfl⟩, rfl⟩, by simp [encode]⟩

namespace CodePayload

/-- The payload can be written without loss. -/
structure IsEncodable (payload : CodePayload) : Prop where
  code : payload.code.length < 2 ^ 32
  handlerCount : payload.handlers.length < 2 ^ 16
  attributeCount : payload.attributes.length < 2 ^ 16
  attributes : ∀ attr ∈ payload.attributes, attr.IsEncodable

/-- A body is read from its limits, its code, its handlers, and its attributes. -/
theorem takes_decoder :
    decoder.Takes fun payload bytes => payload.IsEncodable ∧ bytes = payload.encode := by
  have hhandler : ExceptionHandler.decoder.Takes fun range bytes =>
      True ∧ bytes = range.encode :=
    ExceptionHandler.takes_decoder.congr fun range bytes => (true_and _).symm.to_iff
  refine (Decoder.takes_u16.bind fun maxStack => Decoder.takes_u16.bind fun maxLocals =>
    (Decoder.takes_sized 4).bind fun code => (Decoder.takes_counted hhandler).bind fun handlers =>
      (Decoder.takes_counted Attribute.takes_decoder).bind fun attributes =>
        Decoder.Takes.pure (CodePayload.mk maxStack maxLocals code handlers attributes)).congr
          fun payload bytes => ?_
  constructor
  · rintro ⟨maxStack, _, _, rfl, ⟨maxLocals, _, _, rfl, ⟨code, _, _, ⟨hcode, rfl⟩,
      ⟨handlers, _, _, ⟨⟨hhandlers, -⟩, rfl⟩, ⟨attributes, _, _, ⟨⟨hcount, hattributes⟩, rfl⟩,
        ⟨rfl, rfl⟩, rfl⟩, rfl⟩, rfl⟩, rfl⟩, rfl⟩
    exact ⟨⟨hcode, hhandlers, hcount, hattributes⟩, by simp [encode]⟩
  · rintro ⟨h, rfl⟩
    exact ⟨payload.maxStack, _, _, rfl, ⟨payload.maxLocals, _, _, rfl,
      ⟨payload.code, _, _, ⟨h.code, rfl⟩,
        ⟨payload.handlers, _, _, ⟨⟨h.handlerCount, fun _ _ => trivial⟩, rfl⟩,
          ⟨payload.attributes, _, _, ⟨⟨h.attributeCount, h.attributes⟩, rfl⟩,
            ⟨rfl, rfl⟩, rfl⟩, rfl⟩, rfl⟩, rfl⟩, by simp [encode]⟩

/-- A payload is read from its written form, if it has one, and from no other bytes. -/
theorem decode_eq_ok_iff {info : Bytes} {payload : CodePayload} :
    decode info = .ok payload ↔ payload.IsEncodable ∧ info = payload.encode :=
  Decoder.runAll_eq_ok_iff takes_decoder

end CodePayload

/-! ### Members -/

namespace Member

/-- The member can be written without loss, and its name and descriptor are texts of the pool. -/
structure IsEncodable (member : Member) (pool : ConstantPool) : Prop where
  name : ∃ name, member.name pool = .ok name
  descriptor : ∃ descriptor, member.descriptor pool = .ok descriptor
  attributeCount : member.attributes.length < 2 ^ 16
  attributes : ∀ attr ∈ member.attributes, attr.IsEncodable

/-- A member is read from its flags, its names, which must be texts, and its attributes. -/
theorem takes_decoder (pool : ConstantPool) :
    (decoder pool).Takes fun member bytes => member.IsEncodable pool ∧ bytes = member.encode := by
  refine (Decoder.takes_u16.bind fun bits => Decoder.takes_u16.bind fun nameIndex =>
    (Decoder.takes_ofPool (pool.utf8 nameIndex)).bind fun _ => Decoder.takes_u16.bind
      fun descriptorIndex => (Decoder.takes_ofPool (pool.utf8 descriptorIndex)).bind fun _ =>
        (Decoder.takes_counted Attribute.takes_decoder).bind fun attributes =>
          Decoder.Takes.pure (Member.mk ⟨bits⟩ nameIndex descriptorIndex attributes)).congr
            fun member bytes => ?_
  constructor
  · rintro ⟨bits, _, _, rfl, ⟨nameIndex, _, _, rfl, ⟨name, _, _, ⟨hname, rfl⟩,
      ⟨descriptorIndex, _, _, rfl, ⟨descriptor, _, _, ⟨hdescriptor, rfl⟩,
        ⟨attributes, _, _, ⟨⟨hcount, hattributes⟩, rfl⟩, ⟨rfl, rfl⟩, rfl⟩, rfl⟩, rfl⟩, rfl⟩,
          rfl⟩, rfl⟩
    exact ⟨⟨⟨name, hname⟩, ⟨descriptor, hdescriptor⟩, hcount, hattributes⟩, by simp [encode]⟩
  · rintro ⟨⟨⟨name, hname⟩, ⟨descriptor, hdescriptor⟩, hcount, hattributes⟩, rfl⟩
    exact ⟨member.access.bits, _, _, rfl, ⟨member.nameIndex, _, _, rfl,
      ⟨name, _, _, ⟨hname, rfl⟩, ⟨member.descriptorIndex, _, _, rfl,
        ⟨descriptor, _, _, ⟨hdescriptor, rfl⟩, ⟨member.attributes, _, _,
          ⟨⟨hcount, hattributes⟩, rfl⟩, ⟨rfl, rfl⟩, rfl⟩, rfl⟩, rfl⟩, rfl⟩, rfl⟩,
      by simp [encode]⟩

end Member

/-! ### Classes -/

namespace ClassFile

/-- What stands behind the pool can be written without loss: lists can be counted, and the
class, its superclass if it has one, its interfaces and its members have names in the pool. -/
structure HasEncodableBody (c : ClassFile) : Prop where
  thisClass : ∃ name, c.pool.className c.thisClass = .ok name
  superClass : c.superClass ≠ 0 → ∃ name, c.pool.className c.superClass = .ok name
  interfaceCount : c.interfaces.length < 2 ^ 16
  interfaces : ∀ index ∈ c.interfaces, ∃ name, c.pool.className index = .ok name
  fieldCount : c.fields.length < 2 ^ 16
  fields : ∀ field ∈ c.fields, field.IsEncodable c.pool
  methodCount : c.methods.length < 2 ^ 16
  methods : ∀ method ∈ c.methods, method.IsEncodable c.pool
  attributeCount : c.attributes.length < 2 ^ 16
  attributes : ∀ attr ∈ c.attributes, attr.IsEncodable

/-- The class can be written without loss. -/
structure IsEncodable (c : ClassFile) : Prop extends c.HasEncodableBody where
  magic : c.magic = magicNumber
  pool : c.pool.IsEncodable

private theorem takes_classIndexDecoder (pool : ConstantPool) :
    (classIndexDecoder pool).Takes fun index bytes =>
      (∃ name, pool.className index = .ok name) ∧ bytes = bigEndian 2 index.toNat := by
  refine (Decoder.takes_u16.bind fun index => (Decoder.takes_ofPool (pool.className index)).bind
    fun _ => Decoder.Takes.pure index).congr fun index bytes => ?_
  constructor
  · rintro ⟨index, _, _, rfl, ⟨name, _, _, ⟨hname, rfl⟩, ⟨rfl, rfl⟩, rfl⟩, rfl⟩
    exact ⟨⟨name, hname⟩, by simp⟩
  · rintro ⟨⟨name, hname⟩, rfl⟩
    exact ⟨index, _, _, rfl, ⟨name, _, _, ⟨hname, rfl⟩, ⟨rfl, rfl⟩, rfl⟩, by simp⟩

private theorem takes_superClassDecoder (pool : ConstantPool) :
    (superClassDecoder pool).Takes fun index bytes =>
      (index ≠ 0 → ∃ name, pool.className index = .ok name) ∧
        bytes = bigEndian 2 index.toNat := by
  refine (Decoder.takes_u16.bind (G := fun index found bytes =>
    (index ≠ 0 → ∃ name, pool.className index = .ok name) ∧ found = index ∧ bytes = [])
      fun index => ?_).congr fun index bytes => ?_
  · -- an index of zero is not looked up
    by_cases hzero : index = 0
    · simp only [hzero]
      exact (Decoder.Takes.pure 0).congr fun found bytes => by simp
    · simp only [ne_eq, hzero, not_false_eq_true, if_true, true_implies]
      refine ((Decoder.takes_ofPool (pool.className index)).bind fun _ =>
        Decoder.Takes.pure index).congr fun found bytes => ?_
      constructor
      · rintro ⟨name, _, _, ⟨hname, rfl⟩, ⟨rfl, rfl⟩, rfl⟩
        exact ⟨⟨name, hname⟩, rfl, rfl⟩
      · rintro ⟨⟨name, hname⟩, rfl, rfl⟩
        exact ⟨name, [], [], ⟨hname, rfl⟩, ⟨rfl, rfl⟩, rfl⟩
  · constructor
    · rintro ⟨index, _, _, rfl, ⟨hname, rfl, rfl⟩, rfl⟩
      exact ⟨hname, by simp⟩
    · rintro ⟨hname, rfl⟩
      exact ⟨index, _, _, rfl, ⟨hname, rfl, rfl⟩, by simp⟩

/-- The magic number is read if it is the right one. -/
theorem takes_magicDecoder :
    magicDecoder.Takes fun magic bytes =>
      magic = magicNumber ∧ bytes = bigEndian 4 magic.toNat := by
  refine (Decoder.takes_u32.bind (G := fun magic found bytes =>
    magic = magicNumber ∧ found = magic ∧ bytes = []) fun magic => ?_).congr fun magic bytes => ?_
  · split
    case isTrue hmagic => exact (Decoder.Takes.pure magic).congr fun found bytes => by simp [hmagic]
    case isFalse hmagic => exact (Decoder.Takes.throw _).congr fun found bytes => by simp [hmagic]
  · constructor
    · rintro ⟨magic, _, _, rfl, ⟨hmagic, rfl, rfl⟩, rfl⟩
      exact ⟨hmagic, by simp⟩
    · rintro ⟨hmagic, rfl⟩
      exact ⟨magic, _, _, rfl, ⟨hmagic, rfl, rfl⟩, by simp⟩

/-- What is left to read behind the pool. -/
def bodyDecoder (magic : UInt32) (minorVersion majorVersion : UInt16) (pool : ConstantPool) :
    Decoder ClassFile := do
  let access ← Decoder.u16
  let thisClass ← classIndexDecoder pool
  let superClass ← superClassDecoder pool
  let interfaces ← Decoder.counted (classIndexDecoder pool)
  let fields ← Decoder.counted (Member.decoder pool)
  let methods ← Decoder.counted (Member.decoder pool)
  let attributes ← Decoder.counted Attribute.decoder
  return { magic, minorVersion, majorVersion, pool, access := ⟨access⟩, thisClass, superClass,
           interfaces, fields, methods, attributes }

theorem decoder_eq : decoder = (do
    let magic ← magicDecoder
    let minorVersion ← Decoder.u16
    let majorVersion ← Decoder.u16
    let pool ← ConstantPool.decoder
    bodyDecoder magic minorVersion majorVersion pool) := rfl

private theorem takes_bodyDecoder (magic : UInt32) (minorVersion majorVersion : UInt16)
    (pool : ConstantPool) :
    (bodyDecoder magic minorVersion majorVersion pool).Takes fun c bytes =>
      (c.magic = magic ∧ c.minorVersion = minorVersion ∧ c.majorVersion = majorVersion ∧
        c.pool = pool) ∧ c.HasEncodableBody ∧ bytes = c.encodeBody := by
  refine (Decoder.takes_u16.bind fun access => (takes_classIndexDecoder pool).bind
    fun thisClass => (takes_superClassDecoder pool).bind fun superClass =>
      (Decoder.takes_counted (takes_classIndexDecoder pool)).bind fun interfaces =>
        (Decoder.takes_counted (Member.takes_decoder pool)).bind fun fields =>
          (Decoder.takes_counted (Member.takes_decoder pool)).bind fun methods =>
            (Decoder.takes_counted Attribute.takes_decoder).bind fun attributes =>
              Decoder.Takes.pure (ClassFile.mk magic minorVersion majorVersion pool ⟨access⟩
                thisClass superClass interfaces fields methods attributes)).congr
                  fun c bytes => ?_
  constructor
  · rintro ⟨access, _, _, rfl, ⟨thisClass, _, _, ⟨hthis, rfl⟩, ⟨superClass, _, _, ⟨hsuper, rfl⟩,
      ⟨interfaces, _, _, ⟨⟨hinterfaceCount, hinterfaces⟩, rfl⟩,
      ⟨fields, _, _, ⟨⟨hfieldCount, hfields⟩, rfl⟩,
      ⟨methods, _, _, ⟨⟨hmethodCount, hmethods⟩, rfl⟩,
      ⟨attributes, _, _, ⟨⟨hattributeCount, hattributes⟩, rfl⟩, ⟨rfl, rfl⟩, rfl⟩, rfl⟩, rfl⟩,
      rfl⟩, rfl⟩, rfl⟩, rfl⟩
    refine ⟨⟨rfl, rfl, rfl, rfl⟩, ⟨hthis, hsuper, hinterfaceCount, hinterfaces, hfieldCount,
      hfields, hmethodCount, hmethods, hattributeCount, hattributes⟩, ?_⟩
    -- the bytes of the parts are nested as the decoders are, and flat in the class
    simp [encodeBody]
  · rintro ⟨⟨rfl, rfl, rfl, rfl⟩, h, rfl⟩
    exact ⟨c.access.bits, _, _, rfl, ⟨c.thisClass, _, _, ⟨h.thisClass, rfl⟩,
      ⟨c.superClass, _, _, ⟨h.superClass, rfl⟩,
      ⟨c.interfaces, _, _, ⟨⟨h.interfaceCount, h.interfaces⟩, rfl⟩,
      ⟨c.fields, _, _, ⟨⟨h.fieldCount, h.fields⟩, rfl⟩,
      ⟨c.methods, _, _, ⟨⟨h.methodCount, h.methods⟩, rfl⟩,
      ⟨c.attributes, _, _, ⟨⟨h.attributeCount, h.attributes⟩, rfl⟩, ⟨rfl, rfl⟩, rfl⟩, rfl⟩, rfl⟩,
      rfl⟩, rfl⟩, rfl⟩, by simp [encodeBody]⟩

/-- A pool in which a class has a name is not empty. -/
private theorem size_pos_of_className {pool : ConstantPool} {index : UInt16} {name : String}
    (h : pool.className index = .ok name) : 0 < pool.size := by
  rw [ConstantPool.className] at h
  split at h
  case h_1 constant hget =>
    rw [ConstantPool.get?] at hget
    split at hget
    · exact absurd hget (by simp)
    · obtain ⟨hlt, -⟩ := Array.getElem?_eq_some_iff.1 hget
      exact Nat.zero_lt_of_lt hlt
  all_goals exact absurd h (by simp)

/-- A class is read from what it is written to, if it can be written at all. -/
theorem takes_decoder :
    decoder.Takes fun c bytes => c.IsEncodable ∧ bytes = c.encode := by
  rw [decoder_eq]
  refine (takes_magicDecoder.bind fun magic => Decoder.takes_u16.bind fun minorVersion =>
    Decoder.takes_u16.bind fun majorVersion => ConstantPool.takes_decoder.bind fun pool =>
      takes_bodyDecoder magic minorVersion majorVersion pool).congr fun c bytes => ?_
  constructor
  · rintro ⟨_, _, _, ⟨hmagic, rfl⟩, ⟨_, _, _, rfl, ⟨_, _, _, rfl,
      ⟨_, _, _, ⟨hpool, count, -, hcount, rfl⟩, ⟨⟨rfl, rfl, rfl, rfl⟩, hbody, rfl⟩, rfl⟩, rfl⟩,
      rfl⟩, rfl⟩
    -- the count zero is ruled out by the name of the class
    obtain ⟨name, hname⟩ := hbody.thisClass
    have hpos := size_pos_of_className hname
    obtain rfl : count = c.pool.size + 1 := by omega
    exact ⟨⟨hbody, hmagic, hpool⟩, by simp [encode, ConstantPool.encode]⟩
  · rintro ⟨h, rfl⟩
    have hsize := h.pool.size_le
    rw [ConstantPool.maxSlots] at hsize
    exact ⟨c.magic, _, _, ⟨h.magic, rfl⟩, ⟨c.minorVersion, _, _, rfl, ⟨c.majorVersion, _, _, rfl,
      ⟨c.pool, _, _, ⟨h.pool, c.pool.size + 1, by omega, rfl, rfl⟩,
      ⟨⟨rfl, rfl, rfl, rfl⟩, h.toHasEncodableBody, rfl⟩, rfl⟩, rfl⟩, rfl⟩,
      by simp [encode, ConstantPool.encode]⟩

/-- A class is read from its written form, if it has one, and from no other bytes. -/
theorem decode_eq_ok_iff {bytes : Bytes} {c : ClassFile} :
    decode bytes = .ok c ↔ c.IsEncodable ∧ bytes = c.encode :=
  Decoder.runAll_eq_ok_iff takes_decoder

/-- **Writing undoes reading.** Whatever bytes a class was read from, its encoding gives them
back, byte for byte. -/
theorem encode_eq_of_decode {bytes : Bytes} {c : ClassFile} (h : decode bytes = .ok c) :
    c.encode = bytes :=
  (decode_eq_ok_iff.1 h).2.symm

/-- A class with a wide constant, a text entry of overlong bytes and one with a lone surrogate. -/
def rawTextClass : ClassFile where
  magic := magicNumber
  minorVersion := 0
  majorVersion := 52
  pool := ⟨#[.utf8 "A", .classRef 1, .long 1, .unusable, .utf8 "f", .utf8 "J",
    .utf8Raw [0xC1, 0x81], .utf8Raw [0xED, 0xA0, 0x80]]⟩
  access := ⟨0x21⟩
  thisClass := 2
  superClass := 0
  interfaces := [2]
  fields := [⟨⟨0⟩, 5, 6, [⟨7, [0xAB, 0xCD]⟩]⟩]
  methods := []
  attributes := []

/-- The bytes of `rawTextClass`. -/
def rawTextBytes : Bytes :=
  [0xCA, 0xFE, 0xBA, 0xBE, 0, 0, 0, 52, 0, 9,
    1, 0, 1, 0x41, 7, 0, 1, 5, 0, 0, 0, 0, 0, 0, 0, 1, 1, 0, 1, 0x66, 1, 0, 1, 0x4A,
    1, 0, 2, 0xC1, 0x81, 1, 0, 3, 0xED, 0xA0, 0x80,
    0, 0x21, 0, 2, 0, 0, 0, 1, 0, 2,
    0, 1, 0, 0, 0, 5, 0, 6, 0, 1, 0, 7, 0, 0, 0, 2, 0xAB, 0xCD, 0, 0, 0, 0]

/-- A class with a text that is not Unicode is written back byte by byte. -/
theorem encode_eq_of_decode_rawTextBytes :
    decode rawTextBytes = .ok rawTextClass ∧ rawTextClass.encode = rawTextBytes := by
  have hdecode : decode rawTextBytes = .ok rawTextClass := by decide +kernel
  exact ⟨hdecode, encode_eq_of_decode hdecode⟩

/-- **The image of the reader.** The classes that are read back from their encoding are the
encodable ones, and no other class is read from any bytes. -/
theorem decode_encode_iff_isEncodable (c : ClassFile) :
    (decode c.encode = .ok c ↔ c.IsEncodable) ∧
      ((∃ bytes, decode bytes = .ok c) ↔ c.IsEncodable) := by
  refine ⟨⟨fun h => (decode_eq_ok_iff.1 h).1, fun h => decode_eq_ok_iff.2 ⟨h, rfl⟩⟩, ?_, ?_⟩
  · rintro ⟨bytes, h⟩
    exact (decode_eq_ok_iff.1 h).1
  · intro h
    exact ⟨c.encode, decode_eq_ok_iff.2 ⟨h, rfl⟩⟩

end ClassFile

end ClassStub
