import ClassStub.ClassFile

/-!
# Decoding class files

Reads a class file from its bytes, which must hold nothing else. Attributes are kept as they
are. What a class refers to by name must be there: the class itself, its superclass and
interfaces, and the name and descriptor of each field and method. Each reference is checked as
soon as it was read, and so the first fault in the order of the bytes is the one reported.
-/

namespace ClassStub

namespace Constant

/-- Reads two indices. -/
def pairDecoder (make : UInt16 → UInt16 → Constant) : Decoder Constant := do
  let first ← Decoder.u16
  let second ← Decoder.u16
  return make first second

/-- The text entry with some bytes, for the slot with the given index. Well-formed bytes that
are not the encoding of a text are kept as bytes. -/
def ofTextBytes (index : UInt16) (bytes : Bytes) : Except FormatError Constant :=
  match ModifiedUtf8.decode? bytes with
  | some text => .ok (.utf8 text)
  | none =>
    if ModifiedUtf8.isWellFormed bytes then .ok (.utf8Raw bytes) else .error (.invalidText index)

/-- Reads the entry for the slot with the given index. -/
def decoder (index : UInt16) : Decoder Constant := do
  let offset ← Decoder.offset
  let tag ← Decoder.u8
  match tag with
  | 1 => do
    let bytes ← Decoder.sized 2
    ofTextBytes index bytes
  | 3 => return .integer (← Decoder.u32).toInt32
  | 4 => return .float (← Decoder.u32)
  | 5 => return .long (← Decoder.u64).toInt64
  | 6 => return .double (← Decoder.u64)
  | 7 => return .classRef (← Decoder.u16)
  | 8 => return .string (← Decoder.u16)
  | 9 => pairDecoder .fieldRef
  | 10 => pairDecoder .methodRef
  | 11 => pairDecoder .interfaceMethodRef
  | 12 => pairDecoder .nameAndType
  | 15 => do
    let kind ← Decoder.u8
    let reference ← Decoder.u16
    return .methodHandle kind reference
  | 16 => return .methodType (← Decoder.u16)
  | 17 => pairDecoder .dynamic
  | 18 => pairDecoder .invokeDynamic
  | 19 => return .moduleRef (← Decoder.u16)
  | 20 => return .packageRef (← Decoder.u16)
  | tag => throw (.unknownTag tag offset)

end Constant

namespace ConstantPool

/-- Appends an entry that was read. -/
def addEntry (pool : ConstantPool) (constant : Constant) : Decoder ConstantPool :=
  match push constant pool with
  | .ok _ grown => return grown
  | .error error _ => throw (.pool error)

/-- Reads entries into the slots of a pool that are still to come. An entry that needs one slot
more than there is makes the index behind the last one invalid. -/
def decodeSlots (pool : ConstantPool) : (missing : Nat) → Decoder ConstantPool
  | 0 => return pool
  | 1 => do
    let constant ← Constant.decoder (UInt16.ofNat (pool.size + 1))
    if constant.isWide then
      throw (.pool (.invalidIndex (UInt16.ofNat (pool.size + 2))))
    else
      addEntry pool constant
  | missing + 2 => do
    let constant ← Constant.decoder (UInt16.ofNat (pool.size + 1))
    let grown ← addEntry pool constant
    if constant.isWide then
      decodeSlots grown missing
    else
      decodeSlots grown (missing + 1)

/-- Reads a pool. The count is one more than the number of slots; a count of zero, too, stands
for an empty pool. -/
def decoder : Decoder ConstantPool := do
  let count ← Decoder.number 2
  decodeSlots .empty (count - 1)

end ConstantPool

namespace ClassFile

/-- Reads an index that must belong to a class of the pool. -/
def classIndexDecoder (pool : ConstantPool) : Decoder UInt16 := do
  let index ← Decoder.u16
  let _ ← Decoder.ofPool (pool.className index)
  return index

/-- Reads the index of the superclass, which is zero or belongs to a class of the pool. -/
def superClassDecoder (pool : ConstantPool) : Decoder UInt16 := do
  let index ← Decoder.u16
  if index ≠ 0 then
    let _ ← Decoder.ofPool (pool.className index)
  return index

/-- Reads the number that opens a class file. -/
def magicDecoder : Decoder UInt32 := do
  let magic ← Decoder.u32
  if magic = magicNumber then return magic else throw (.wrongMagic magic)

/-- Reads a class file. -/
def decoder : Decoder ClassFile := do
  let magic ← magicDecoder
  let minorVersion ← Decoder.u16
  let majorVersion ← Decoder.u16
  let pool ← ConstantPool.decoder
  let access ← Decoder.u16
  let thisClass ← classIndexDecoder pool
  let superClass ← superClassDecoder pool
  let interfaces ← Decoder.counted (classIndexDecoder pool)
  let fields ← Decoder.counted (Member.decoder pool)
  let methods ← Decoder.counted (Member.decoder pool)
  let attributes ← Decoder.counted Attribute.decoder
  return { magic, minorVersion, majorVersion, pool, access := ⟨access⟩, thisClass, superClass,
           interfaces, fields, methods, attributes }

/-- Reads a class file, which must fill the bytes. -/
def decode (bytes : Bytes) : Except FormatError ClassFile :=
  decoder.runAll .trailingBytes bytes

end ClassFile

end ClassStub
