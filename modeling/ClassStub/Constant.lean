import ClassStub.Bytes
import ClassStub.Text.ModifiedUtf8

/-!
# Constants

The entries of a constant pool. A constant that names another one holds its index in the pool;
indices start at one. Floating-point constants are kept as their bits, so that every NaN keeps
its payload.

A `long` or `double` takes two slots of the pool. The second of them is `unusable`: it holds
nothing, has no tag and is not written.
-/

namespace ClassStub

/-- An entry of a constant pool. -/
inductive Constant where
  | utf8 (text : String)
  /-- A well-formed text entry whose bytes are not the encoding of any text. -/
  | utf8Raw (bytes : Bytes)
  | integer (value : Int32)
  | float (bits : UInt32)
  | long (value : Int64)
  | double (bits : UInt64)
  | classRef (name : UInt16)
  | string (text : UInt16)
  | fieldRef (owner nameAndType : UInt16)
  | methodRef (owner nameAndType : UInt16)
  | interfaceMethodRef (owner nameAndType : UInt16)
  | nameAndType (name descriptor : UInt16)
  | methodHandle (kind : UInt8) (reference : UInt16)
  | methodType (descriptor : UInt16)
  | dynamic (bootstrap nameAndType : UInt16)
  | invokeDynamic (bootstrap nameAndType : UInt16)
  | moduleRef (name : UInt16)
  | packageRef (name : UInt16)
  | unusable
  deriving DecidableEq, Inhabited

namespace Constant

/-- The constant takes two slots. -/
def isWide : Constant → Bool
  | long _ | double _ => true
  | _ => false

/-- The slots that the constant takes. -/
def width (constant : Constant) : Nat := if constant.isWide then 2 else 1

/-- The constant fills the second slot of a wide one. -/
def isUnusable : Constant → Bool
  | unusable => true
  | _ => false

/-- The constant is a text entry, whether or not it can be read as text. -/
def isUtf8 : Constant → Bool
  | utf8 _ | utf8Raw _ => true
  | _ => false

/-- The constant names a class. -/
def isClassRef : Constant → Bool
  | classRef _ => true
  | _ => false

/-- The constant gives a name and a descriptor. -/
def isNameAndType : Constant → Bool
  | nameAndType _ _ => true
  | _ => false

/-- The constant refers to a field or a method, which a method handle may point to. -/
def isMemberRef : Constant → Bool
  | fieldRef _ _ | methodRef _ _ | interfaceMethodRef _ _ => true
  | _ => false

/-! ### Encoding -/

/-- The byte that opens the written form of a constant. -/
def tag? : Constant → Option UInt8
  | utf8 _ | utf8Raw _ => some 1
  | integer _ => some 3
  | float _ => some 4
  | long _ => some 5
  | double _ => some 6
  | classRef _ => some 7
  | string _ => some 8
  | fieldRef _ _ => some 9
  | methodRef _ _ => some 10
  | interfaceMethodRef _ _ => some 11
  | nameAndType _ _ => some 12
  | methodHandle _ _ => some 15
  | methodType _ => some 16
  | dynamic _ _ => some 17
  | invokeDynamic _ _ => some 18
  | moduleRef _ => some 19
  | packageRef _ => some 20
  | unusable => none

/-- Two indices, one after the other. -/
def encodePair (first second : UInt16) : Bytes :=
  bigEndian 2 first.toNat ++ bigEndian 2 second.toNat

/-- The bytes behind the tag. A text is preceded by its length, which is cut to sixteen bits. -/
def encodePayload : Constant → Bytes
  | utf8 text =>
    let bytes := ModifiedUtf8.encode text
    bigEndian 2 bytes.length ++ bytes
  | utf8Raw bytes => bigEndian 2 bytes.length ++ bytes
  | integer value => bigEndian 4 value.toUInt32.toNat
  | float bits => bigEndian 4 bits.toNat
  | long value => bigEndian 8 value.toUInt64.toNat
  | double bits => bigEndian 8 bits.toNat
  | classRef index | string index | methodType index | moduleRef index | packageRef index =>
    bigEndian 2 index.toNat
  | fieldRef first second | methodRef first second | interfaceMethodRef first second
  | nameAndType first second | dynamic first second | invokeDynamic first second =>
    encodePair first second
  | methodHandle kind reference => kind :: bigEndian 2 reference.toNat
  | unusable => []

/-- The written form of a constant: its tag, if it has one, and its payload. -/
def encode (constant : Constant) : Bytes := constant.tag?.toList ++ constant.encodePayload

/-! ### Comparison by value -/

/-- The numbers of two 32-bit floating-point patterns are equal: a NaN differs from itself, and
zero has two patterns. -/
def sameFloat (a b : UInt32) : Bool :=
  let magnitude (bits : UInt32) := bits &&& 0x7fffffff
  let isNaN (bits : UInt32) := 0x7f800000 < magnitude bits
  !isNaN a && !isNaN b && (a == b || (magnitude a == 0 && magnitude b == 0))

/-- The numbers of two 64-bit floating-point patterns are equal. -/
def sameDouble (a b : UInt64) : Bool :=
  let magnitude (bits : UInt64) := bits &&& 0x7fffffffffffffff
  let isNaN (bits : UInt64) := 0x7ff0000000000000 < magnitude bits
  !isNaN a && !isNaN b && (a == b || (magnitude a == 0 && magnitude b == 0))

/-- Two constants agree: they are equal, with floating-point constants compared as numbers. -/
def agrees : Constant → Constant → Bool
  | float a, float b => sameFloat a b
  | double a, double b => sameDouble a b
  | a, b => a == b

end Constant

end ClassStub
