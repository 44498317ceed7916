import ClassStub.Decoder

/-!
# Attributes

An attribute is a named payload attached to a class, a field, a method or a method's code. The
name is an index into the constant pool and the payload is kept as bytes. Payloads of two kinds
are read and made here: `Exceptions`, a counted list of class indices, and `Signature`, one text
index.
-/

namespace ClassStub

/-- A named payload. -/
structure Attribute where
  nameIndex : UInt16
  info : Bytes
  deriving DecidableEq, Inhabited

namespace Attribute

/-- The name of the attribute. -/
def name (attr : Attribute) (pool : ConstantPool) : Except PoolError String :=
  pool.utf8 attr.nameIndex

/-- The name can be read and is the given one. -/
def isNamed (attr : Attribute) (pool : ConstantPool) (name : String) : Bool :=
  match attr.name pool with
  | .ok found => found == name
  | .error _ => false

/-- The written form of an attribute: its name, the length of its payload, and the payload. -/
def encode (attr : Attribute) : Bytes :=
  bigEndian 2 attr.nameIndex.toNat ++ bigEndian 4 attr.info.length ++ attr.info

/-- Reads an attribute. -/
def decoder : Decoder Attribute := do
  let nameIndex ← Decoder.u16
  let info ← Decoder.sized 4
  return ⟨nameIndex, info⟩

/-- The name of the attribute that holds a method's body. -/
def codeName : String := "Code"

/-- The name of the attribute that lists the exceptions which a method declares. -/
def exceptionsName : String := "Exceptions"

/-- The name of the attribute that holds a generic signature. -/
def signatureName : String := "Signature"

/-- The name of the attribute that dynamic constants depend on. -/
def bootstrapMethodsName : String := "BootstrapMethods"

/-! ### Declared exceptions -/

/-- The class indices in the payload of an `Exceptions` attribute. -/
def decodeExceptions (info : Bytes) : Except FormatError (List UInt16) :=
  (Decoder.counted Decoder.u16).runAll (fun _ => .exceptionsSlack) info

/-- An `Exceptions` attribute for some class names, with its parts interned. -/
def ofExceptions (classes : List String) : PoolAction Attribute := do
  let nameIndex ← ConstantPool.internUtf8 exceptionsName
  let indices ← classes.mapM ConstantPool.internClass
  return ⟨nameIndex, encodeCounted (fun index => bigEndian 2 index.toNat) indices⟩

/-! ### Signatures -/

/-- The text index in the payload of a `Signature` attribute. -/
def decodeSignature (info : Bytes) : Except FormatError UInt16 :=
  if info.length = 2 then
    .ok (UInt16.ofNat (ofBigEndian info))
  else
    .error (.signatureLength info.length)

/-- A `Signature` attribute for a text, with its parts interned. -/
def ofSignature (signature : String) : PoolAction Attribute := do
  let nameIndex ← ConstantPool.internUtf8 signatureName
  let signatureIndex ← ConstantPool.internUtf8 signature
  return ⟨nameIndex, bigEndian 2 signatureIndex.toNat⟩

/-- The text of the first `Signature` attribute in a list, if there is one. -/
def findSignature (attributes : List Attribute) (pool : ConstantPool) :
    Except FormatError (Option String) :=
  match attributes.find? (·.isNamed pool signatureName) with
  | some attr => do
    let index ← decodeSignature attr.info
    let signature ← (pool.utf8 index).mapError .pool
    return some signature
  | none => return none

end Attribute

end ClassStub
