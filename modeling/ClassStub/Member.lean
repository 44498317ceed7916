import ClassStub.AccessFlags
import ClassStub.Code.Payload

/-!
# Members

Fields and methods are written in the same form: flags, the indices of a name and a descriptor,
and attributes. What a method has beyond a field (a body, declared exceptions) is found among
its attributes.
-/

namespace ClassStub

/-- A field or a method. -/
structure Member where
  access : AccessFlags
  nameIndex : UInt16
  descriptorIndex : UInt16
  attributes : List Attribute
  deriving DecidableEq, Inhabited

namespace Member

/-- The name of the member. -/
def name (member : Member) (pool : ConstantPool) : Except PoolError String :=
  pool.utf8 member.nameIndex

/-- The descriptor of the member. -/
def descriptor (member : Member) (pool : ConstantPool) : Except PoolError String :=
  pool.utf8 member.descriptorIndex

/-- Name and descriptor can be read and are the given ones. -/
def isDeclaredAs (member : Member) (pool : ConstantPool) (name descriptor : String) : Bool :=
  match member.name pool, member.descriptor pool with
  | .ok foundName, .ok foundDescriptor => foundName == name && foundDescriptor == descriptor
  | _, _ => false

/-- The written form of a member. -/
def encode (member : Member) : Bytes :=
  bigEndian 2 member.access.bits.toNat ++ bigEndian 2 member.nameIndex.toNat ++
    bigEndian 2 member.descriptorIndex.toNat ++ encodeCounted Attribute.encode member.attributes

/-- Reads a member. Its name and its descriptor must be texts of the pool; each is looked up
as soon as its index was read. -/
def decoder (pool : ConstantPool) : Decoder Member := do
  let bits ← Decoder.u16
  let nameIndex ← Decoder.u16
  let _ ← Decoder.ofPool (pool.utf8 nameIndex)
  let descriptorIndex ← Decoder.u16
  let _ ← Decoder.ofPool (pool.utf8 descriptorIndex)
  let attributes ← Decoder.counted Attribute.decoder
  return ⟨⟨bits⟩, nameIndex, descriptorIndex, attributes⟩

/-! ### The body of a method -/

/-- The method may not have a body: it is abstract or native. -/
def isBodiless (method : Member) : Bool := method.access.isAbstract || method.access.isNative

/-- The slots of the object on which the method is called. -/
def receiverSlots (method : Member) : Nat := if method.access.isStatic then 0 else 1

/-- The position of the first `Code` attribute. -/
def codePosition? (method : Member) (pool : ConstantPool) : Option Nat :=
  method.attributes.findIdx? (·.isNamed pool Attribute.codeName)

/-- The method has a `Code` attribute and may have one. -/
def hasBody (method : Member) (pool : ConstantPool) : Bool :=
  !method.isBodiless && (method.codePosition? pool).isSome

/-- The payload of the first `Code` attribute, if there is one. -/
def code (method : Member) (pool : ConstantPool) : Except FormatError (Option CodePayload) :=
  match method.attributes.find? (·.isNamed pool Attribute.codeName) with
  | some attr => do return some (← CodePayload.decode attr.info)
  | none => return none

/-- The method with another payload in its first `Code` attribute, whose name index stays. A
method without such an attribute is left as it is. -/
def replaceCode (method : Member) (pool : ConstantPool) (payload : CodePayload) : Member :=
  match method.codePosition? pool with
  | some position =>
    { method with
      attributes := method.attributes.modify position fun attr =>
        payload.toAttribute attr.nameIndex }
  | none => method

/-! ### Declared exceptions and signature of a method -/

/-- The names of the exceptions in all `Exceptions` attributes, in order. -/
def exceptions (method : Member) (pool : ConstantPool) : Except FormatError (List String) := do
  let lists ← (method.attributes.filter (·.isNamed pool Attribute.exceptionsName)).mapM
    fun attr => do
      let indices ← Attribute.decodeExceptions attr.info
      indices.mapM fun index => (pool.className index).mapError .pool
  return lists.flatten

/-- The generic signature of the member, if it has one. -/
def signature (member : Member) (pool : ConstantPool) : Except FormatError (Option String) :=
  Attribute.findSignature member.attributes pool

end Member

end ClassStub
