import Std.Data.HashSet
import ClassStub.ClassFile
import ClassStub.Code.Opcode
import ClassStub.Defect.Flags
import ClassStub.Defect.Index
import ClassStub.Descriptor
import ClassStub.Helper

/-!
# Defects of methods

A sound method has a valid combination of flags and a readable name and descriptor that no other
method of its class shares. It has at most one `Exceptions` attribute, which lists different
classes, and exactly one `Code` attribute, which can be read and fits the descriptor, unless it
is abstract or native and has none. An interface does not declare the helper method.
-/

namespace ClassStub

/-- What is wrong with a method's `Code` attribute. -/
inductive CodeDefect where
  | malformed (error : FormatError)
  | lengthOutOfRange (length : Nat)
  | throwWithoutStack
  | descriptor (error : DescriptorError)
  | tooFewLocals (maxLocals : UInt16) (needed : Nat)
  | handlerOutOfRange
  deriving DecidableEq, Inhabited

/-- The wording of a defect of code. -/
def CodeDefect.message : CodeDefect → String
  | malformed error => error.message
  | lengthOutOfRange length => "code length " ++ toString length ++ " out of range"
  | throwWithoutStack => "athrow needs a stack slot"
  | descriptor error => error.message
  | tooFewLocals maxLocals needed =>
    "max_locals " ++ toString maxLocals ++ " cannot hold " ++ toString needed ++
      " parameter slots"
  | handlerOutOfRange => "exception table entry out of range"

/-- What is wrong with a method. -/
inductive MethodDefect where
  | index (defect : IndexDefect)
  | invalidFlags (flags : AccessFlags)
  | missingCode (method : String)
  | forbiddenCode (method : String)
  | duplicateAttribute (method attr : String)
  | invalidCode (method : String) (defect : CodeDefect)
  | duplicateExceptions
  | duplicate (name descriptor : String)
  | helperInInterface (name descriptor : String)
  deriving DecidableEq, Inhabited

/-- The wording of a defect of a method. -/
def MethodDefect.message : MethodDefect → String
  | index defect => defect.message
  | invalidFlags flags => "Invalid method access flags: 0x" ++ hexadecimal 4 flags.bits.toNat
  | missingCode method =>
    "Method " ++ method ++ " must have Code attribute unless abstract or native"
  | forbiddenCode method =>
    "Abstract or native method " ++ method ++ " must not have Code attribute"
  | duplicateAttribute method attr =>
    "Duplicate method attribute " ++ attr ++ " on " ++ method
  | invalidCode method defect => "Invalid Code attribute on " ++ method ++ ": " ++ defect.message
  | duplicateExceptions => "Invalid method attribute: duplicate exceptions declared"
  | duplicate name descriptor => "Duplicate method: " ++ name ++ descriptor
  | helperInInterface name descriptor =>
    "Interface declares the stub helper " ++ name ++ descriptor

/-! ### Code -/

/-- The range is not empty, and it and its handler lie within code of the given length. -/
def ExceptionHandler.isWithin (range : ExceptionHandler) (length : Nat) : Bool :=
  range.start < range.stop && range.stop.toNat ≤ length && range.handler.toNat < length

/-- Requires code that fits a method with the given descriptor. -/
def Member.checkCode (method : Member) (descriptor : String) (payload : CodePayload) :
    Except CodeDefect Unit := do
  let length := payload.code.length
  if length = 0 ∨ 65535 < length then
    throw (.lengthOutOfRange length)
  if payload.code.getLast? = some Opcode.athrow.code ∧ payload.maxStack = 0 then
    throw .throwWithoutStack
  let slots ← (parameterSlots descriptor).mapError .descriptor
  let needed := slots + method.receiverSlots
  if payload.maxLocals.toNat < needed then
    throw (.tooFewLocals payload.maxLocals needed)
  if !payload.handlers.all (·.isWithin length) then
    throw .handlerOutOfRange

/-! ### Attributes -/

/-- Requires classes of the pool that differ from each other and from those seen before. -/
def ConstantPool.checkExceptions (pool : ConstantPool) (seen : Std.HashSet UInt16) :
    List UInt16 → Except MethodDefect Unit
  | [] => .ok ()
  | index :: rest => do
    if seen.contains index then
      throw .duplicateExceptions
    (pool.expect index index Constant.isClassRef).mapError .index
    pool.checkExceptions (seen.insert index) rest

/-- What was found among the attributes of a method so far. -/
structure AttributeScan where
  code : Option CodePayload
  hasExceptions : Bool
  deriving DecidableEq, Inhabited

/-- Takes the next attribute of a method with the given name into account. -/
def AttributeScan.next (pool : ConstantPool) (method : String) (scan : AttributeScan)
    (attr : Attribute) : Except MethodDefect AttributeScan := do
  if attr.isNamed pool Attribute.codeName then
    if scan.code.isSome then
      throw (.duplicateAttribute method Attribute.codeName)
    let payload ← (CodePayload.decode attr.info).mapError fun error =>
      .invalidCode method (.malformed error)
    return { scan with code := some payload }
  else if attr.isNamed pool Attribute.exceptionsName then
    if scan.hasExceptions then
      throw (.duplicateAttribute method Attribute.exceptionsName)
    let indices ← (Attribute.decodeExceptions attr.info).mapError fun _ =>
      .index (.missing attr.nameIndex)
    pool.checkExceptions ∅ indices
    return { scan with hasExceptions := true }
  else
    return scan

/-- Requires sound attributes of a method with the given name and descriptor. -/
def Member.checkAttributes (method : Member) (pool : ConstantPool) (name descriptor : String) :
    Except MethodDefect Unit := do
  let scan ← method.attributes.foldlM (AttributeScan.next pool name) ⟨none, false⟩
  match method.isBodiless, scan.code with
  | true, some _ => throw (.forbiddenCode name)
  | true, none => return ()
  | false, none => throw (.missingCode name)
  | false, some payload => (method.checkCode descriptor payload).mapError (.invalidCode name)

/-! ### Methods -/

namespace ClassFile

/-- Requires valid flags and a readable name and descriptor, which it returns. -/
def checkMethodHeader (c : ClassFile) (method : Member) :
    Except MethodDefect (String × String) := do
  if !method.access.isValidOnMethod c.isInterface then
    throw (.invalidFlags method.access)
  let name ← (c.pool.expectText method.nameIndex).mapError .index
  let descriptor ← (c.pool.expectText method.descriptorIndex).mapError .index
  return (name, descriptor)

/-- Requires sound methods that differ from each other and from those seen before. -/
def checkMethodsFrom (c : ClassFile) (seen : Std.HashSet (String × String)) :
    List Member → Except MethodDefect Unit
  | [] => .ok ()
  | method :: rest => do
    let key ← c.checkMethodHeader method
    if seen.contains key then
      throw (.duplicate key.1 key.2)
    if c.isInterface && key == (Helper.name, Helper.descriptor) then
      throw (.helperInInterface key.1 key.2)
    method.checkAttributes c.pool key.1 key.2
    c.checkMethodsFrom (seen.insert key) rest

/-- Requires that all methods are sound. -/
def checkMethods (c : ClassFile) : Except MethodDefect Unit := c.checkMethodsFrom ∅ c.methods

end ClassFile

end ClassStub
