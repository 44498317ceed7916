import ClassStub.Defect.Field
import ClassStub.Defect.Method
import ClassStub.Defect.Pool
import ClassStub.Names

/-!
# Structural defects

A class that can be read may still be one that no virtual machine would load. `ClassFile.check`
looks for such defects and reports the first: in the constant pool, the class itself, its flags,
its superclass, its interfaces, its fields and its methods, in this order.
-/

namespace ClassStub

/-- What is wrong with a class. -/
inductive Defect where
  | pool (defect : PoolDefect)
  | thisClass (index : UInt16)
  | classFlags (flags : AccessFlags)
  | superClass (index : UInt16)
  | interfaces (defect : IndexDefect)
  | fields (defect : FieldDefect)
  | methods (defect : MethodDefect)
  deriving DecidableEq, Inhabited

/-- The wording of a defect. -/
def Defect.message : Defect → String
  | pool defect => defect.message
  | thisClass index => "Invalid this_class index " ++ toString index
  | classFlags flags => "Invalid class access flags: 0x" ++ hexadecimal 4 flags.bits.toNat
  | superClass index => "Invalid super_class index " ++ toString index
  | interfaces defect => defect.message
  | fields defect => defect.message
  | methods defect => defect.message

namespace ClassFile

/-- The name of the class, if it can be read. -/
def className? (c : ClassFile) : Option String := c.className.toOption

/-- The index belongs to a class of the pool. -/
def isClassIndex (c : ClassFile) (index : UInt16) : Bool :=
  (c.pool.get? index).any Constant.isClassRef

/-- The flags of the class may stand together. -/
def hasValidFlags (c : ClassFile) : Bool := c.access.isValidOnClass c.className?

/-- The index of the superclass belongs to a class; it is zero only in the root of the class
hierarchy and in a module descriptor. -/
def hasValidSuperClass (c : ClassFile) : Bool :=
  if c.superClass = 0 then
    (!c.isInterface && c.className? == some objectClassName) || c.isModule
  else
    c.isClassIndex c.superClass

/-- Requires that all interfaces are classes of the pool. -/
def checkInterfaces (c : ClassFile) : Except IndexDefect Unit :=
  c.interfaces.forM fun index => c.pool.expect index index Constant.isClassRef

/-- Requires a class without defects. -/
def check (c : ClassFile) : Except Defect Unit := do
  c.checkPool.mapError .pool
  if !c.isClassIndex c.thisClass then
    throw (.thisClass c.thisClass)
  if !c.hasValidFlags then
    throw (.classFlags c.access)
  if !c.hasValidSuperClass then
    throw (.superClass c.superClass)
  c.checkInterfaces.mapError .interfaces
  c.checkFields.mapError .fields
  c.checkMethods.mapError .methods

end ClassFile

end ClassStub
