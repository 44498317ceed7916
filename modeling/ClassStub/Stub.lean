import ClassStub.ClassFile
import ClassStub.Stub.Raise

/-!
# Stubs of classes

A stub declares what a class declares and does nothing: every body is replaced by one that
raises the diagnostic exception. Only bodies change and only the constant pool grows, by entries
at its end.

* A class gets one more method, the helper, which makes the exception; all bodies call it. A
  class that declares a method of the helper's name and descriptor is refused.
* An interface gets no helper; each body makes the exception on its own. The entries for it are
  added when the first such body is met, and so an interface without bodies keeps its pool.
* A module descriptor has no code and is left as it is.
-/

namespace ClassStub

/-- What becomes of a static initializer that has a body. -/
inductive InitializerPolicy where
  /-- It raises the diagnostic like any other method. -/
  | stub
  /-- It returns at once. -/
  | empty
  deriving DecidableEq, Inhabited

/-- Why a class cannot be stubbed. -/
inductive StubError where
  /-- The class declares a method of the helper's name and descriptor. -/
  | helperNameCollision (className : String)
  | pool (error : PoolError)
  | descriptor (error : DescriptorError)
  deriving DecidableEq, Inhabited

namespace StubError

/-- The wording of a stubbing error. -/
def message : StubError → String
  | helperNameCollision className =>
    "Class '" ++ className ++ "' already declares " ++ Helper.name ++ Helper.descriptor
  | pool error => "Constant pool error: " ++ error.message
  | descriptor error => "Descriptor error: " ++ error.message

/-- The wordings of the error and of the errors that caused it, outermost first. -/
def chain (error : StubError) : List String :=
  error.message :: match error with
    | helperNameCollision _ => []
    | pool cause => [cause.message]
    | descriptor cause => [cause.message]

end StubError

/-- What changes while methods are stubbed: the pool, and the entries of the exception once they
were added to it. -/
structure StubState where
  pool : ConstantPool
  raise? : Option RaiseRefs
  deriving DecidableEq, Inhabited

/-- A step of stubbing a class. -/
abbrev StubAction (α : Type) := EStateM StubError StubState α

namespace StubAction

variable {α : Type}

/-- An action on the pool as a step of stubbing. -/
def onPool (action : PoolAction α) : StubAction α := fun state =>
  match action state.pool with
  | .ok a pool => .ok a { state with pool }
  | .error error pool => .error (.pool error) { state with pool }

/-- A look-up in the pool as it is now. -/
def lookUp (resolve : ConstantPool → Except PoolError α) : StubAction α := fun state =>
  match resolve state.pool with
  | .ok a => .ok a state
  | .error error => .error (.pool error) state

/-- A value that depends on a descriptor. -/
def ofDescriptor : Except DescriptorError α → StubAction α
  | .ok a => return a
  | .error error => throw (.descriptor error)

end StubAction

namespace Stub

open StubAction

/-- The entries of the exception, added to the pool the first time. -/
def raiseRefs : StubAction RaiseRefs := do
  match (← get).raise? with
  | some refs => return refs
  | none => do
    let refs ← onPool RaiseRefs.intern
    modify fun state => { state with raise? := some refs }
    return refs

/-- Requires that no method has the helper's name and descriptor. The descriptor is only looked
at under that name. -/
def requireNoHelper (className : String) (methods : List Member) : StubAction Unit :=
  methods.forM fun method => do
    if (← lookUp method.name) == Helper.name then
      if (← lookUp method.descriptor) == Helper.descriptor then
        throw (.helperNameCollision className)

/-- Adds the entries for the helper of a class to the pool, and returns the helper with the index
of the reference by which it is called. -/
def makeHelper (className : String) : StubAction (Member × UInt16) := do
  let refs ← raiseRefs
  let nameIndex ← onPool (ConstantPool.internUtf8 Helper.name)
  let descriptorIndex ← onPool (ConstantPool.internUtf8 Helper.descriptor)
  let codeIndex ← onPool (ConstantPool.internUtf8 Attribute.codeName)
  let payload ← ofDescriptor (CodePayload.returningException refs)
  let reference ← onPool
    (ConstantPool.internMethodRef className Helper.name Helper.descriptor)
  let helper := ⟨Helper.access, nameIndex, descriptorIndex, [payload.toAttribute codeIndex]⟩
  return (helper, reference)

/-- The body for a method of the given name: it calls the helper, if there is a reference to
one, and else raises the exception on its own. -/
def makeBody (policy : InitializerPolicy) (helper? : Option UInt16) (name : String)
    (maxLocals : UInt16) : StubAction CodePayload := do
  if name == initializerName && policy == .empty then
    return CodePayload.returning maxLocals
  else
    match helper? with
    | some helper => ofDescriptor (CodePayload.delegating helper maxLocals)
    | none => do
      let refs ← raiseRefs
      ofDescriptor (CodePayload.raisingInline refs maxLocals)

/-- Replaces the body of a method. A method without a body is left as it is. -/
def stubMethod (policy : InitializerPolicy) (helper? : Option UInt16) (method : Member) :
    StubAction Member := do
  if method.hasBody (← get).pool then
    let name ← lookUp method.name
    let descriptor ← lookUp method.descriptor
    let slots ← ofDescriptor (parameterSlots descriptor)
    let payload ← makeBody policy helper? name (UInt16.ofNat (slots + method.receiverSlots))
    return method.replaceCode (← get).pool payload
  else
    return method

/-- Stubs the methods of an interface. -/
def stubInterface (policy : InitializerPolicy) (methods : List Member) :
    StubAction (List Member) :=
  methods.mapM (stubMethod policy none)

/-- Stubs the methods of a class and adds the helper behind them. -/
def stubClass (policy : InitializerPolicy) (className : String) (methods : List Member) :
    StubAction (List Member) := do
  requireNoHelper className methods
  let (helper, reference) ← makeHelper className
  let stubbed ← methods.mapM (stubMethod policy (some reference))
  return stubbed ++ [helper]

end Stub

/-- The stub of a class. -/
def ClassFile.stub (policy : InitializerPolicy) (c : ClassFile) : Except StubError ClassFile := do
  if c.isModule then
    return c
  else
    let className ← c.className.mapError .pool
    let action :=
      if c.isInterface then
        Stub.stubInterface policy c.methods
      else
        Stub.stubClass policy className c.methods
    match action.run ⟨c.pool, none⟩ with
    | .ok methods state => return { c with pool := state.pool, methods }
    | .error error _ => throw error

end ClassStub
