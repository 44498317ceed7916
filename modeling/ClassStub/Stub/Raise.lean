import ClassStub.Code.Buffer
import ClassStub.Helper
import ClassStub.Names

/-!
# Bodies that raise the diagnostic

The four bodies that a stub may give to a method. Three of them end in the diagnostic exception:
the body of the helper makes the exception and returns it, a delegating body throws what the
helper returns, and an inline body makes the exception and throws it. The empty body returns.
-/

namespace ClassStub

/-- The entries of a pool from which the diagnostic exception is made. -/
structure RaiseRefs where
  exceptionClass : UInt16
  message : UInt16
  constructor : UInt16
  deriving DecidableEq, Inhabited

/-- The indices of these entries, which are appended where they are missing. -/
def RaiseRefs.intern : PoolAction RaiseRefs := do
  let exceptionClass ← ConstantPool.internClass Diagnostic.exceptionClass
  let message ← ConstantPool.internString Diagnostic.message
  let constructor ← ConstantPool.internMethodRef Diagnostic.exceptionClass constructorName
    Diagnostic.constructorDescriptor
  return ⟨exceptionClass, message, constructor⟩

/-- Appends the instructions that leave a new diagnostic exception on the stack. -/
def CodeBuffer.emitException (refs : RaiseRefs) : CodeAction Unit := do
  modify (·.emitIndexed .new refs.exceptionClass)
  modify (·.emit .dup)
  modify (·.emitLoad refs.message)
  emitInvoke .invokespecial refs.constructor Diagnostic.constructorDescriptor

namespace CodePayload

open CodeBuffer (build emitException emitInvoke)

/-- The body of the helper. -/
def returningException (refs : RaiseRefs) : Except DescriptorError CodePayload :=
  build 0 do
    emitException refs
    modify (·.emit .areturn)

/-- A body that throws what the helper returns. -/
def delegating (helper maxLocals : UInt16) : Except DescriptorError CodePayload :=
  build maxLocals do
    emitInvoke .invokestatic helper Helper.descriptor
    modify (·.emit .athrow)

/-- A body that makes the exception on its own and throws it. -/
def raisingInline (refs : RaiseRefs) (maxLocals : UInt16) :
    Except DescriptorError CodePayload :=
  build maxLocals do
    emitException refs
    modify (·.emit .athrow)

/-- A body that returns at once. -/
def returning (maxLocals : UInt16) : CodePayload :=
  ((CodeBuffer.new maxLocals).emit .returnVoid).toPayload

end CodePayload

end ClassStub
