import ClassStub.Code.Opcode
import ClassStub.Code.Payload
import ClassStub.Descriptor

/-!
# Code buffers

Straight-line code under construction. While instructions are appended, the buffer keeps count
of the operand stack, so that the finished payload states how deep the stack gets. An
instruction that returns or throws ends the code: what is appended behind it is dropped.

Only the call of a method can fail, when its descriptor is not understood. It is an action on the
buffer, which is there after a failure too.
-/

namespace ClassStub

/-- The current depth of an operand stack and the greatest depth so far. -/
structure StackDepth where
  current : Nat
  peak : Nat
  deriving DecidableEq, Inhabited

namespace StackDepth

/-- The depth after a value of some width was pushed. -/
def push (depth : StackDepth) (width : Nat) : StackDepth :=
  ⟨depth.current + width, max depth.peak (depth.current + width)⟩

/-- The depth after a value of some width was popped; there is nothing below the bottom. -/
def pop (depth : StackDepth) (width : Nat) : StackDepth := ⟨depth.current - width, depth.peak⟩

/-- The depth after an opcode without operands. -/
def afterPlain (depth : StackDepth) (op : Opcode) : StackDepth :=
  if op = .aconstNull ∨ op = .dup then
    depth.push 1
  else if op = .ireturn ∨ op = .freturn ∨ op = .areturn ∨ op = .athrow then
    depth.pop 1
  else if op = .lreturn ∨ op = .dreturn then
    depth.pop 2
  else
    depth

end StackDepth

/-- Code under construction. -/
structure CodeBuffer where
  code : Bytes
  maxLocals : UInt16
  depth : StackDepth
  /-- Control reaches the end of the code. -/
  alive : Bool
  deriving DecidableEq, Inhabited

/-- An action on code under construction. An action that fails keeps the changes it made before. -/
abbrev CodeAction (α : Type) := EStateM DescriptorError CodeBuffer α

namespace CodeBuffer

/-- No code yet, for a method with some local slots. -/
def new (maxLocals : UInt16) : CodeBuffer := ⟨[], maxLocals, ⟨0, 0⟩, true⟩

/-- Appends bytes. -/
def emitBytes (buffer : CodeBuffer) (bytes : Bytes) : CodeBuffer :=
  { buffer with code := buffer.code ++ bytes }

/-- Counts a value that was pushed. -/
def push (buffer : CodeBuffer) (width : Nat) : CodeBuffer :=
  { buffer with depth := buffer.depth.push width }

/-- Counts a value that was popped. -/
def pop (buffer : CodeBuffer) (width : Nat) : CodeBuffer :=
  { buffer with depth := buffer.depth.pop width }

/-- Appends an opcode and counts its effect on the stack as one without operands. -/
def emit (buffer : CodeBuffer) (op : Opcode) : CodeBuffer :=
  if buffer.alive then
    { buffer with
      code := buffer.code ++ [op.code]
      depth := buffer.depth.afterPlain op
      alive := !op.isTerminal }
  else
    buffer

/-- Appends an opcode with a 16-bit operand. -/
def emitIndexed (buffer : CodeBuffer) (op : Opcode) (index : UInt16) : CodeBuffer :=
  if buffer.alive then
    let buffer := (buffer.emit op).emitBytes (bigEndian 2 index.toNat)
    if op = .new ∨ op = .ldcW then buffer.push 1 else buffer
  else
    buffer

/-- Appends the load of a constant, in its short form if the index fits in a byte. -/
def emitLoad (buffer : CodeBuffer) (index : UInt16) : CodeBuffer :=
  if buffer.alive then
    if index.toNat < 0x100 then
      ((buffer.emit .ldc).emitBytes [UInt8.ofNat index.toNat]).push 1
    else
      buffer.emitIndexed .ldcW index
  else
    buffer

/-- Appends the call of a method with a descriptor. Only a static call takes no receiver. -/
def emitInvoke (op : Opcode) (method : UInt16) (descriptor : String) : CodeAction Unit := do
  if (← get).alive then
    let parameters ← MonadExcept.ofExcept (parameterSlots descriptor)
    let result ← MonadExcept.ofExcept (returnSlots descriptor)
    let receiver := if op = .invokestatic then 0 else 1
    modify (·.emitIndexed op method)
    modify (·.pop (parameters + receiver))
    modify (·.push result)

/-- The payload with the code of a buffer. -/
def toPayload (buffer : CodeBuffer) : CodePayload :=
  ⟨UInt16.ofNat buffer.depth.peak, buffer.maxLocals, buffer.code, [], []⟩

/-- The payload with the code that an action writes for a method with some local slots. -/
def build (maxLocals : UInt16) (action : CodeAction Unit) : Except DescriptorError CodePayload :=
  match action (new maxLocals) with
  | .ok _ buffer => .ok buffer.toPayload
  | .error error _ => .error error

end CodeBuffer

end ClassStub
