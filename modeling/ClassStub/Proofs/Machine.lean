import Mathlib.Algebra.Ring.Nat
import ClassStub.ClassFile
import ClassStub.Code.Disassembly
import ClassStub.Descriptor
import ClassStub.Names

/-!
# A machine that runs generated code

The eight instructions that create objects, load constants, call static methods and leave a
method by a result or by an exception, as steps of a machine with an operand stack, a heap and
a stack of frames. Operands are resolved in the pool of the class that is run, and a static call
reaches the methods of this class only.

The machine takes no step that a virtual machine would not take: it has no step where the stack
would underflow or exceed its declared size, where an operand does not resolve, where an object
is used before its constructor was called, or where an exception handler would have to be
found. So a run that comes to its end did none of this.

A constructor of another class is not run. The object keeps the descriptor of its constructor
and the arguments that were passed.
-/

namespace ClassStub

/-! ### Values and objects -/

/-- A value on the operand stack, in a local slot or in an argument list. -/
inductive Value where
  | null
  | int (value : Int32)
  | long (value : Int64)
  | float (bits : UInt32)
  | double (bits : UInt64)
  | string (text : String)
  | classObject (name : String)
  | object (address : Nat)
  deriving DecidableEq

/-- The slots that a value takes. -/
def Value.width : Value → Nat
  | long _ | double _ => 2
  | _ => 1

/-- An object that was created by the code: its class, and the descriptor and the arguments of
its constructor once that was called. -/
structure HeapObject where
  className : String
  construction? : Option (String × List Value)
  deriving DecidableEq

/-- The constructor of the object at an address was called. -/
def isConstructed (heap : List HeapObject) (address : Nat) : Bool :=
  heap[address]?.any (·.construction?.isSome)

/-- The value is a reference, and not to an object whose constructor was not called. -/
def Value.isReference (heap : List HeapObject) : Value → Bool
  | null | string _ | classObject _ => true
  | object address => isConstructed heap address
  | _ => false

/-- The value that the load of a constant pushes. -/
def ConstantPool.loadable? (pool : ConstantPool) (index : UInt16) : Option Value :=
  match pool.get? index with
  | some (.integer value) => some (.int value)
  | some (.float bits) => some (.float bits)
  | some (.string _) => (pool.string index).toOption.map .string
  | some (.classRef _) => (pool.className index).toOption.map .classObject
  | _ => none

/-! ### Frames -/

/-- A method that is being run. -/
structure Frame where
  /-- The bytes from the next instruction on. -/
  code : Bytes
  /-- The operand stack, top first. -/
  stack : List Value
  /-- The greatest depth of the stack so far, in slots. -/
  peak : Nat
  /-- The declared size of the stack, in slots. -/
  maxStack : Nat
  handlers : List ExceptionHandler
  locals : List Value
  deriving DecidableEq

namespace Frame

/-- The frame of a method that starts with some arguments. -/
def enter (payload : CodePayload) (arguments : List Value) : Frame :=
  ⟨payload.code, [], 0, payload.maxStack.toNat, payload.handlers, arguments⟩

/-- The slots that the values on the stack take. -/
def depth (frame : Frame) : Nat := (frame.stack.map Value.width).sum

/-- Pushes a value, for which there must be room. -/
def push? (value : Value) (frame : Frame) : Option Frame :=
  let depth := frame.depth + value.width
  if depth ≤ frame.maxStack then
    some { frame with stack := value :: frame.stack, peak := max frame.peak depth }
  else
    none

/-- Pops a value, which must be there. -/
def pop? (frame : Frame) : Option (Value × Frame) :=
  match frame.stack with
  | value :: stack => some (value, { frame with stack })
  | [] => none

/-- Pops the arguments for some parameters, the last one first. Each must be as wide as its
parameter. -/
def popArguments? (parameters : List FieldType) (frame : Frame) :
    Option (List Value × Frame) :=
  let arguments := (frame.stack.take parameters.length).reverse
  if arguments.map Value.width = parameters.map FieldType.slots then
    some (arguments, { frame with stack := frame.stack.drop parameters.length })
  else
    none

end Frame

/-! ### Steps -/

/-- The state of a run: the objects created so far, by address, the method that is being run,
and those that wait for it, innermost first. -/
structure Machine where
  heap : List HeapObject
  frame : Frame
  callers : List Frame
  deriving DecidableEq

/-- How a method is left. -/
inductive Completion where
  | returned (value : Value)
  | threw (address : Nat)
  deriving DecidableEq

/-- The end of a run: how the method that was started is left, the objects that were created,
and how deep the operand stack of this method got. -/
structure Ending where
  completion : Completion
  heap : List HeapObject
  peak : Nat
  deriving DecidableEq

/-- What a step leads to. -/
inductive Progress where
  | running (machine : Machine)
  | ended (ending : Ending)
  deriving DecidableEq

namespace Machine

/-- A method that is started with some arguments, while some objects are there already. -/
def start (heap : List HeapObject) (payload : CodePayload) (arguments : List Value) : Machine :=
  ⟨heap, .enter payload arguments, []⟩

/-- Pushes a value on the stack of the method that is being run. -/
def push? (machine : Machine) (value : Value) : Option Progress := do
  let frame ← machine.frame.push? value
  return .running { machine with frame }

/-- Creates an object of a class, whose constructor was not called yet. -/
def create? (c : ClassFile) (index : UInt16) (machine : Machine) : Option Progress := do
  let className ← (c.pool.className index).toOption
  let heap := machine.heap ++ [⟨className, none⟩]
  push? { machine with heap } (.object machine.heap.length)

/-- Pushes the value on top of the stack once more. -/
def duplicate? (machine : Machine) : Option Progress := do
  let (value, _) ← machine.frame.pop?
  guard (value.width = 1)
  machine.push? value

/-- Pushes a constant. -/
def load? (c : ClassFile) (index : UInt16) (machine : Machine) : Option Progress := do
  let value ← c.pool.loadable? index
  machine.push? value

/-- Calls a constructor on an object of its class for the first time. -/
def construct? (c : ClassFile) (index : UInt16) (machine : Machine) : Option Progress := do
  let (owner, name, descriptor) ← (c.pool.methodRef index).toOption
  let parsed ← (MethodDescriptor.parse descriptor).toOption
  guard (name = constructorName ∧ parsed.result = none)
  let (arguments, frame) ← machine.frame.popArguments? parsed.parameters
  match ← frame.pop? with
  | (.object address, frame) => do
    guard (machine.heap[address]? = some ⟨owner, none⟩)
    let heap := machine.heap.set address ⟨owner, some (descriptor, arguments)⟩
    return .running { machine with heap, frame }
  | _ => none

/-- Starts a static method of the class. -/
def call? (c : ClassFile) (index : UInt16) (machine : Machine) : Option Progress := do
  let (owner, name, descriptor) ← (c.pool.methodRef index).toOption
  let className ← c.className.toOption
  guard (owner = className)
  let method ← c.findMethod? name descriptor
  guard (method.access.isStatic ∧ method.hasBody c.pool)
  let payload ← (method.code c.pool).toOption.join
  let parsed ← (MethodDescriptor.parse descriptor).toOption
  let (arguments, frame) ← machine.frame.popArguments? parsed.parameters
  return .running ⟨machine.heap, .enter payload arguments, frame :: machine.callers⟩

/-- Leaves a method with the reference on top of its stack. -/
def return? (machine : Machine) : Option Progress := do
  let (value, _) ← machine.frame.pop?
  guard (value.isReference machine.heap)
  match machine.callers with
  | [] => return .ended ⟨.returned value, machine.heap, machine.frame.peak⟩
  | frame :: callers => push? { machine with frame, callers } value

/-- Throws the object on top of the stack through all methods, none of which has handlers. -/
def throw? (machine : Machine) : Option Progress := do
  match ← machine.frame.pop? with
  | (.object address, _) => do
    guard (isConstructed machine.heap address)
    guard ((machine.frame :: machine.callers).all (·.handlers.isEmpty))
    let started := machine.callers.getLast?.getD machine.frame
    return .ended ⟨.threw address, machine.heap, started.peak⟩
  | _ => none

/-- Executes an instruction. -/
def execute? (c : ClassFile) (instruction : Instruction) (machine : Machine) : Option Progress :=
  let index := UInt16.ofNat (ofBigEndian instruction.operand)
  if instruction.opcode = .new then machine.create? c index
  else if instruction.opcode = .dup then machine.duplicate?
  else if instruction.opcode = .ldc ∨ instruction.opcode = .ldcW then machine.load? c index
  else if instruction.opcode = .invokespecial then machine.construct? c index
  else if instruction.opcode = .invokestatic then machine.call? c index
  else if instruction.opcode = .areturn then machine.return?
  else if instruction.opcode = .athrow then machine.throw?
  else none

/-- Reads the next instruction and executes it. -/
def step? (c : ClassFile) (machine : Machine) : Option Progress := do
  let (instruction, code) ← Instruction.read? machine.frame.code
  execute? c instruction { machine with frame := { machine.frame with code } }

/-- The end of a run that comes to its end within some number of steps. -/
def run? (c : ClassFile) : Nat → Machine → Option Ending
  | 0, _ => none
  | steps + 1, machine =>
    match machine.step? c with
    | some (.running next) => next.run? c steps
    | some (.ended ending) => some ending
    | none => none

/-- The run comes to an end, and this is how it ends. -/
def EndsIn (c : ClassFile) (machine : Machine) (ending : Ending) : Prop :=
  ∃ steps, machine.run? c steps = some ending

variable {c : ClassFile} {machine next : Machine} {ending ending' : Ending}

/-! ### Runs -/

/-- A run that has ended stays as it is when it is given more steps. -/
theorem run?_add {steps : Nat} (more : Nat) (h : machine.run? c steps = some ending) :
    machine.run? c (steps + more) = some ending := by
  induction steps generalizing machine with
  | zero => exact nomatch h
  | succ steps ih =>
    rw [Nat.succ_add, run?]
    rw [run?] at h
    split at h
    case h_1 => exact ih h
    case h_2 => exact h
    case h_3 => exact nomatch h

/-- A run ends in one way only. -/
theorem EndsIn.unique (h : machine.EndsIn c ending) (h' : machine.EndsIn c ending') :
    ending = ending' := by
  obtain ⟨steps, hrun⟩ := h
  obtain ⟨steps', hrun'⟩ := h'
  have hmore := run?_add steps' hrun
  have hmore' := run?_add steps hrun'
  rw [Nat.add_comm, hmore] at hmore'
  exact Option.some.inj hmore'

/-- A machine ends as it does after its next step. -/
theorem endsIn_of_running (hstep : machine.step? c = some (.running next))
    (h : next.EndsIn c ending) : machine.EndsIn c ending := by
  obtain ⟨steps, hrun⟩ := h
  exact ⟨steps + 1, by rw [run?, hstep]; exact hrun⟩

/-- A machine whose next step is the last one ends with it. -/
theorem endsIn_of_ended (hstep : machine.step? c = some (.ended ending)) :
    machine.EndsIn c ending :=
  ⟨1, by rw [run?, hstep]⟩

end Machine

end ClassStub
