import ClassStub.Code.Disassembly
import ClassStub.Stub.Raise
import ClassStub.Proofs.ClassFormat
import ClassStub.Proofs.Steps

/-!
# The generated bodies

Each of the four generated payloads, spelled out: its code as a list of instructions, and the
depth of the operand stack that the buffer counted while the instructions were appended. None
of them has exception handlers or nested attributes, and so each is read back from its written
form.
-/

namespace ClassStub

/-! ### Instructions -/

namespace Instruction

/-- An instruction without operands. -/
def plain (opcode : Opcode) : Instruction := ⟨opcode, []⟩

/-- An instruction on an entry of the pool. -/
def indexed (opcode : Opcode) (index : UInt16) : Instruction :=
  ⟨opcode, bigEndian 2 index.toNat⟩

/-- The load of a constant, in its short form if the index fits in a byte. -/
def load (index : UInt16) : Instruction :=
  if index.toNat < 0x100 then ⟨.ldc, [UInt8.ofNat index.toNat]⟩ else indexed .ldcW index

/-- The bytes of one instruction after the other. -/
def assemble (instructions : List Instruction) : Bytes := instructions.flatMap toBytes

@[simp] theorem assemble_nil : assemble [] = [] := rfl

@[simp] theorem assemble_cons (instruction : Instruction) (instructions : List Instruction) :
    assemble (instruction :: instructions) = instruction.toBytes ++ assemble instructions := rfl

/-- The bytes of two lists of instructions stand one behind the other. -/
@[simp] theorem assemble_append (first second : List Instruction) :
    assemble (first ++ second) = assemble first ++ assemble second := by
  rw [assemble, List.flatMap_append, assemble, assemble]

end Instruction

open Instruction

/-- The instructions that leave a new diagnostic exception on the stack. -/
def RaiseRefs.construction (refs : RaiseRefs) : List Instruction :=
  [indexed .new refs.exceptionClass, plain .dup, load refs.message,
    indexed .invokespecial refs.constructor]

/-! ### Descriptors -/

/-- The helper takes nothing and returns the exception. -/
theorem Helper.parse_descriptor : MethodDescriptor.parse Helper.descriptor =
    .ok ⟨[], some ⟨0, .object Diagnostic.exceptionClass.toList⟩⟩ := by
  cbv

/-- The helper has no parameters, so a call of it pops nothing. -/
theorem Helper.parameterSlots_descriptor : parameterSlots Helper.descriptor = .ok 0 := by
  rw [parameterSlots, parse_descriptor]
  rfl

/-- The constructor of the exception takes a text and returns nothing. -/
theorem Diagnostic.parse_constructorDescriptor :
    MethodDescriptor.parse Diagnostic.constructorDescriptor =
      .ok ⟨[⟨0, .object "java/lang/String".toList⟩], none⟩ := by
  cbv

/-! ### Buffers -/

namespace CodeBuffer

variable (code : Bytes) (maxLocals : UInt16) (depth : StackDepth)

/-- In a live buffer a plain instruction is appended, and its effect on the stack is known. -/
theorem emit_eq (op : Opcode) :
    emit ⟨code, maxLocals, depth, true⟩ op =
      ⟨code ++ (plain op).toBytes, maxLocals, depth.afterPlain op, !op.isTerminal⟩ := rfl

/-- In a live buffer an instruction with an index is appended. Those that push are known by their
opcodes. -/
theorem emitIndexed_eq (op : Opcode) (index : UInt16) :
    emitIndexed ⟨code, maxLocals, depth, true⟩ op index =
      ⟨code ++ (indexed op index).toBytes, maxLocals,
        if op = .new ∨ op = .ldcW then (depth.afterPlain op).push 1 else depth.afterPlain op,
        !op.isTerminal⟩ := by
  rw [emitIndexed, if_pos rfl, emit_eq, emitBytes, List.append_assoc]
  split <;> rfl

/-- The load of a constant counts one slot, whichever form it has. -/
theorem emitLoad_eq (index : UInt16) :
    emitLoad ⟨code, maxLocals, depth, true⟩ index =
      ⟨code ++ (load index).toBytes, maxLocals, depth.push 1, true⟩ := by
  by_cases hshort : index.toNat < 0x100
  · rw [emitLoad, if_pos rfl, if_pos hshort, load, if_pos hshort, emit_eq, emitBytes,
      List.append_assoc]
    rfl
  · rw [emitLoad, if_pos rfl, if_neg hshort, load, if_neg hshort, emitIndexed_eq]
    rfl

/-- A call pops its parameters and its receiver, and pushes its result. -/
theorem emitInvoke_eq {descriptor : String} {parsed : MethodDescriptor} (op : Opcode)
    (hop : op = .invokestatic ∨ op = .invokespecial ∨ op = .invokevirtual) (method : UInt16)
    (hparse : MethodDescriptor.parse descriptor = .ok parsed) :
    emitInvoke op method descriptor ⟨code, maxLocals, depth, true⟩ =
      .ok () ⟨code ++ (indexed op method).toBytes, maxLocals,
        (depth.pop (parsed.parameterSlots + if op = .invokestatic then 0 else 1)).push
          parsed.returnSlots, true⟩ := by
  rw [emitInvoke, parameterSlots, returnSlots, hparse]
  change EStateM.Result.ok () (((emitIndexed _ op method).pop _).push _) = _
  rw [emitIndexed_eq]
  rcases hop with rfl | rfl | rfl <;> rfl

/-- The exception takes three slots while it is made, and one when it is there. -/
private theorem emitException_new (refs : RaiseRefs) :
    emitException refs (new maxLocals) =
      .ok () ⟨assemble refs.construction, maxLocals, ⟨1, 3⟩, true⟩ := by
  have hnew : ((new maxLocals).emitIndexed .new refs.exceptionClass).emit .dup =
      ⟨assemble [indexed .new refs.exceptionClass, plain .dup], maxLocals, ⟨2, 2⟩, true⟩ := rfl
  change emitInvoke .invokespecial refs.constructor Diagnostic.constructorDescriptor
    ((((new maxLocals).emitIndexed .new refs.exceptionClass).emit .dup).emitLoad refs.message) = _
  rw [hnew, emitLoad_eq,
    emitInvoke_eq _ _ _ _ (.inr (.inl rfl)) _ Diagnostic.parse_constructorDescriptor]
  simp only [RaiseRefs.construction, assemble_cons, assemble_nil, List.append_assoc,
    List.append_nil]
  rfl

/-- The payload of an action whose first part leaves a known buffer, when one more instruction
comes behind it. -/
private theorem build_bind_emit {action : CodeAction Unit} {buffer : CodeBuffer}
    (h : action (new maxLocals) = .ok () buffer) (op : Opcode) :
    build maxLocals (action >>= fun _ => modify (·.emit op)) = .ok (buffer.emit op).toPayload := by
  rw [build, bind_run_of_ok h]
  rfl

end CodeBuffer

/-! ### Payloads -/

/-- The body that a method of a stub is given. -/
inductive GeneratedBody where
  /-- An initializer that returns at once. -/
  | returning (maxLocals : UInt16)
  /-- A call of the helper, whose result is thrown. -/
  | delegating (helper maxLocals : UInt16)
  /-- The exception is made and thrown. -/
  | raisingInline (refs : RaiseRefs) (maxLocals : UInt16)
  /-- The exception is made and returned. -/
  | returningException (refs : RaiseRefs)

namespace GeneratedBody

/-- The instructions of the body. -/
def instructions : GeneratedBody → List Instruction
  | returning _ => [plain .returnVoid]
  | delegating helper _ => [indexed .invokestatic helper, plain .athrow]
  | raisingInline refs _ => refs.construction ++ [plain .athrow]
  | returningException refs => refs.construction ++ [plain .areturn]

/-- The slots of the operand stack that the body declares. -/
def maxStack : GeneratedBody → UInt16
  | returning _ => 0
  | delegating _ _ => 1
  | raisingInline _ _ | returningException _ => 3

/-- The local slots that the body declares. -/
def maxLocals : GeneratedBody → UInt16
  | returning maxLocals | delegating _ maxLocals | raisingInline _ maxLocals => maxLocals
  | returningException _ => 0

/-- The payload of the body: it has nothing beside its instructions. -/
def payload (body : GeneratedBody) : CodePayload :=
  ⟨body.maxStack, body.maxLocals, assemble body.instructions, [], []⟩

private theorem length_construction_le (refs : RaiseRefs) :
    (assemble refs.construction).length ≤ 10 := by
  by_cases hshort : refs.message.toNat < 0x100 <;>
    simp [RaiseRefs.construction, toBytes, indexed, plain, load, hshort]

/-- No generated body is longer than the one that constructs the exception in place. -/
theorem length_code_le (body : GeneratedBody) : body.payload.code.length ≤ 11 := by
  cases body with
  | returning | delegating => simp [payload, instructions, toBytes, indexed, plain]
  | raisingInline refs | returningException refs =>
    have hlength := length_construction_le refs
    rw [payload, instructions, assemble_append, List.length_append]
    exact Nat.add_le_add hlength (Nat.le_refl 1)

private theorem isEncodable (body : GeneratedBody) : body.payload.IsEncodable where
  code := Nat.lt_of_le_of_lt body.length_code_le (by decide)
  handlerCount := Nat.two_pow_pos 16
  attributeCount := Nat.two_pow_pos 16
  attributes := fun _ hmem => absurd hmem List.not_mem_nil

/-- A generated body is read back from its written form. -/
theorem decode_encode (body : GeneratedBody) :
    CodePayload.decode body.payload.encode = .ok body.payload :=
  CodePayload.decode_eq_ok_iff.2 ⟨body.isEncodable, rfl⟩

end GeneratedBody

namespace CodePayload

/-- The body that returns at once is what the buffer gives. -/
theorem returning_eq (maxLocals : UInt16) :
    returning maxLocals = (GeneratedBody.returning maxLocals).payload := rfl

/-- The body that calls the helper is what the buffer gives. -/
theorem delegating_eq (helper maxLocals : UInt16) :
    delegating helper maxLocals = .ok (GeneratedBody.delegating helper maxLocals).payload := by
  have hinvoke := CodeBuffer.emitInvoke_eq [] maxLocals ⟨0, 0⟩ .invokestatic (.inl rfl) helper
    Helper.parse_descriptor
  exact CodeBuffer.build_bind_emit maxLocals hinvoke .athrow

/-- The body that throws the exception itself is what the buffer gives. -/
theorem raisingInline_eq (refs : RaiseRefs) (maxLocals : UInt16) :
    raisingInline refs maxLocals = .ok (GeneratedBody.raisingInline refs maxLocals).payload := by
  rw [raisingInline, CodeBuffer.build_bind_emit _ (CodeBuffer.emitException_new maxLocals refs),
    GeneratedBody.payload, GeneratedBody.instructions, assemble_append]
  rfl

/-- The body of the helper is what the buffer gives. -/
theorem returningException_eq (refs : RaiseRefs) :
    returningException refs = .ok (GeneratedBody.returningException refs).payload := by
  rw [returningException, CodeBuffer.build_bind_emit _ (CodeBuffer.emitException_new 0 refs),
    GeneratedBody.payload, GeneratedBody.instructions, assemble_append]
  rfl

end CodePayload

end ClassStub
