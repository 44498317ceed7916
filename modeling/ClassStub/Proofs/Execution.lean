import ClassStub.Proofs.CodeSplits
import ClassStub.Proofs.Interning
import ClassStub.Proofs.Machine

/-!
# Running the generated bodies

What the machine does on each of the instructions that a generated body consists of, and from
this how the bodies run. The four instructions of `RaiseRefs.construction` leave an object on
the stack that was made by the constructor of the diagnostic exception with the diagnostic
message (`Machine.endsIn_construction`). A body throws this object or returns it.
-/

namespace ClassStub

open Instruction

/-- The exception that a stubbed method throws: it was made by the constructor that takes a
string, from the diagnostic message. -/
def Diagnostic.exception : HeapObject :=
  ⟨exceptionClass, some (constructorDescriptor, [.string message])⟩

/-! ### Operands -/

namespace Instruction

theorem index_indexed (opcode : Opcode) (index : UInt16) :
    UInt16.ofNat (ofBigEndian (indexed opcode index).operand) = index := by
  have hlt : index.toNat < 256 ^ 2 := index.toNat_lt
  rw [indexed, ofBigEndian_bigEndian, Nat.mod_eq_of_lt hlt, UInt16.ofNat_toNat]

theorem index_load (index : UInt16) : UInt16.ofNat (ofBigEndian (load index).operand) = index := by
  by_cases hshort : index.toNat < 0x100
  · have hbyte : (UInt8.ofNat index.toNat).toNat = index.toNat := UInt8.toNat_ofNat_of_lt hshort
    rw [load, if_pos hshort, ofBigEndian_cons, hbyte]
    simp [ofBigEndian]
  · rw [load, if_neg hshort, index_indexed]

end Instruction

namespace Machine

variable {c : ClassFile} {heap : List HeapObject} {code : Bytes} {stack : List Value}
  {peak maxStack : Nat} {handlers : List ExceptionHandler} {locals : List Value}
  {callers : List Frame} {index : UInt16}

/-! ### Single steps -/

/-- What the machine does next is what it does with the instruction that its code starts with. -/
theorem step?_append {instruction : Instruction}
    (h : instruction.opcode.operandLength? = some instruction.operand.length) :
    step? c ⟨heap, ⟨instruction.toBytes ++ code, stack, peak, maxStack, handlers, locals⟩,
        callers⟩ =
      execute? c instruction ⟨heap, ⟨code, stack, peak, maxStack, handlers, locals⟩, callers⟩ := by
  rw [step?, read?_toBytes_append h]
  rfl

/-- A value is pushed where there is room for it. -/
theorem push?_eq {value : Value}
    (hfits : (stack.map Value.width).sum + value.width ≤ maxStack) :
    push? ⟨heap, ⟨code, stack, peak, maxStack, handlers, locals⟩, callers⟩ value =
      some (.running ⟨heap, ⟨code, value :: stack,
        max peak ((stack.map Value.width).sum + value.width), maxStack, handlers, locals⟩,
        callers⟩) := by
  rw [push?, Frame.push?, Frame.depth]
  simp [hfits]

/-- A new object is put behind those on the heap, and nothing has constructed it yet. -/
theorem step?_new {name : String} (hname : c.pool.className index = .ok name)
    (hfits : (stack.map Value.width).sum + 1 ≤ maxStack) :
    step? c ⟨heap, ⟨(indexed .new index).toBytes ++ code, stack, peak, maxStack, handlers,
        locals⟩, callers⟩ =
      some (.running ⟨heap ++ [⟨name, none⟩], ⟨code, .object heap.length :: stack,
        max peak ((stack.map Value.width).sum + 1), maxStack, handlers, locals⟩, callers⟩) := by
  rw [step?_append rfl, execute?, index_indexed]
  change create? c index _ = _
  rw [create?, hname]
  exact push?_eq hfits

/-- A value of width one is put on the stack once more. -/
theorem step?_dup {value : Value} (hwidth : value.width = 1)
    (hfits : (stack.map Value.width).sum + 2 ≤ maxStack) :
    step? c ⟨heap, ⟨(plain .dup).toBytes ++ code, value :: stack, peak, maxStack, handlers,
        locals⟩, callers⟩ =
      some (.running ⟨heap, ⟨code, value :: value :: stack,
        max peak ((stack.map Value.width).sum + 2), maxStack, handlers, locals⟩, callers⟩) := by
  have hdepth : ((value :: stack).map Value.width).sum + value.width =
      (stack.map Value.width).sum + 2 := by
    rw [List.map_cons, List.sum_cons, hwidth]
    omega
  rw [step?_append rfl, ← hdepth, execute?]
  change (guard (value.width = 1) >>= fun _ => push? _ value) = _
  rw [guard, if_pos hwidth]
  exact push?_eq (hdepth ▸ hfits)

/-- A string of the pool can be loaded. -/
theorem loadable?_of_string {text : String} (htext : c.pool.string index = .ok text) :
    c.pool.loadable? index = some (.string text) := by
  obtain ⟨textIndex, hget, -⟩ := ConstantPool.string_eq_ok_iff.1 htext
  rw [ConstantPool.loadable?, hget, htext]
  rfl

/-- A string of the pool is put on the stack. -/
theorem step?_load {text : String} (htext : c.pool.string index = .ok text)
    (hfits : (stack.map Value.width).sum + 1 ≤ maxStack) :
    step? c ⟨heap, ⟨(load index).toBytes ++ code, stack, peak, maxStack, handlers, locals⟩,
        callers⟩ =
      some (.running ⟨heap, ⟨code, .string text :: stack,
        max peak ((stack.map Value.width).sum + 1), maxStack, handlers, locals⟩, callers⟩) := by
  have hopcode : (load index).opcode = .ldc ∨ (load index).opcode = .ldcW := by
    by_cases hshort : index.toNat < 0x100
    · exact .inl (by rw [load, if_pos hshort])
    · exact .inr (by rw [load, if_neg hshort, indexed])
  have hexecute (machine : Machine) :
      execute? c (load index) machine = load? c index machine := by
    rw [execute?, index_load]
    rcases hopcode with h | h <;> rw [h] <;> rfl
  rw [step?_append (isComplete_load index), hexecute, load?, loadable?_of_string htext]
  exact push?_eq hfits

/-- A constructor that takes a string is called on an object that was just created. -/
theorem step?_invokespecial {owner descriptor text : String} {address : Nat} {type : FieldType}
    (hmethod : c.pool.methodRef index = .ok (owner, constructorName, descriptor))
    (hparse : MethodDescriptor.parse descriptor = .ok ⟨[type], none⟩) (htype : type.slots = 1)
    (hobject : heap[address]? = some ⟨owner, none⟩) :
    step? c ⟨heap, ⟨(indexed .invokespecial index).toBytes ++ code,
        .string text :: .object address :: stack, peak, maxStack, handlers, locals⟩, callers⟩ =
      some (.running ⟨heap.set address ⟨owner, some (descriptor, [.string text])⟩,
        ⟨code, stack, peak, maxStack, handlers, locals⟩, callers⟩) := by
  rw [step?_append rfl, execute?, index_indexed]
  change construct? c index _ = _
  rw [construct?, hmethod]
  simp [hparse, Except.toOption, Frame.popArguments?, Frame.pop?, htype, Value.width, hobject,
    guard]

/-- An object that was constructed is returned from the method that was started. -/
theorem step?_areturn {address : Nat}
    (hobject : isConstructed heap address = true) :
    step? c ⟨heap, ⟨(plain .areturn).toBytes ++ code, .object address :: stack, peak, maxStack,
        handlers, locals⟩, []⟩ =
      some (.ended ⟨.returned (.object address), heap, peak⟩) := by
  rw [step?_append rfl]
  change return? _ = _
  simp [return?, Frame.pop?, Value.isReference, hobject, guard]

/-- An object that was constructed is returned to a caller that has room for it. -/
theorem step?_areturn_to_caller {address : Nat} {caller : Frame}
    (hobject : isConstructed heap address = true)
    (hfits : caller.depth + 1 ≤ caller.maxStack) :
    step? c ⟨heap, ⟨(plain .areturn).toBytes ++ code, .object address :: stack, peak, maxStack,
        handlers, locals⟩, caller :: callers⟩ =
      some (.running ⟨heap, { caller with
        stack := .object address :: caller.stack
        peak := max caller.peak (caller.depth + 1) }, callers⟩) := by
  rw [step?_append rfl]
  change (guard (isConstructed heap address = true) >>= fun _ =>
    push? ⟨heap, caller, callers⟩ (.object address)) = _
  rw [guard, if_pos hobject]
  exact push?_eq hfits

/-- An object that was constructed is thrown out of the method that was started, if that method
has no handlers. -/
theorem step?_athrow {address : Nat}
    (hobject : isConstructed heap address = true) :
    step? c ⟨heap, ⟨(plain .athrow).toBytes ++ code, .object address :: stack, peak, maxStack,
        [], locals⟩, []⟩ =
      some (.ended ⟨.threw address, heap, peak⟩) := by
  rw [step?_append rfl]
  change throw? _ = _
  simp [throw?, Frame.pop?, hobject, guard]

/-- A static method without parameters is started. -/
theorem step?_invokestatic {className name descriptor : String} {result : Option FieldType}
    {method : Member} {payload : CodePayload}
    (hmethod : c.pool.methodRef index = .ok (className, name, descriptor))
    (howner : c.className = .ok className) (hfind : c.findMethod? name descriptor = some method)
    (hstatic : method.access.isStatic = true) (hbody : method.hasBody c.pool = true)
    (hcode : method.code c.pool = .ok (some payload))
    (hparse : MethodDescriptor.parse descriptor = .ok ⟨[], result⟩) :
    step? c ⟨heap, ⟨(indexed .invokestatic index).toBytes ++ code, stack, peak, maxStack,
        handlers, locals⟩, callers⟩ =
      some (.running ⟨heap, .enter payload [],
        ⟨code, stack, peak, maxStack, handlers, locals⟩ :: callers⟩) := by
  rw [step?_append rfl, execute?, index_indexed]
  change call? c index _ = _
  rw [call?, hmethod, howner]
  simp [hfind, hstatic, hbody, hcode, hparse, Except.toOption, Frame.popArguments?, guard]

/-! ### Bodies -/

/-- The exception is made on an empty stack, which gets three slots deep. -/
theorem endsIn_construction {refs : RaiseRefs} {ending : Ending} (hrefs : refs.ResolveIn c.pool)
    (hfits : 3 ≤ maxStack)
    (h : EndsIn c ⟨heap ++ [Diagnostic.exception],
      ⟨code, [.object heap.length], 3, maxStack, handlers, locals⟩, callers⟩ ending) :
    EndsIn c ⟨heap,
      ⟨assemble refs.construction ++ code, [], 0, maxStack, handlers, locals⟩, callers⟩ ending := by
  have hnew : ([] : List Value).length + 1 ≤ maxStack := Nat.le_trans (by decide) hfits
  have hdup : ([] : List Value).length + 2 ≤ maxStack := Nat.le_trans (by decide) hfits
  have hcreated : (heap ++ [(⟨Diagnostic.exceptionClass, none⟩ : HeapObject)])[heap.length]? =
      some ⟨Diagnostic.exceptionClass, none⟩ := List.getElem?_concat_length
  simp only [RaiseRefs.construction, assemble_cons, assemble_nil, List.append_nil,
    List.append_assoc]
  -- the stack gets one, two and three slots deep, of which the constructor takes two
  refine endsIn_of_running (step?_new hrefs.exceptionClass hnew) ?_
  refine endsIn_of_running (step?_dup rfl hdup) ?_
  refine endsIn_of_running (step?_load hrefs.message hfits) ?_
  refine endsIn_of_running (step?_invokespecial hrefs.constructor
    Diagnostic.parse_constructorDescriptor rfl hcreated) ?_
  rw [List.set_append_right _ _ (Nat.le_refl _), Nat.sub_self]
  exact h

theorem isConstructed_exception :
    isConstructed (heap ++ [Diagnostic.exception]) heap.length = true := by
  rw [isConstructed, List.getElem?_concat_length]
  rfl

/-- The body that throws the exception itself does so, with three slots on the stack at most. -/
theorem endsIn_raisingInline {refs : RaiseRefs} (hrefs : refs.ResolveIn c.pool)
    (maxLocals : UInt16) (arguments : List Value) :
    (start heap (GeneratedBody.raisingInline refs maxLocals).payload arguments).EndsIn c
      ⟨.threw heap.length, heap ++ [Diagnostic.exception], 3⟩ := by
  have hthrow : step? c ⟨heap ++ [Diagnostic.exception],
      ⟨(plain .athrow).toBytes ++ [], [.object heap.length], 3, 3, [], arguments⟩, []⟩ =
      some (.ended ⟨.threw heap.length, heap ++ [Diagnostic.exception], 3⟩) :=
    step?_athrow isConstructed_exception
  have hrun := endsIn_construction hrefs (Nat.le_refl 3) (endsIn_of_ended hthrow)
  rw [start, Frame.enter, GeneratedBody.payload, GeneratedBody.instructions, assemble_append]
  exact hrun

/-- The helper returns a new exception, with three slots on the stack at most. -/
theorem endsIn_returningException {refs : RaiseRefs} (hrefs : refs.ResolveIn c.pool)
    (arguments : List Value) :
    (start heap (GeneratedBody.returningException refs).payload arguments).EndsIn c
      ⟨.returned (.object heap.length), heap ++ [Diagnostic.exception], 3⟩ := by
  have hreturn : step? c ⟨heap ++ [Diagnostic.exception],
      ⟨(plain .areturn).toBytes ++ [], [.object heap.length], 3, 3, [], arguments⟩, []⟩ =
      some (.ended ⟨.returned (.object heap.length), heap ++ [Diagnostic.exception], 3⟩) :=
    step?_areturn isConstructed_exception
  have hrun := endsIn_construction hrefs (Nat.le_refl 3) (endsIn_of_ended hreturn)
  rw [start, Frame.enter, GeneratedBody.payload, GeneratedBody.instructions, assemble_append]
  exact hrun

/-- What the helper returns is thrown by the method that called it. -/
theorem endsIn_delegating {className : String} {helper : Member} {refs : RaiseRefs}
    (hreference : c.pool.methodRef index = .ok (className, Helper.name, Helper.descriptor))
    (howner : c.className = .ok className)
    (hfind : c.findMethod? Helper.name Helper.descriptor = some helper)
    (hstatic : helper.access.isStatic = true) (hbody : helper.hasBody c.pool = true)
    (hcode : helper.code c.pool = .ok (some (GeneratedBody.returningException refs).payload))
    (hrefs : refs.ResolveIn c.pool) (maxLocals : UInt16) (arguments : List Value) :
    (start heap (GeneratedBody.delegating index maxLocals).payload arguments).EndsIn c
      ⟨.threw heap.length, heap ++ [Diagnostic.exception], 1⟩ := by
  have hthrow : step? c ⟨heap ++ [Diagnostic.exception],
      ⟨(plain .athrow).toBytes ++ [], [.object heap.length], 1, 1, [], arguments⟩, []⟩ =
      some (.ended ⟨.threw heap.length, heap ++ [Diagnostic.exception], 1⟩) :=
    step?_athrow isConstructed_exception
  have hreturn : step? c ⟨heap ++ [Diagnostic.exception],
      ⟨(plain .areturn).toBytes ++ [], [.object heap.length], 3, 3, [], []⟩,
      [⟨(plain .athrow).toBytes ++ [], [], 0, 1, [], arguments⟩]⟩ = _ :=
    step?_areturn_to_caller isConstructed_exception (Nat.le_refl 1)
  -- the caller waits with an empty stack and its throw ahead
  have hhelper := endsIn_construction hrefs (Nat.le_refl 3)
    (endsIn_of_running hreturn (endsIn_of_ended hthrow))
  have hcall : step? c ⟨heap, ⟨(indexed .invokestatic index).toBytes ++
      ((plain .athrow).toBytes ++ []), [], 0, 1, [], arguments⟩, []⟩ = _ :=
    step?_invokestatic hreference howner hfind hstatic hbody hcode Helper.parse_descriptor
  rw [Frame.enter, GeneratedBody.payload, GeneratedBody.instructions, assemble_append] at hcall
  exact endsIn_of_running hcall hhelper

end Machine

end ClassStub
