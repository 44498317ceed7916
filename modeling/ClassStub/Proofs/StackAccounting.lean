import Mathlib.Order.MinMax
import ClassStub.Code.Buffer
import ClassStub.Proofs.Bodies
import ClassStub.Proofs.DescriptorGrammar

/-!
# How deep the stack gets

A code buffer counts the operand stack while instructions are appended. The count is compared with
a machine that knows nothing of buffers: it has a table of what each instruction takes from the
stack and puts there (`CodeBuffer.Call.Emits`), and runs through the instructions one after the
other (`CodeBuffer.depths`), up to the first that returns or throws (`CodeBuffer.upToEnd`).

A buffer may be driven in any way (`CodeBuffer.run`). A call of a method whose descriptor is not
understood appends nothing: it fails before the buffer is touched (`CodeBuffer.Call.on_of_refused`).
Behind the end of the code nothing is appended at all. Everything else has the effect that the table
says, once (`CodeBuffer.Call.on_of_emits`), although the operations of the buffer are built upon
each other. Hence the payload states the greatest depth that the machine reaches, provided that it
can be written in sixteen bits (`CodeBuffer.run_accounts`).

An instruction that takes more than there is leaves an empty stack. The table says that `dup` takes
one slot and puts two, which on an empty stack would make two slots out of none. There the machine
only adds the copy; as long as no `dup` meets an empty stack, it takes and puts what the table says
(`CodeBuffer.depths_eq_clampedDepths`).
-/

namespace ClassStub

open Instruction

namespace CodeBuffer

/-! ### Calls -/

/-- A call of one of the operations that append an instruction. -/
inductive Call where
  | plain (op : Opcode)
  | indexed (op : Opcode) (index : UInt16)
  | load (index : UInt16)
  | invoke (op : Opcode) (method : UInt16) (descriptor : String)
  deriving DecidableEq

/-- The buffer after a call, and the error that the call returned. -/
def Call.on (buffer : CodeBuffer) : Call → CodeBuffer × Option DescriptorError
  | plain op => (buffer.emit op, none)
  | indexed op index => (buffer.emitIndexed op index, none)
  | load index => (buffer.emitLoad index, none)
  | invoke op method descriptor =>
    match emitInvoke op method descriptor buffer with
    | .ok _ after => (after, none)
    | .error error after => (after, some error)

/-- The buffer after some calls. -/
def run (buffer : CodeBuffer) (calls : List Call) : CodeBuffer :=
  calls.foldl (fun buffer call => (call.on buffer).1) buffer

/-- The call appends an instruction of the kind that it is for. -/
def Call.IsListed : Call → Prop
  | plain op => op.operandLength? = some 0
  | indexed op _ => op = .new ∨ op = .ldcW
  | load _ => True
  | invoke op _ _ => op = .invokevirtual ∨ op = .invokespecial ∨ op = .invokestatic

/-! ### The machine -/

/-- An instruction with the slots that it takes from the operand stack, and those that it puts
there. -/
structure Effect where
  instruction : Instruction
  takes : Nat
  puts : Nat
  deriving DecidableEq

/-- The instructions without operands, each with what it takes and what it puts. -/
def plainEffects : List (Opcode × Nat × Nat) :=
  [(.nop, 0, 0), (.aconstNull, 0, 1), (.dup, 1, 2), (.ireturn, 1, 0), (.lreturn, 2, 0),
    (.freturn, 1, 0), (.dreturn, 2, 0), (.areturn, 1, 0), (.returnVoid, 0, 0), (.athrow, 1, 0)]

/-- The instruction that a call stands for, with its effect. A method takes its arguments, and
unless it is static its receiver, and puts its result. -/
inductive Call.Emits : Call → Effect → Prop
  | plain {op : Opcode} {takes puts : Nat} (hmem : (op, takes, puts) ∈ plainEffects) :
      Emits (.plain op) ⟨.plain op, takes, puts⟩
  | indexed {op : Opcode} {index : UInt16} (hop : op = .new ∨ op = .ldcW) :
      Emits (.indexed op index) ⟨.indexed op index, 0, 1⟩
  | load {index : UInt16} : Emits (.load index) ⟨.load index, 0, 1⟩
  | static {method : UInt16} {descriptor : String} {slots width : Nat}
      (hslots : HasSlots descriptor slots width) :
      Emits (.invoke .invokestatic method descriptor)
        ⟨.indexed .invokestatic method, slots, width⟩
  | receiver {op : Opcode} {method : UInt16} {descriptor : String} {slots width : Nat}
      (hop : op = .invokevirtual ∨ op = .invokespecial)
      (hslots : HasSlots descriptor slots width) :
      Emits (.invoke op method descriptor) ⟨.indexed op method, slots + 1, width⟩

/-- The instructions that some calls stand for. A call of a method without a proper descriptor
stands for none. -/
inductive Executes : List Call → List Effect → Prop
  | nil : Executes [] []
  | emits {call : Call} {calls : List Call} {effect : Effect} {effects : List Effect}
      (hemits : call.Emits effect) (hrest : Executes calls effects) :
      Executes (call :: calls) (effect :: effects)
  | refused {op : Opcode} {method : UInt16} {descriptor : String} {calls : List Call}
      {effects : List Effect} (hrefused : ¬∃ slots width, HasSlots descriptor slots width)
      (hrest : Executes calls effects) :
      Executes (.invoke op method descriptor :: calls) effects

/-- The instruction returns or throws. -/
def Effect.endsCode (effect : Effect) : Bool := effect.instruction.opcode.isTerminal

/-- The instructions up to the first that returns or throws, and this one too. -/
def upToEnd : List Effect → List Effect
  | [] => []
  | effect :: effects => if effect.endsCode then [effect] else effect :: upToEnd effects

/-- The depth after an instruction. What is taken from an empty stack is not missed; the copy that
`dup` makes is added to what is there. -/
def Effect.after (effect : Effect) (depth : Nat) : Nat :=
  if effect.instruction.opcode = .dup then depth + 1 else depth - effect.takes + effect.puts

/-- The depths of the stack before, between and after some instructions. -/
def depths (depth : Nat) : List Effect → List Nat
  | [] => [depth]
  | effect :: effects => depth :: depths (effect.after depth) effects

/-- The depths of the stack where `dup`, too, takes and puts what the table says. -/
def clampedDepths (depth : Nat) : List Effect → List Nat
  | [] => [depth]
  | effect :: effects => depth :: clampedDepths (depth - effect.takes + effect.puts) effects

/-- No `dup` meets an empty stack. -/
def FindsCopied (depth : Nat) : List Effect → Prop
  | [] => True
  | effect :: effects =>
    (effect.instruction.opcode = .dup → 0 < depth) ∧
      FindsCopied (depth - effect.takes + effect.puts) effects

/-! ### One call -/

/-- The count after an instruction with some effect. -/
def depthAfter (depth : StackDepth) (effect : Effect) : StackDepth :=
  ⟨effect.after depth.current, max depth.peak (effect.after depth.current)⟩

variable {code : Bytes} {maxLocals : UInt16} {depth : StackDepth} {call : Call} {effect : Effect}
  {calls : List Call} {effects : List Effect} {buffer : CodeBuffer}

private theorem exists_mem_plainEffects {op : Opcode} (h : op.operandLength? = some 0) :
    ∃ takes puts, (op, takes, puts) ∈ plainEffects := by
  obtain ⟨code⟩ := op
  rw [Opcode.operandLength?, Opcode.info?] at h
  dsimp only at h
  split at h <;> simp at h <;>
    simp [plainEffects, Opcode.nop, Opcode.aconstNull, Opcode.dup, Opcode.ireturn, Opcode.lreturn,
      Opcode.freturn, Opcode.dreturn, Opcode.areturn, Opcode.returnVoid, Opcode.athrow]

private theorem opcode_load_ne_dup (index : UInt16) : (Instruction.load index).opcode ≠ .dup := by
  rw [Instruction.load]
  split
  · exact (by decide : Opcode.ldc ≠ .dup)
  · exact (by decide : Opcode.ldcW ≠ .dup)

/-- An instruction other than `dup` is counted by popping and pushing. -/
private theorem depthAfter_of_ne_dup (hop : effect.instruction.opcode ≠ .dup) (depth : StackDepth) :
    depthAfter depth effect = (depth.pop effect.takes).push effect.puts := by
  rw [depthAfter, Effect.after, if_neg hop]
  rfl

/-- Nothing new is reached by taking slots only. -/
private theorem pop_push_zero (hdepth : depth.current ≤ depth.peak) (width : Nat) :
    (depth.pop width).push 0 = depth.pop width :=
  congrArg (StackDepth.mk (depth.current - width))
    (max_eq_left ((Nat.sub_le _ _).trans hdepth))

/-- Instructions without operands are counted as in the table. -/
private theorem afterPlain_eq {op : Opcode} {takes puts : Nat}
    (hmem : (op, takes, puts) ∈ plainEffects) (hdepth : depth.current ≤ depth.peak) :
    depth.afterPlain op = depthAfter depth ⟨.plain op, takes, puts⟩ := by
  by_cases hdup : op = .dup
  · subst hdup
    rfl
  · rw [depthAfter_of_ne_dup hdup]
    simp only [plainEffects, List.mem_cons, Prod.mk.injEq, List.not_mem_nil, or_false] at hmem
    rcases hmem with ⟨rfl, rfl, rfl⟩ | ⟨rfl, rfl, rfl⟩ | ⟨rfl, rfl, rfl⟩ | ⟨rfl, rfl, rfl⟩ |
      ⟨rfl, rfl, rfl⟩ | ⟨rfl, rfl, rfl⟩ | ⟨rfl, rfl, rfl⟩ | ⟨rfl, rfl, rfl⟩ | ⟨rfl, rfl, rfl⟩ |
      ⟨rfl, rfl, rfl⟩ <;>
    first
    | exact absurd rfl hdup
    | rfl
    | rw [pop_push_zero hdepth]
      rfl

/-- Each call has the effect of its instruction, once. -/
theorem Call.on_of_emits (hemits : call.Emits effect) (hdepth : depth.current ≤ depth.peak) :
    call.on ⟨code, maxLocals, depth, true⟩ =
      (⟨code ++ effect.instruction.toBytes, maxLocals, depthAfter depth effect,
        !effect.endsCode⟩, none) := by
  cases hemits with
  | plain hmem =>
    rw [Call.on, emit_eq, afterPlain_eq hmem hdepth]
    rfl
  | indexed hop =>
    rw [Call.on, emitIndexed_eq, if_pos hop]
    rcases hop with rfl | rfl <;> rfl
  | @load index =>
    rw [Call.on, emitLoad_eq, depthAfter_of_ne_dup (opcode_load_ne_dup index), Effect.endsCode,
      Instruction.load]
    split <;> rfl
  | static hslots =>
    obtain ⟨parsed, hparse, rfl, rfl⟩ := hasSlots_iff_exists_parse.1 hslots
    rw [Call.on, emitInvoke_eq _ _ _ _ (.inl rfl) _ hparse]
    rfl
  | receiver hop hslots =>
    obtain ⟨parsed, hparse, rfl, rfl⟩ := hasSlots_iff_exists_parse.1 hslots
    rw [Call.on, emitInvoke_eq _ _ _ _ (.inr hop.symm) _ hparse]
    rcases hop with rfl | rfl <;> rfl

/-- A call of a method whose descriptor is refused returns the error. It has left the buffer as it
was. -/
theorem Call.on_of_refused {op : Opcode} {method : UInt16} {descriptor : String}
    (halive : buffer.alive = true) (hrefused : ¬∃ slots width, HasSlots descriptor slots width) :
    (invoke op method descriptor).on buffer =
      (buffer, some (.invalidMethodDescriptor descriptor)) := by
  have hparameters : parameterSlots descriptor = .error (.invalidMethodDescriptor descriptor) := by
    rw [parameterSlots, not_exists_hasSlots_iff.1 hrefused]
    rfl
  -- the descriptor is looked at before anything is appended
  have hinvoke : emitInvoke op method descriptor buffer =
      .error (.invalidMethodDescriptor descriptor) buffer := by
    rw [emitInvoke, bind_run_of_ok (get_run buffer), if_pos halive, hparameters]
    rfl
  rw [Call.on, hinvoke]

/-- Nothing is appended behind the end of the code. -/
private theorem Call.on_of_ended (hended : buffer.alive = false) (call : Call) :
    call.on buffer = (buffer, none) := by
  have hnot : ¬ buffer.alive = true := by
    rw [hended]
    exact Bool.false_ne_true
  cases call with
  | plain op => rw [Call.on, emit, if_neg hnot]
  | indexed op index => rw [Call.on, emitIndexed, if_neg hnot]
  | load index => rw [Call.on, emitLoad, if_neg hnot]
  | invoke op method descriptor =>
    have hinvoke : emitInvoke op method descriptor buffer = .ok () buffer := by
      rw [emitInvoke, bind_run_of_ok (get_run buffer), if_neg hnot]
      rfl
    rw [Call.on, hinvoke]

/-! ### Many calls -/

/-- Calls are made one after another. -/
theorem run_cons (buffer : CodeBuffer) (call : Call) (calls : List Call) :
    buffer.run (call :: calls) = (call.on buffer).1.run calls := rfl

/-- After the end of the code no call has an effect. -/
theorem run_of_ended (hended : buffer.alive = false) (calls : List Call) :
    buffer.run calls = buffer := by
  induction calls with
  | nil => rfl
  | cons call calls ih => rw [run_cons, Call.on_of_ended hended, ih]

/-- Listed calls stand for instructions. -/
private theorem exists_executes (hlisted : ∀ call ∈ calls, call.IsListed) :
    ∃ effects, Executes calls effects := by
  induction calls with
  | nil => exact ⟨[], .nil⟩
  | cons call calls ih =>
    rw [List.forall_mem_cons] at hlisted
    obtain ⟨hcall, hlisted⟩ := hlisted
    obtain ⟨effects, hrest⟩ := ih hlisted
    cases call with
    | plain op =>
      obtain ⟨takes, puts, hmem⟩ := exists_mem_plainEffects hcall
      exact ⟨_, .emits (.plain hmem) hrest⟩
    | indexed op index => exact ⟨_, .emits (.indexed hcall) hrest⟩
    | load index => exact ⟨_, .emits .load hrest⟩
    | invoke op method descriptor =>
      by_cases hslots : ∃ slots width, HasSlots descriptor slots width
      · obtain ⟨slots, width, hslots⟩ := hslots
        obtain hvirtual | hspecial | rfl := hcall
        · exact ⟨_, .emits (.receiver (.inl hvirtual) hslots) hrest⟩
        · exact ⟨_, .emits (.receiver (.inr hspecial) hslots) hrest⟩
        · exact ⟨_, .emits (.static hslots) hrest⟩
      · exact ⟨effects, .refused hslots hrest⟩

private theorem current_le_peak_after (depth : StackDepth) (effect : Effect) :
    (depthAfter depth effect).current ≤ (depthAfter depth effect).peak :=
  le_max_right _ _

/-- The buffer runs with the machine, up to the end of the code. -/
private theorem run_of_executes (hexecutes : Executes calls effects)
    (hdepth : depth.current ≤ depth.peak) :
    run ⟨code, maxLocals, depth, true⟩ calls =
      ⟨code ++ assemble ((upToEnd effects).map Effect.instruction), maxLocals,
        (upToEnd effects).foldl depthAfter depth, !effects.any Effect.endsCode⟩ := by
  induction hexecutes generalizing code depth with
  | nil => simp [run, upToEnd]
  | @emits call calls effect effects hemits hrest ih =>
    rw [run_cons, Call.on_of_emits hemits hdepth, upToEnd, List.any_cons]
    cases hends : effect.endsCode with
    | true => simp [run_of_ended]
    | false => simp [ih (current_le_peak_after depth effect)]
  | refused hrefused hrest ih =>
    rw [run_cons, Call.on_of_refused rfl hrefused]
    exact ih hdepth

/-! ### Depths -/

private theorem start_mem_depths (start : Nat) (effects : List Effect) :
    start ∈ depths start effects := by
  cases effects <;> exact List.mem_cons_self

/-- The peak is the largest of the depths, or what it was before. -/
private theorem peak_foldl (hdepth : depth.current ≤ depth.peak) (effects : List Effect) :
    ((effects.foldl depthAfter depth).peak = depth.peak ∨
        (effects.foldl depthAfter depth).peak ∈ depths depth.current effects) ∧
      depth.peak ≤ (effects.foldl depthAfter depth).peak ∧
      ∀ reached ∈ depths depth.current effects,
        reached ≤ (effects.foldl depthAfter depth).peak := by
  induction effects generalizing depth with
  | nil => exact ⟨.inl rfl, le_rfl, by simpa [depths] using hdepth⟩
  | cons effect effects ih =>
    obtain ⟨hfound, hle, hreached⟩ := ih (current_le_peak_after depth effect)
    have hcurrent : (depthAfter depth effect).current = effect.after depth.current := rfl
    have hpeak : (depthAfter depth effect).peak =
      max depth.peak (effect.after depth.current) := rfl
    rw [hcurrent] at hfound hreached
    rw [hpeak] at hfound hle
    rw [List.foldl_cons, depths, List.mem_cons, List.forall_mem_cons]
    obtain ⟨hbefore, hnow⟩ := max_le_iff.1 hle
    refine ⟨?_, hbefore, hdepth.trans hbefore, hreached⟩
    obtain hsame | hmem := hfound
    · -- the old peak stays, or the new depth is the peak
      obtain hold | hnew := max_choice depth.peak (effect.after depth.current)
      · exact .inl (hsame.trans hold)
      · refine .inr (.inr ?_)
        rw [hsame, hnew]
        exact start_mem_depths _ _
    · exact .inr (.inr hmem)

private theorem Call.Emits.takes_puts_of_dup (hemits : call.Emits effect)
    (hdup : effect.instruction.opcode = .dup) : effect.takes = 1 ∧ effect.puts = 2 := by
  cases hemits with
  | @plain op takes puts hmem =>
    have hrows : ∀ row ∈ plainEffects, row.1 = .dup → row.2.1 = 1 ∧ row.2.2 = 2 := by decide
    exact hrows _ hmem hdup
  | indexed hop => rcases hop with rfl | rfl <;> cases hdup
  | @load index => exact absurd hdup (opcode_load_ne_dup index)
  | static => cases hdup
  | receiver hop => rcases hop with rfl | rfl <;> cases hdup

private theorem Executes.takes_puts_of_dup (hexecutes : Executes calls effects) :
    ∀ effect ∈ effects, effect.instruction.opcode = .dup → effect.takes = 1 ∧ effect.puts = 2 := by
  induction hexecutes with
  | nil => exact fun _ hmem => absurd hmem List.not_mem_nil
  | emits hemits _ ih => exact List.forall_mem_cons.2 ⟨hemits.takes_puts_of_dup, ih⟩
  | refused _ _ ih => exact ih

private theorem upToEnd_subset (effects : List Effect) : upToEnd effects ⊆ effects := by
  induction effects with
  | nil => exact List.Subset.refl []
  | cons effect effects ih =>
    rw [upToEnd]
    split
    · exact List.cons_subset_cons effect (List.nil_subset effects)
    · exact List.cons_subset_cons effect ih

/-- While there is something to copy, `dup` takes one slot and puts two. -/
theorem depths_eq_clampedDepths {start : Nat}
    (hdups : ∀ effect ∈ effects, effect.instruction.opcode = .dup →
      effect.takes = 1 ∧ effect.puts = 2)
    (h : FindsCopied start effects) : depths start effects = clampedDepths start effects := by
  induction effects generalizing start with
  | nil => rfl
  | cons effect effects ih =>
    obtain ⟨hdup, hdups⟩ := List.forall_mem_cons.1 hdups
    obtain ⟨hfinds, hrest⟩ := h
    have hafter : effect.after start = start - effect.takes + effect.puts := by
      rw [Effect.after]
      split
      case isTrue hop =>
        obtain ⟨htakes, hputs⟩ := hdup hop
        have hpos := hfinds hop
        omega
      case isFalse => rfl
    rw [depths, clampedDepths, hafter, ih hdups hrest]

/-! ### A buffer and the machine -/

/-- The buffer holds the instructions up to the end of the code, and says truly how deep the stack
gets when they are executed and whether the code has ended. -/
structure Accounts (maxLocals : UInt16) (effects : List Effect) (buffer : CodeBuffer) : Prop where
  code : buffer.code = assemble ((upToEnd effects).map Effect.instruction)
  maxLocals : buffer.toPayload.maxLocals = maxLocals
  alive : buffer.alive = false ↔ ∃ effect ∈ effects, effect.endsCode = true
  maxStack : (∀ reached ∈ depths 0 (upToEnd effects), reached < 65536) →
    buffer.toPayload.maxStack.toNat ∈ depths 0 (upToEnd effects) ∧
      ∀ reached ∈ depths 0 (upToEnd effects), reached ≤ buffer.toPayload.maxStack.toNat

/-- **The buffer counts the stack as the machine does**, whatever it is called with. If no `dup`
meets an empty stack, the machine takes and puts what the table says. Behind the end of the code no
call changes anything, and a call of a method whose descriptor is refused returns the error and
changes nothing. -/
theorem run_accounts (maxLocals : UInt16) (hlisted : ∀ call ∈ calls, call.IsListed) :
    (∃ effects, Executes calls effects) ∧
    (∀ effects, Executes calls effects →
      Accounts maxLocals effects ((new maxLocals).run calls) ∧
        (FindsCopied 0 (upToEnd effects) →
          depths 0 (upToEnd effects) = clampedDepths 0 (upToEnd effects))) ∧
    (((new maxLocals).run calls).alive = false → ∀ call : Call,
      call.on ((new maxLocals).run calls) = ((new maxLocals).run calls, none)) ∧
    (((new maxLocals).run calls).alive = true → ∀ op method descriptor,
      (¬∃ slots width, HasSlots descriptor slots width) →
        (Call.invoke op method descriptor).on ((new maxLocals).run calls) =
          ((new maxLocals).run calls, some (.invalidMethodDescriptor descriptor))) := by
  refine ⟨exists_executes hlisted, fun effects hexecutes => ⟨?_, depths_eq_clampedDepths
    fun effect hmem => hexecutes.takes_puts_of_dup effect (upToEnd_subset effects hmem)⟩,
    Call.on_of_ended, fun halive op method descriptor => Call.on_of_refused halive⟩
  have hstart : (⟨0, 0⟩ : StackDepth).current ≤ (⟨0, 0⟩ : StackDepth).peak := le_rfl
  rw [new, run_of_executes hexecutes hstart]
  refine ⟨rfl, rfl, by simp, fun hbounded => ?_⟩
  obtain ⟨hfound, -, hlargest⟩ := peak_foldl hstart (upToEnd effects)
  have hmem : ((upToEnd effects).foldl depthAfter ⟨0, 0⟩).peak ∈ depths 0 (upToEnd effects) := by
    obtain hzero | hmem := hfound
    · exact hzero ▸ start_mem_depths 0 _
    · exact hmem
  -- the greatest depth can be written in sixteen bits
  rw [toPayload, UInt16.toNat_ofNat_of_lt' (hbounded _ hmem)]
  exact ⟨hmem, hlargest⟩

/-- Calls with a descriptor that is refused, and behind the end of the code. -/
def mixedCalls : List Call :=
  [.indexed .new 7, .plain .dup, .load 300, .invoke .invokespecial 11 "(Ljava/lang/String;)V",
    .invoke .invokestatic 5 "oops", .plain .athrow, .plain .aconstNull]

/-- The instructions that `mixedCalls` stand for. -/
def mixedEffects : List Effect :=
  [⟨.indexed .new 7, 0, 1⟩, ⟨.plain .dup, 1, 2⟩, ⟨.load 300, 0, 1⟩,
    ⟨.indexed .invokespecial 11, 2, 0⟩, ⟨.plain .athrow, 1, 0⟩, ⟨.plain .aconstNull, 0, 1⟩]

/-- A text that is no descriptor. -/
theorem not_hasSlots_oops : ¬∃ slots width, HasSlots "oops" slots width :=
  not_exists_hasSlots_iff.2 (by cbv)

private theorem executes_mixedCalls : Executes mixedCalls mixedEffects := by
  have hslots : HasSlots "(Ljava/lang/String;)V" 1 0 :=
    hasSlots_iff_exists_parse.2 ⟨_, Diagnostic.parse_constructorDescriptor, rfl, rfl⟩
  exact .emits (.indexed (.inl rfl)) <| .emits (.plain (by decide)) <| .emits .load <|
    .emits (.receiver (.inr rfl) hslots) <| .refused not_hasSlots_oops <|
      .emits (.plain (by decide)) <| .emits (.plain (by decide)) .nil

/-- The stack of `mixedCalls` gets three deep. -/
theorem run_accounts_mixedCalls :
    (∀ call ∈ mixedCalls, call.IsListed) ∧
    Accounts 2 mixedEffects ((new 2).run mixedCalls) ∧
    ((new 2).run mixedCalls).toPayload.maxStack.toNat = 3 := by
  have hlisted : ∀ call ∈ mixedCalls, call.IsListed := by
    simp only [mixedCalls, List.forall_mem_cons, List.not_mem_nil, IsEmpty.forall_iff,
      implies_true, Call.IsListed, true_or, or_true, and_true, true_and]
    decide
  have haccounts := ((run_accounts 2 hlisted).2.1 mixedEffects executes_mixedCalls).1
  have hdepths : depths 0 (upToEnd mixedEffects) = [0, 1, 2, 3, 1, 0] := by decide
  obtain ⟨hmem, hlargest⟩ := haccounts.maxStack (by rw [hdepths]; decide)
  rw [hdepths] at hmem hlargest
  have hthree := hlargest 3 (by decide)
  refine ⟨hlisted, haccounts, ?_⟩
  simp only [List.mem_cons, List.not_mem_nil, or_false] at hmem
  omega

end CodeBuffer

end ClassStub
