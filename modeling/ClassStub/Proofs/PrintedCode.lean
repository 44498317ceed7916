import Mathlib.Data.List.Nodup
import Std.Data.String.ToNat
import ClassStub.Proofs.CodeSplits
import ClassStub.Proofs.StackAccounting

/-!
# What a listing of code tells

`disassemble` prints one line for each instruction of the split of a piece of code, and one more
that counts the rest if there is one (`Disassembly.Prints`). Nothing is lost in this: the lines of
an instruction tell its opcode, because no two known opcodes share a mnemonic and a mnemonic ends at
the first blank, and the opcode tells how many bytes the printed number had
(`Instruction.eq_of_printsAs`). Only the bytes of a rest cannot be told from their number.

A code buffer holds whole instructions, those that its calls stand for up to the first that returns
or throws (`CodeBuffer.code_run_of_records`). So its code has no rest, and its listing shows just
these instructions. The buffer and the table of opcodes say separately how long an instruction is;
that they agree is `CodeBuffer.Call.Writes.isComplete`.
-/

namespace ClassStub

/-! ### Mnemonics -/

namespace Opcode

/-- The opcodes of which something is known. -/
def known : List Opcode :=
  [nop, aconstNull, ldc, ldcW, dup, ireturn, lreturn, freturn, dreturn, areturn, returnVoid,
    invokevirtual, invokespecial, invokestatic, new, athrow]

private theorem mem_known {op : Opcode} {length : Nat} (h : op.operandLength? = some length) :
    op ∈ known := by
  obtain ⟨code⟩ := op
  rw [operandLength?, info?] at h
  dsimp only at h
  split at h <;> simp at h <;>
    simp [known, nop, aconstNull, ldc, ldcW, dup, ireturn, lreturn, freturn, dreturn, areturn,
      returnVoid, invokevirtual, invokespecial, invokestatic, new, athrow]

/-- A known opcode can be told from its mnemonic. -/
private theorem eq_of_mnemonic_eq {first second : Opcode} (hfirst : first ∈ known)
    (hsecond : second ∈ known) (h : first.mnemonic = second.mnemonic) : first = second := by
  have hnodup : (known.map mnemonic).Nodup := by decide
  exact List.inj_on_of_nodup_map hnodup hfirst hsecond h

/-- No mnemonic of a known opcode has a blank in it, or the character that opens the line for what
is left over. -/
private theorem not_mem_mnemonic {op : Opcode} (h : op ∈ known) :
    ' ' ∉ op.mnemonic.toList ∧ '<' ∉ op.mnemonic.toList := by
  have hall : ∀ op ∈ known, ' ' ∉ op.mnemonic.toList ∧ '<' ∉ op.mnemonic.toList := by decide
  exact hall op h

end Opcode

/-! ### Lines -/

namespace Instruction

/-- The line for an instruction: its mnemonic, and if it has an operand the number that this is when
it is read as one, the most significant byte first. -/
inductive PrintsAs : Instruction → String → Prop
  | plain (op : Opcode) : PrintsAs ⟨op, []⟩ op.mnemonic
  | operand (op : Opcode) {width n : Nat} (hwidth : 0 < width) (hn : n < 256 ^ width) :
      PrintsAs ⟨op, bigEndian width n⟩ (op.mnemonic ++ " #" ++ toString n)

private theorem printsAs_toLine (instruction : Instruction) :
    instruction.PrintsAs instruction.toLine := by
  obtain ⟨op, operand⟩ := instruction
  cases operand with
  | nil => exact .plain op
  | cons byte bytes =>
    have hwidth : 0 < (byte :: bytes).length := Nat.succ_pos _
    have hprints := PrintsAs.operand op hwidth (ofBigEndian_lt (byte :: bytes))
    rwa [bigEndian_ofBigEndian] at hprints

/-- What stands before the first blank of a line. -/
def firstWord (line : String) : List Char := line.toList.takeWhile (· != ' ')

variable {instruction other : Instruction} {line : String}

private theorem firstWord_of_printsAs (hcomplete : instruction.IsComplete)
    (h : instruction.PrintsAs line) : firstWord line = instruction.opcode.mnemonic.toList := by
  have hblank := (Opcode.not_mem_mnemonic (Opcode.mem_known hcomplete)).1
  have hword : ∀ c ∈ instruction.opcode.mnemonic.toList, (c != ' ') = true := by
    intro c hmem
    rw [bne_iff_ne]
    rintro rfl
    exact hblank hmem
  cases h with
  | plain op => exact List.takeWhile_eq_self_iff.2 hword
  | @operand op width n hwidth hn =>
    have hline : (op.mnemonic ++ " #" ++ toString n).toList =
        op.mnemonic.toList ++ ' ' :: '#' :: (toString n).toList := by
      simp
    rw [firstWord, hline, List.takeWhile_append_of_pos hword,
      List.takeWhile_cons_of_neg (by decide), List.append_nil]

/-- A complete known instruction can be told from its line. -/
theorem eq_of_printsAs (hinstruction : instruction.IsComplete) (hother : other.IsComplete)
    (h : instruction.PrintsAs line) (h' : other.PrintsAs line) : instruction = other := by
  have hword := (firstWord_of_printsAs hinstruction h).symm.trans (firstWord_of_printsAs hother h')
  have hopcode : instruction.opcode = other.opcode :=
    Opcode.eq_of_mnemonic_eq (Opcode.mem_known hinstruction) (Opcode.mem_known hother)
      (String.toList_inj.1 hword)
  -- the operands are of one length, since the opcode decides it
  have hlength : instruction.operand.length = other.operand.length := by
    rw [IsComplete, hopcode, hother] at hinstruction
    exact (Option.some.inj hinstruction).symm
  cases h with
  | plain op =>
    obtain ⟨op', operand⟩ := other
    obtain rfl : op = op' := hopcode
    obtain rfl : operand = [] := List.eq_nil_of_length_eq_zero hlength.symm
    rfl
  | @operand op width n hwidth hn =>
    generalize hprinted : op.mnemonic ++ " #" ++ toString n = printed at h'
    cases h' with
    | plain op' =>
      rw [length_bigEndian] at hlength
      exact absurd hlength hwidth.ne'
    | @operand op' width' n' hwidth' hn' =>
      obtain rfl : op = op' := hopcode
      rw [length_bigEndian, length_bigEndian] at hlength
      have hnumber : n.repr = n'.repr := (String.append_right_inj _).1 hprinted
      rw [hlength, Nat.repr_inj.1 hnumber]

end Instruction

namespace Disassembly

open Instruction

/-- The line for a number of bytes at the end of the code that are no complete known
instructions. -/
def leftoverLine (count : Nat) : String := "<" ++ toString count ++ " bytes>"

/-- The lines for some instructions and a rest: one for each instruction, and one for the rest if it
has any bytes. -/
inductive Prints : List Instruction → Bytes → List String → Prop
  | nothing : Prints [] [] []
  | leftover {rest : Bytes} (hrest : rest ≠ []) : Prints [] rest [leftoverLine rest.length]
  | instruction {instruction : Instruction} {instructions : List Instruction} {rest : Bytes}
      {line : String} {lines : List String} (hline : instruction.PrintsAs line)
      (hlines : Prints instructions rest lines) :
      Prints (instruction :: instructions) rest (line :: lines)

private theorem prints_lines (listing : Disassembly) :
    Prints listing.instructions listing.rest listing.lines := by
  obtain ⟨instructions, rest⟩ := listing
  induction instructions with
  | nil =>
    cases rest with
    | nil => exact .nothing
    | cons byte bytes => exact .leftover (List.cons_ne_nil byte bytes)
  | cons instruction instructions ih => exact .instruction (printsAs_toLine instruction) ih

variable {instructions others : List Instruction} {rest rest' : Bytes} {lines : List String}

/-- The line for a rest is no line for a complete known instruction. -/
private theorem not_printsAs_leftoverLine {instruction : Instruction}
    (hcomplete : instruction.IsComplete) (count : Nat) :
    ¬ instruction.PrintsAs (leftoverLine count) := by
  intro h
  have hopens : '<' ∈ firstWord (leftoverLine count) := by
    have hline : (leftoverLine count).toList = '<' :: (toString count ++ " bytes>").toList := by
      simp [leftoverLine]
    rw [firstWord, hline, List.takeWhile_cons_of_pos (by decide)]
    exact List.mem_cons_self
  rw [firstWord_of_printsAs hcomplete h] at hopens
  exact (Opcode.not_mem_mnemonic (Opcode.mem_known hcomplete)).2 hopens

private theorem exists_leftoverLine_iff (h : Prints instructions rest lines)
    (hcomplete : ∀ instruction ∈ instructions, instruction.IsComplete) :
    (∃ count, leftoverLine count ∈ lines) ↔ rest ≠ [] := by
  induction h with
  | nothing => simp
  | leftover hrest => exact iff_of_true ⟨_, List.mem_singleton_self _⟩ hrest
  | instruction hline hlines ih =>
    obtain ⟨hfirst, hcomplete⟩ := List.forall_mem_cons.1 hcomplete
    rw [← ih hcomplete]
    refine exists_congr fun count => ⟨fun hmem => ?_, List.mem_cons_of_mem _⟩
    obtain rfl | hmem := List.mem_cons.1 hmem
    · exact absurd hline (not_printsAs_leftoverLine hfirst count)
    · exact hmem

/-- Instructions can be told from their lines. -/
private theorem eq_of_prints (h : Prints instructions rest lines) (h' : Prints others rest' lines)
    (hcomplete : ∀ instruction ∈ instructions, instruction.IsComplete)
    (hcomplete' : ∀ instruction ∈ others, instruction.IsComplete)
    (hwhole : ∀ count, leftoverLine count ∉ lines) : instructions = others := by
  induction h generalizing others with
  | nothing =>
    cases h'
    rfl
  | leftover => exact absurd (List.mem_singleton_self _) (hwhole _)
  | instruction hline hlines ih =>
    obtain ⟨hfirst, hcomplete⟩ := List.forall_mem_cons.1 hcomplete
    cases h' with
    | leftover => exact absurd List.mem_cons_self (hwhole _)
    | instruction hline' hlines' =>
      obtain ⟨hfirst', hcomplete'⟩ := List.forall_mem_cons.1 hcomplete'
      rw [eq_of_printsAs hfirst hfirst' hline hline', ih hlines' hcomplete hcomplete'
        fun count hmem => hwhole count (List.mem_cons_of_mem _ hmem)]

private theorem prints_disassemble (code : Bytes) :
    Prints (ofBytes code).instructions (ofBytes code).rest (disassemble code) :=
  prints_lines (ofBytes code)

private theorem isSplitOf_ofBytes (code : Bytes) :
    (ofBytes code).IsSplitOf code :=
  isSplitOf_iff.2 rfl

/-- The line for a rest is there exactly if the reader left one. -/
private theorem exists_leftoverLine_disassemble_iff (code : Bytes) :
    (∃ count, leftoverLine count ∈ disassemble code) ↔ (ofBytes code).rest ≠ [] :=
  exists_leftoverLine_iff (prints_disassemble code) (isSplitOf_ofBytes code).complete

/-- Code without a rest can be told from its listing. -/
private theorem eq_of_disassemble_eq {first second : Bytes}
    (h : disassemble first = disassemble second)
    (hwhole : ∀ count, leftoverLine count ∉ disassemble first) : first = second := by
  have hrest : (ofBytes first).rest = [] := by
    rw [← not_ne_iff, ← exists_leftoverLine_disassemble_iff, not_exists]
    exact hwhole
  have hrest' : (ofBytes second).rest = [] := by
    rw [← not_ne_iff, ← exists_leftoverLine_disassemble_iff, not_exists, ← h]
    exact hwhole
  have hprints := prints_disassemble second
  rw [← h] at hprints
  have hinstructions := eq_of_prints (prints_disassemble first) hprints
    (isSplitOf_ofBytes first).complete (isSplitOf_ofBytes second).complete hwhole
  rw [← (isSplitOf_ofBytes first).toBytes, ← (isSplitOf_ofBytes second).toBytes, toBytes, toBytes,
    hinstructions, hrest, hrest']

end Disassembly

/-! ### Code buffers -/

namespace CodeBuffer

open Instruction

/-- The operation is called with an opcode that it is for: one without operands, one with two
operand bytes, or one that calls a method. -/
def Call.SuitsOpcode : Call → Prop
  | plain op => op.operandLength? = some 0
  | indexed op _ => op.operandLength? = some 2
  | load _ => True
  | invoke op _ _ => op = .invokevirtual ∨ op = .invokespecial ∨ op = .invokestatic

/-- The instruction that a call writes. -/
inductive Call.Writes : Call → Instruction → Prop
  | plain {op : Opcode} (hop : op.operandLength? = some 0) : Writes (.plain op) (.plain op)
  | indexed {op : Opcode} {index : UInt16} (hop : op.operandLength? = some 2) :
      Writes (.indexed op index) (.indexed op index)
  | load {index : UInt16} : Writes (.load index) (.load index)
  | invoke {op : Opcode} {method : UInt16} {descriptor : String} {slots width : Nat}
      (hop : op = .invokevirtual ∨ op = .invokespecial ∨ op = .invokestatic)
      (hslots : HasSlots descriptor slots width) :
      Writes (.invoke op method descriptor) (.indexed op method)

/-- The instructions that some calls write. A call of a method without a proper descriptor writes
none. -/
inductive Records : List Call → List Instruction → Prop
  | nil : Records [] []
  | writes {call : Call} {calls : List Call} {instruction : Instruction}
      {instructions : List Instruction} (hwrites : call.Writes instruction)
      (hrest : Records calls instructions) : Records (call :: calls) (instruction :: instructions)
  | refused {op : Opcode} {method : UInt16} {descriptor : String} {calls : List Call}
      {instructions : List Instruction} (hrefused : ¬∃ slots width, HasSlots descriptor slots width)
      (hrest : Records calls instructions) :
      Records (.invoke op method descriptor :: calls) instructions

/-- The instructions up to the first that returns or throws, and this one too. -/
def upToTerminal : List Instruction → List Instruction
  | [] => []
  | instruction :: instructions =>
    if instruction.opcode.isTerminal then [instruction]
    else instruction :: upToTerminal instructions

variable {call : Call} {calls : List Call} {instruction : Instruction}
  {instructions : List Instruction}

private theorem exists_records (hsuits : ∀ call ∈ calls, call.SuitsOpcode) :
    ∃ instructions, Records calls instructions := by
  induction calls with
  | nil => exact ⟨[], .nil⟩
  | cons call calls ih =>
    obtain ⟨hcall, hsuits⟩ := List.forall_mem_cons.1 hsuits
    obtain ⟨instructions, hrest⟩ := ih hsuits
    cases call with
    | plain op => exact ⟨_, .writes (.plain hcall) hrest⟩
    | indexed op index => exact ⟨_, .writes (.indexed hcall) hrest⟩
    | load index => exact ⟨_, .writes .load hrest⟩
    | invoke op method descriptor =>
      by_cases hslots : ∃ slots width, HasSlots descriptor slots width
      · obtain ⟨slots, width, hslots⟩ := hslots
        exact ⟨_, .writes (.invoke hcall hslots) hrest⟩
      · exact ⟨_, .refused hslots hrest⟩

/-- The buffer appends the operand bytes that the opcode asks for. -/
theorem Call.Writes.isComplete (h : call.Writes instruction) : instruction.IsComplete := by
  cases h with
  | plain hop => exact hop
  | indexed hop =>
    rw [Instruction.IsComplete, Instruction.indexed, length_bigEndian]
    exact hop
  | load => exact isComplete_load _
  | invoke hop hslots => rcases hop with rfl | rfl | rfl <;> rfl

/-- A call appends its instruction, and ends the code if the instruction does. -/
private theorem Call.on_of_writes (h : call.Writes instruction) (code : Bytes) (maxLocals : UInt16)
    (depth : StackDepth) : ∃ after,
      (call.on ⟨code, maxLocals, depth, true⟩).1 =
        ⟨code ++ instruction.toBytes, maxLocals, after, !instruction.opcode.isTerminal⟩ := by
  cases h with
  | plain hop => exact ⟨_, rfl⟩
  | indexed hop =>
    rw [Call.on, emitIndexed_eq]
    exact ⟨_, rfl⟩
  | @load index =>
    have hloads : (Instruction.load index).opcode.isTerminal = false := by
      rw [Instruction.load]
      split <;> rfl
    rw [Call.on, emitLoad_eq, hloads]
    exact ⟨_, rfl⟩
  | @invoke op method descriptor slots width hop hslots =>
    have hop' : op = .invokestatic ∨ op = .invokespecial ∨ op = .invokevirtual := by
      rw [or_comm, or_comm (a := op = .invokespecial), or_assoc]
      exact hop
    obtain ⟨parsed, hparse, -, -⟩ := hasSlots_iff_exists_parse.1 hslots
    have hcalls : (Instruction.indexed op method).opcode.isTerminal = false := by
      rcases hop with rfl | rfl | rfl <;> rfl
    rw [Call.on, emitInvoke_eq _ _ _ _ hop' _ hparse, hcalls]
    exact ⟨_, rfl⟩

/-- A buffer holds what its calls write, up to the end of the code. -/
theorem code_run_of_records (h : Records calls instructions) (code : Bytes) (maxLocals : UInt16)
    (depth : StackDepth) : (run ⟨code, maxLocals, depth, true⟩ calls).code =
      code ++ assemble (upToTerminal instructions) := by
  induction h generalizing code depth with
  | nil => exact (List.append_nil code).symm
  | @writes call calls instruction instructions hwrites hrest ih =>
    obtain ⟨after, hon⟩ := Call.on_of_writes hwrites code maxLocals depth
    rw [run_cons, hon, upToTerminal]
    cases hends : instruction.opcode.isTerminal with
    | true => simp [run_of_ended]
    | false => simp [ih]
  | refused hrefused hrest ih =>
    rw [run_cons, Call.on_of_refused rfl hrefused]
    exact ih code depth

private theorem isComplete_of_records (h : Records calls instructions) :
    ∀ instruction ∈ upToTerminal instructions, instruction.IsComplete := by
  induction h with
  | nil => exact fun _ hmem => absurd hmem List.not_mem_nil
  | writes hwrites hrest ih =>
    rw [upToTerminal]
    split
    · exact List.forall_mem_singleton.2 hwrites.isComplete
    · exact List.forall_mem_cons.2 ⟨hwrites.isComplete, ih⟩
  | refused hrefused hrest ih => exact ih

/-- The code of a buffer has no rest. -/
private theorem isSplitOf_of_records (h : Records calls instructions) (maxLocals : UInt16) :
    Disassembly.IsSplitOf ⟨upToTerminal instructions, []⟩ ((new maxLocals).run calls).code where
  toBytes := by
    rw [new, code_run_of_records h, Disassembly.toBytes, List.append_nil]
    rfl
  complete := isComplete_of_records h
  rest := .empty

end CodeBuffer

namespace Disassembly

open CodeBuffer (Call Records upToTerminal)

/-- **A listing accounts for every byte and shows what was written.** A piece of code is cut into
instructions in one way only, and its lines are those of the instructions, and one that counts the
rest if there is a rest. The lines for the code of a buffer, whatever its operations are called
with, are those of the instructions that were written up to the end of the code. Code without a
rest can be told from its lines. -/
theorem disassemble_faithful :
    (∀ code : Bytes, (∃! listing : Disassembly, listing.IsSplitOf code) ∧
      ∀ listing : Disassembly, listing.IsSplitOf code →
        Prints listing.instructions listing.rest (disassemble code) ∧
          ((∃ count, leftoverLine count ∈ disassemble code) ↔ listing.rest ≠ [])) ∧
    (∀ (maxLocals : UInt16) (calls : List Call), (∀ call ∈ calls, call.SuitsOpcode) →
      (∃ instructions, Records calls instructions) ∧
        ∀ instructions, Records calls instructions →
          IsSplitOf ⟨upToTerminal instructions, []⟩ ((CodeBuffer.new maxLocals).run calls).code ∧
            Prints (upToTerminal instructions) []
              (disassemble ((CodeBuffer.new maxLocals).run calls).code)) ∧
    ∀ first second : Bytes, disassemble first = disassemble second →
      (∀ count, leftoverLine count ∉ disassemble first) → first = second := by
  -- every code has a split, and what is printed is printed from it
  have hlisting : ∀ (code : Bytes) (listing : Disassembly), listing.IsSplitOf code →
      Prints listing.instructions listing.rest (disassemble code) ∧
        ((∃ count, leftoverLine count ∈ disassemble code) ↔ listing.rest ≠ []) := by
    intro code listing hsplit
    obtain rfl := isSplitOf_iff.1 hsplit
    exact ⟨prints_disassemble code, exists_leftoverLine_disassemble_iff code⟩
  refine ⟨fun code => ⟨⟨ofBytes code, isSplitOf_ofBytes code, fun _ => isSplitOf_iff.1⟩,
    hlisting code⟩, fun maxLocals calls hsuits => ⟨CodeBuffer.exists_records hsuits,
      fun instructions hrecords => ?_⟩, fun first second => eq_of_disassemble_eq⟩
  have hsplit := CodeBuffer.isSplitOf_of_records hrecords maxLocals
  exact ⟨hsplit, (hlisting _ _ hsplit).1⟩

/-- Calls with an operand that looks like opcodes, loads of both forms, a descriptor that is refused
and an instruction behind the end of the code. -/
def drivingCalls : List Call :=
  [.indexed .invokevirtual 0x12bf, .load 255, .load 256, .invoke .invokestatic 5 "oops",
    .plain .areturn, .plain .dup]

/-- The instructions that `drivingCalls` write. -/
def drivenInstructions : List Instruction :=
  [.indexed .invokevirtual 0x12bf, .load 255, .load 256, .plain .areturn, .plain .dup]

private theorem records_drivingCalls : Records drivingCalls drivenInstructions :=
  .writes (.indexed rfl) <| .writes .load <| .writes .load <|
    .refused CodeBuffer.not_hasSlots_oops <| .writes (.plain rfl) <| .writes (.plain rfl) .nil

/-- The listing of the code that `drivingCalls` write, which no other code has. -/
theorem disassemble_faithful_drivingCalls :
    (∀ call ∈ drivingCalls, call.SuitsOpcode) ∧
    disassemble ((CodeBuffer.new 0).run drivingCalls).code =
      ["invokevirtual #4799", "ldc #255", "ldc_w #256", "areturn"] ∧
    ∀ code, disassemble code = ["invokevirtual #4799", "ldc #255", "ldc_w #256", "areturn"] →
      code = ((CodeBuffer.new 0).run drivingCalls).code := by
  have hsuits : ∀ call ∈ drivingCalls, call.SuitsOpcode := by
    simp only [drivingCalls, List.forall_mem_cons, List.not_mem_nil, IsEmpty.forall_iff,
      implies_true, Call.SuitsOpcode, or_true, and_true]
    decide
  obtain ⟨hsplits, hbuffers, htells⟩ := disassemble_faithful
  obtain ⟨hsplit, -⟩ := (hbuffers 0 drivingCalls hsuits).2 _ records_drivingCalls
  have hlines : disassemble ((CodeBuffer.new 0).run drivingCalls).code =
      ["invokevirtual #4799", "ldc #255", "ldc_w #256", "areturn"] := by
    rw [disassemble, ← isSplitOf_iff.1 hsplit]
    decide
  have hwhole := not_exists.1 (((hsplits _).2 _ hsplit).2.not_left.2 rfl)
  exact ⟨hsuits, hlines, fun code hcode => (htells _ code (hlines.trans hcode.symm) hwhole).symm⟩

end Disassembly

end ClassStub
