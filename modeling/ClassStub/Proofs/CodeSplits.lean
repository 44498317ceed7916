import ClassStub.Proofs.Bodies

/-!
# Code cut into instructions

A piece of code can be cut into complete known instructions and a rest at whose front no such
instruction stands (`Disassembly.IsSplitOf`). Nothing is said of how the cut is found. An opcode
decides how many bytes its instruction has, and so there is always one cut and never a second one:
the one that the reader of instructions makes from front to back (`Disassembly.isSplitOf_iff`).
Operand bytes may look like opcodes; they do no harm, for no cut goes through an instruction.
-/

namespace ClassStub

/-! ### The front of a piece of code -/

namespace Instruction

/-- The opcode is known, and the operand has as many bytes as it asks for. -/
def IsComplete (instruction : Instruction) : Prop :=
  instruction.opcode.operandLength? = some instruction.operand.length

/-- Both forms of a load have the operand bytes that their opcodes ask for. -/
theorem isComplete_load (index : UInt16) : (load index).IsComplete := by
  rw [IsComplete, load]
  split <;> rfl

/-- No complete known instruction stands at the front of the bytes. -/
inductive NoneAt : Bytes → Prop
  | empty : NoneAt []
  | unknown {op : Opcode} {behind : Bytes} (hop : op.operandLength? = none) :
      NoneAt (op.code :: behind)
  | short {op : Opcode} {behind : Bytes} {length : Nat} (hop : op.operandLength? = some length)
      (hshort : behind.length < length) : NoneAt (op.code :: behind)

/-- A whole instruction is read back from its bytes, whatever follows. -/
theorem read?_toBytes_append {instruction : Instruction} (h : instruction.IsComplete)
    (rest : Bytes) : read? (instruction.toBytes ++ rest) = some (instruction, rest) := by
  rw [IsComplete] at h
  rw [toBytes, List.cons_append, read?, h]
  simp

private theorem read?_of_noneAt {bytes : Bytes} (h : NoneAt bytes) : read? bytes = none := by
  cases h with
  | empty => rfl
  | unknown hop => rw [read?, hop]
  | @short op behind length hop hshort =>
    have htaken : (behind.take length).length ≠ length := by
      rw [List.length_take]
      omega
    rw [read?, hop]
    exact if_neg htaken

/-- At the front of any bytes there is a complete known instruction, or there is none. -/
private theorem exists_isComplete_or_noneAt (bytes : Bytes) :
    (∃ instruction rest, IsComplete instruction ∧ bytes = instruction.toBytes ++ rest) ∨
      NoneAt bytes := by
  cases bytes with
  | nil => exact .inr .empty
  | cons code behind =>
    cases hop : Opcode.operandLength? ⟨code⟩ with
    | none => exact .inr (.unknown hop)
    | some length =>
      obtain hshort | hlong := Nat.lt_or_ge behind.length length
      · exact .inr (.short hop hshort)
      · refine .inl ⟨⟨⟨code⟩, behind.take length⟩, behind.drop length, ?_, ?_⟩
        · rw [IsComplete, List.length_take, Nat.min_eq_left hlong, hop]
        · rw [toBytes, List.cons_append, List.take_append_drop]

end Instruction

namespace Disassembly

open Instruction

/-! ### Splits -/

/-- The code is the complete known instructions of the listing, one after another, and its rest, at
whose front there is none. -/
structure IsSplitOf (listing : Disassembly) (code : Bytes) : Prop where
  toBytes : listing.toBytes = code
  complete : ∀ instruction ∈ listing.instructions, instruction.IsComplete
  rest : NoneAt listing.rest

private theorem toBytes_cons (instruction : Instruction) (instructions : List Instruction)
    (rest : Bytes) :
    toBytes ⟨instruction :: instructions, rest⟩ =
      instruction.toBytes ++ toBytes ⟨instructions, rest⟩ := by
  rw [toBytes, toBytes, List.flatMap_cons, List.append_assoc]

private theorem exists_isSplitOf (code : Bytes) :
    ∃ listing : Disassembly, listing.IsSplitOf code := by
  induction hlength : code.length using Nat.strong_induction_on generalizing code with
  | h length ih =>
    obtain ⟨instruction, behind, hcomplete, rfl⟩ | hnone := exists_isComplete_or_noneAt code
    · have hshorter : behind.length < length := by
        rw [← hlength, Instruction.toBytes, List.length_append, List.length_cons]
        omega
      obtain ⟨listing, hsplit⟩ := ih _ hshorter behind rfl
      refine ⟨⟨instruction :: listing.instructions, listing.rest⟩, ?_, ?_, hsplit.rest⟩
      · rw [toBytes_cons]
        exact congrArg (instruction.toBytes ++ ·) hsplit.toBytes
      · exact List.forall_mem_cons.2 ⟨hcomplete, hsplit.complete⟩
    · exact ⟨⟨[], code⟩, rfl, fun _ hmem => absurd hmem List.not_mem_nil, hnone⟩

/-- The reader finds the instructions of any split, and stops at its rest. -/
private theorem readOnto_toBytes {instructions : List Instruction} {rest : Bytes}
    (hcomplete : ∀ instruction ∈ instructions, instruction.IsComplete) (hrest : NoneAt rest)
    (before : List Instruction) :
    readOnto before (toBytes ⟨instructions, rest⟩) = ⟨before.reverse ++ instructions, rest⟩ := by
  induction instructions generalizing before with
  | nil =>
    rw [toBytes, List.flatMap_nil, List.nil_append, List.append_nil, readOnto]
    split
    case h_1 hread => cases (read?_of_noneAt hrest).symm.trans hread
    case h_2 => rfl
  | cons instruction instructions ih =>
    obtain ⟨hfirst, hcomplete⟩ := List.forall_mem_cons.1 hcomplete
    have hread := read?_toBytes_append hfirst (toBytes ⟨instructions, rest⟩)
    rw [toBytes_cons, readOnto]
    split
    case h_1 hfound =>
      obtain ⟨rfl, rfl⟩ := Prod.mk.inj (Option.some.inj (hread.symm.trans hfound))
      rw [ih hcomplete, List.reverse_cons, List.append_assoc]
      rfl
    case h_2 hfound => cases hread.symm.trans hfound

/-- Each piece of code has one split, the one that the reader makes. -/
theorem isSplitOf_iff {listing : Disassembly} {code : Bytes} :
    listing.IsSplitOf code ↔ listing = ofBytes code := by
  have hreads : ∀ other : Disassembly, other.IsSplitOf code → other = ofBytes code := by
    intro other hsplit
    rw [ofBytes, ← hsplit.toBytes, readOnto_toBytes hsplit.complete hsplit.rest]
    rfl
  constructor
  · exact hreads listing
  · rintro rfl
    obtain ⟨other, hsplit⟩ := exists_isSplitOf code
    exact hreads other hsplit ▸ hsplit

end Disassembly

end ClassStub
