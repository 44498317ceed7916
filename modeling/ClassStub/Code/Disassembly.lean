import ClassStub.Bytes
import ClassStub.Code.Opcode

/-!
# Disassembly

Code as a list of instructions. `Disassembly.ofBytes` reads complete known instructions from the
front of the code for as long as it can and keeps the bytes behind them; `Disassembly.lines`
prints the result, with one line for each instruction and one for the rest if there is any.
-/

namespace ClassStub

/-- An instruction: an opcode and its operand bytes. -/
structure Instruction where
  opcode : Opcode
  operand : Bytes
  deriving DecidableEq, Inhabited

namespace Instruction

/-- The bytes of an instruction. -/
def toBytes (instruction : Instruction) : Bytes :=
  instruction.opcode.code :: instruction.operand

/-- The name of the instruction, and its operand as a decimal number if it has one. -/
def toLine (instruction : Instruction) : String :=
  if instruction.operand.isEmpty then
    instruction.opcode.mnemonic
  else
    instruction.opcode.mnemonic ++ " #" ++ toString (ofBigEndian instruction.operand)

/-- Reads a complete known instruction, and returns it with the bytes behind it. -/
def read? : Bytes → Option (Instruction × Bytes)
  | [] => none
  | code :: rest =>
    match Opcode.operandLength? ⟨code⟩ with
    | some length =>
      let operand := rest.take length
      if operand.length = length then some (⟨⟨code⟩, operand⟩, rest.drop length) else none
    | none => none

theorem length_of_read? {bytes rest : Bytes} {instruction : Instruction}
    (h : read? bytes = some (instruction, rest)) : rest.length < bytes.length := by
  unfold read? at h
  split at h
  · exact absurd h (by simp)
  · split at h
    · dsimp only at h
      split at h
      · simp only [Option.some.injEq, Prod.mk.injEq] at h
        rw [← h.2, List.length_drop, List.length_cons]
        omega
      · exact absurd h (by simp)
    · exact absurd h (by simp)

end Instruction

/-- Code cut into instructions, with the bytes from the first place where no complete known
instruction stands. -/
structure Disassembly where
  instructions : List Instruction
  rest : Bytes
  deriving DecidableEq, Inhabited

namespace Disassembly

/-- Reads instructions behind those in `before`, which stand in reverse order. -/
def readOnto (before : List Instruction) (bytes : Bytes) : Disassembly :=
  match h : Instruction.read? bytes with
  | some (instruction, rest) =>
    have := Instruction.length_of_read? h
    readOnto (instruction :: before) rest
  | none => ⟨before.reverse, bytes⟩
  termination_by bytes.length

/-- The instructions of a piece of code. -/
def ofBytes (code : Bytes) : Disassembly := readOnto [] code

/-- The code that was cut into instructions. -/
def toBytes (listing : Disassembly) : Bytes :=
  listing.instructions.flatMap Instruction.toBytes ++ listing.rest

/-- One line for each instruction, and one that counts the bytes left over. -/
def lines (listing : Disassembly) : List String :=
  listing.instructions.map Instruction.toLine ++
    if listing.rest.isEmpty then [] else ["<" ++ toString listing.rest.length ++ " bytes>"]

end Disassembly

/-- The printed instructions of a piece of code. -/
def disassemble (code : Bytes) : List String := (Disassembly.ofBytes code).lines

end ClassStub
