/-!
# Opcodes

The instructions that a generated method body may hold, with the few others that a reader of
such a body meets. An opcode is any byte; `Opcode.info?` knows sixteen of them.
-/

namespace ClassStub

/-- The first byte of an instruction. -/
structure Opcode where
  code : UInt8
  deriving DecidableEq, Inhabited

/-- What is known of an opcode: its name, the number of operand bytes behind it, and whether
control never reaches the instruction after it. -/
structure OpcodeInfo where
  mnemonic : String
  operandLength : Nat
  isTerminal : Bool
  deriving DecidableEq, Inhabited

namespace Opcode

def nop : Opcode := ⟨0x00⟩
def aconstNull : Opcode := ⟨0x01⟩
def ldc : Opcode := ⟨0x12⟩
def ldcW : Opcode := ⟨0x13⟩
def dup : Opcode := ⟨0x59⟩
def ireturn : Opcode := ⟨0xac⟩
def lreturn : Opcode := ⟨0xad⟩
def freturn : Opcode := ⟨0xae⟩
def dreturn : Opcode := ⟨0xaf⟩
def areturn : Opcode := ⟨0xb0⟩
def returnVoid : Opcode := ⟨0xb1⟩
def invokevirtual : Opcode := ⟨0xb6⟩
def invokespecial : Opcode := ⟨0xb7⟩
def invokestatic : Opcode := ⟨0xb8⟩
def new : Opcode := ⟨0xbb⟩
def athrow : Opcode := ⟨0xbf⟩

/-- The known opcodes. -/
def info? (op : Opcode) : Option OpcodeInfo :=
  match op.code with
  | 0x00 => some ⟨"nop", 0, false⟩
  | 0x01 => some ⟨"aconst_null", 0, false⟩
  | 0x12 => some ⟨"ldc", 1, false⟩
  | 0x13 => some ⟨"ldc_w", 2, false⟩
  | 0x59 => some ⟨"dup", 0, false⟩
  | 0xac => some ⟨"ireturn", 0, true⟩
  | 0xad => some ⟨"lreturn", 0, true⟩
  | 0xae => some ⟨"freturn", 0, true⟩
  | 0xaf => some ⟨"dreturn", 0, true⟩
  | 0xb0 => some ⟨"areturn", 0, true⟩
  | 0xb1 => some ⟨"return", 0, true⟩
  | 0xb6 => some ⟨"invokevirtual", 2, false⟩
  | 0xb7 => some ⟨"invokespecial", 2, false⟩
  | 0xb8 => some ⟨"invokestatic", 2, false⟩
  | 0xbb => some ⟨"new", 2, false⟩
  | 0xbf => some ⟨"athrow", 0, true⟩
  | _ => none

/-- The name of an opcode; one placeholder stands for all that are not known. -/
def mnemonic (op : Opcode) : String :=
  match op.info? with
  | some info => info.mnemonic
  | none => "<other>"

/-- The number of operand bytes behind a known opcode. -/
def operandLength? (op : Opcode) : Option Nat := op.info?.map OpcodeInfo.operandLength

/-- The opcode returns or throws. -/
def isTerminal (op : Opcode) : Bool := op.info?.any OpcodeInfo.isTerminal

end Opcode

end ClassStub
