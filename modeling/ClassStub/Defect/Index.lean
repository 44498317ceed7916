import ClassStub.ConstantPool

/-!
# Defective references

A reference into the constant pool is sound when something stands at its index and is of the
kind that the place of the reference asks for.
-/

namespace ClassStub

/-- What is wrong with a reference. The index says where the fault lies: it is the reference
itself, or the entry that the reference belongs to. -/
inductive IndexDefect where
  /-- Nothing stands at the index that is referred to. -/
  | missing (index : UInt16)
  /-- What stands there is of another kind. -/
  | wrongType (index : UInt16)
  deriving DecidableEq, Inhabited

/-- The wording of a defective reference. -/
def IndexDefect.message : IndexDefect → String
  | missing index => "Invalid constant pool index " ++ toString index
  | wrongType index => "Invalid constant pool index type " ++ toString index

namespace ConstantPool

/-- Requires an acceptable constant at the index `target`, and blames the index `culprit` if
there is none. -/
def expect (pool : ConstantPool) (culprit target : UInt16) (accept : Constant → Bool) :
    Except IndexDefect Unit :=
  match pool.get? target with
  | some constant => if accept constant then .ok () else .error (.wrongType culprit)
  | none => .error (.missing culprit)

/-- The text at an index, which must be readable as text. -/
def expectText (pool : ConstantPool) (index : UInt16) : Except IndexDefect String :=
  match pool.get? index with
  | some (.utf8 text) => .ok text
  | some _ => .error (.wrongType index)
  | none => .error (.missing index)

end ConstantPool

end ClassStub
