import Std.Data.HashSet
import ClassStub.ClassFile
import ClassStub.Defect.Flags
import ClassStub.Defect.Index

/-!
# Defects of fields

A sound field has a readable name and descriptor and a valid combination of flags, and no other
field of its class has the same name and descriptor.
-/

namespace ClassStub

/-- What is wrong with a field. -/
inductive FieldDefect where
  | index (defect : IndexDefect)
  | invalidFlags (flags : AccessFlags)
  | duplicate (name descriptor : String)
  deriving DecidableEq, Inhabited

/-- The wording of a defect of a field. -/
def FieldDefect.message : FieldDefect → String
  | index defect => defect.message
  | invalidFlags flags => "Invalid field access flags: 0x" ++ hexadecimal 4 flags.bits.toNat
  | duplicate name descriptor => "Duplicate field: " ++ name ++ " " ++ descriptor

namespace ClassFile

/-- Requires a sound field, apart from duplicates, and returns its name and descriptor. -/
def checkField (c : ClassFile) (field : Member) : Except FieldDefect (String × String) := do
  let name ← (c.pool.expectText field.nameIndex).mapError .index
  let descriptor ← (c.pool.expectText field.descriptorIndex).mapError .index
  if field.access.isValidOnField c.isInterface then
    return (name, descriptor)
  else
    throw (.invalidFlags field.access)

/-- Requires sound fields that differ from each other and from those seen before. -/
def checkFieldsFrom (c : ClassFile) (seen : Std.HashSet (String × String)) :
    List Member → Except FieldDefect Unit
  | [] => .ok ()
  | field :: rest => do
    let key ← c.checkField field
    if seen.contains key then
      throw (.duplicate key.1 key.2)
    c.checkFieldsFrom (seen.insert key) rest

/-- Requires that all fields are sound. -/
def checkFields (c : ClassFile) : Except FieldDefect Unit := c.checkFieldsFrom ∅ c.fields

end ClassFile

end ClassStub
