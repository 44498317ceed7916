import ClassStub.ClassFile.Decode
import ClassStub.Code.Disassembly

/-!
# Listings of classes

A listing prints what a class declares, line by line: its name and version, its superclass,
interfaces and signature, its fields, and its methods with the exceptions they declare and the
instructions of their bodies. It may come upon an attribute that cannot be read; the lines
printed before that remain.
-/

namespace ClassStub

/-- Prints lines onto a text. An action that fails tells why, outermost error first, and keeps
the text. -/
abbrev Printer (α : Type) := EStateM (List String) String α

namespace Printer

/-- Prints a line. -/
def line (text : String) : Printer Unit := modify fun printed => printed ++ text ++ "\n"

variable {α : Type}

/-- A look-up in the pool as an action. -/
def ofPool : Except PoolError α → Printer α
  | .ok a => return a
  | .error error => throw [error.message]

/-- The reading of an attribute as an action. -/
def ofFormat : Except FormatError α → Printer α
  | .ok a => return a
  | .error error => throw error.chain

end Printer

open Printer

/-- Prints a field. -/
def Member.printField (pool : ConstantPool) (field : Member) : Printer Unit := do
  let name ← ofPool (field.name pool)
  let descriptor ← ofPool (field.descriptor pool)
  line ("  field " ++ name ++ " " ++ descriptor)

/-- Prints a method. -/
def Member.printMethod (pool : ConstantPool) (method : Member) : Printer Unit := do
  let modifiers := " ".intercalate method.access.methodModifiers
  let name ← ofPool (method.name pool)
  let descriptor ← ofPool (method.descriptor pool)
  line ("  method " ++ modifiers ++ " " ++ name ++ descriptor)
  let exceptions ← ofFormat (method.exceptions pool)
  if !exceptions.isEmpty then
    line ("    throws " ++ ", ".intercalate exceptions)
  (← ofFormat (method.code pool)).forM fun payload =>
    line ("    stack=" ++ toString payload.maxStack ++ " locals=" ++ toString payload.maxLocals ++
      " [" ++ "; ".intercalate (disassemble payload.code) ++ "]")

/-- Prints a class. -/
def ClassFile.print (c : ClassFile) : Printer Unit := do
  let name ← ofPool c.className
  line ("class " ++ name ++ " (major " ++ toString c.majorVersion ++ ")")
  (← ofPool c.superName).forM fun superName => line ("  extends " ++ superName)
  (← ofPool c.interfaceNames).forM fun interface => line ("  implements " ++ interface)
  (← ofFormat c.signature).forM fun signature => line ("  signature " ++ signature)
  c.fields.forM (Member.printField c.pool)
  c.methods.forM (Member.printMethod c.pool)

end ClassStub
