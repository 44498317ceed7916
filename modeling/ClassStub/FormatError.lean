import ClassStub.ConstantPool
import ClassStub.Text.Hexadecimal

/-!
# Format errors

The ways in which bytes may fail to be a class file, or an attribute's payload to be what the
attribute's name promises.
-/

namespace ClassStub

/-- Why bytes were refused. -/
inductive FormatError where
  /-- The input ends before the value that was wanted; the offset is the input's length. -/
  | unexpectedEnd (offset : Nat)
  | wrongMagic (magic : UInt32)
  | unknownTag (tag : UInt8) (offset : Nat)
  /-- The text at an index of the pool is not well formed. -/
  | invalidText (index : UInt16)
  /-- Bytes follow the end of the class. -/
  | trailingBytes (count : Nat)
  /-- Bytes follow the last nested attribute of a `Code` payload. -/
  | codeSlack (count : Nat)
  /-- An `Exceptions` payload is longer than its count says. -/
  | exceptionsSlack
  /-- A `Signature` payload is not an index. -/
  | signatureLength (length : Nat)
  | pool (error : PoolError)
  deriving DecidableEq, Inhabited

namespace FormatError

/-- The wording of a format error. -/
def message : FormatError → String
  | unexpectedEnd offset => "Unexpected end of class file at offset " ++ toString offset
  | wrongMagic magic =>
    "Wrong magic: got 0x" ++ hexadecimal 8 magic.toNat ++ ", expected 0xcafebabe"
  | unknownTag tag offset =>
    "Unknown constant pool tag " ++ toString tag ++ " at offset " ++ toString offset
  | invalidText index => "Invalid modified UTF-8 in constant pool entry " ++ toString index
  | trailingBytes count => toString count ++ " trailing bytes after class file end"
  | codeSlack count =>
    "Malformed Code attribute: " ++ toString count ++ " bytes past the nested attributes"
  | exceptionsSlack => "Malformed Exceptions attribute: length does not match exception count"
  | signatureLength length =>
    "Malformed Signature attribute: expected 2 bytes, found " ++ toString length
  | pool error => "Constant pool error: " ++ error.message

/-- The wordings of the error and of the errors that caused it, outermost first. -/
def chain (error : FormatError) : List String :=
  error.message :: match error with
    | pool cause => [cause.message]
    | _ => []

end FormatError

end ClassStub
