import ClassStub.ClassFile
import ClassStub.Defect.Index

/-!
# Defects of constant pools

In a sound pool a slot is unusable exactly when it follows a `long` or `double`, every reference
of an entry leads to an entry of the right kind, and dynamic constants occur only in a class
with a `BootstrapMethods` attribute.
-/

namespace ClassStub

/-- What is wrong with a constant pool. -/
inductive PoolDefect where
  /-- A reference of the entry with the index in the defect. -/
  | reference (defect : IndexDefect)
  /-- The slot is unusable and should not be, or the other way round. -/
  | misplacedUnusable (slot : UInt16)
  | bootstrapMethodsNotDefined
  deriving DecidableEq, Inhabited

/-- The wording of a defect of a pool. -/
def PoolDefect.message : PoolDefect → String
  | reference defect => defect.message
  | misplacedUnusable slot =>
    "Unusable constant pool slot " ++ toString slot ++ " does not follow a Long or Double"
  | bootstrapMethodsNotDefined => "BootstrapMethods attribute not defined"

/-! ### References between entries -/

/-- The kinds of entries that other entries refer to. -/
inductive ReferenceKind where
  | text
  | classRef
  | nameAndType
  | member
  deriving DecidableEq, Inhabited

/-- The constant is of the kind. -/
def ReferenceKind.accepts : ReferenceKind → Constant → Bool
  | text => Constant.isUtf8
  | classRef => Constant.isClassRef
  | nameAndType => Constant.isNameAndType
  | member => Constant.isMemberRef

namespace Constant

/-- The entries that a constant refers to, each with the kind it must have. The bootstrap method
of a dynamic constant is not an entry of the pool. -/
def references : Constant → List (ReferenceKind × UInt16)
  | classRef name | moduleRef name | packageRef name => [(.text, name)]
  | string text => [(.text, text)]
  | methodType descriptor => [(.text, descriptor)]
  | fieldRef owner signature | methodRef owner signature | interfaceMethodRef owner signature =>
    [(.classRef, owner), (.nameAndType, signature)]
  | nameAndType name descriptor => [(.text, name), (.text, descriptor)]
  | methodHandle _ reference => [(.member, reference)]
  | dynamic _ signature | invokeDynamic _ signature => [(.nameAndType, signature)]
  | _ => []

/-- The constant depends on the bootstrap methods of its class. -/
def isDynamic : Constant → Bool
  | dynamic _ _ | invokeDynamic _ _ => true
  | _ => false

end Constant

/-! ### The check -/

/-- Requires of each slot that it is unusable exactly when the one before it is wide. -/
def checkSlots (afterWide : Bool) (slot : Nat) : List Constant → Except PoolDefect Unit
  | [] => .ok ()
  | constant :: rest =>
    if constant.isUnusable != afterWide then
      .error (.misplacedUnusable (UInt16.ofNat slot))
    else
      checkSlots constant.isWide (slot + 1) rest

/-- Requires of the entry with an index that its references are sound. -/
def ConstantPool.checkEntry (pool : ConstantPool) (hasBootstrapMethods : Bool) (index : UInt16)
    (constant : Constant) : Except PoolDefect Unit := do
  if constant.isDynamic && !hasBootstrapMethods then
    throw .bootstrapMethodsNotDefined
  constant.references.forM fun (kind, target) =>
    (pool.expect index target kind.accepts).mapError .reference

namespace ClassFile

/-- The class has an attribute that dynamic constants can depend on. -/
def hasBootstrapMethods (c : ClassFile) : Bool :=
  c.attributes.any (·.isNamed c.pool Attribute.bootstrapMethodsName)

/-- Requires a sound constant pool: first the layout of its slots, then each entry in order. -/
def checkPool (c : ClassFile) : Except PoolDefect Unit := do
  checkSlots false 1 c.pool.slots.toList
  let hasBootstrapMethods := c.hasBootstrapMethods
  c.pool.entries.forM fun (index, constant) =>
    c.pool.checkEntry hasBootstrapMethods index constant

end ClassFile

end ClassStub
