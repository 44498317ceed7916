import ClassStub.Constant

/-!
# Constant pools

The numbered constants of a class. Indices are sixteen bits wide and start at one; the second
slot of a `long` or `double` has an index too, but holds no constant.

* `get?`, `entries`: what stands at an index, and all usable entries in order.
* `push`: appends a constant.
* `utf8`, `className`, `string`, `nameAndType`, `methodRef`: *resolvers*, which follow the
  references of an entry down to its texts.
* `findUtf8?` and the like: the first entry that spells given texts. They compare texts once, at
  the lowest level, and indices above it.
* `internUtf8` and the like: the index of such an entry, which is appended if there is none.

Appending may fail half way, when the parts of an entry were appended and the entry itself has
no room; such an action leaves the parts in the pool.
-/

namespace ClassStub

/-- What may go wrong with an index into a pool, or with a pool that is full. -/
inductive PoolError where
  | outOfSpace
  | invalidIndex (index : UInt16)
  | unexpectedType (index : UInt16) (expected : String)
  | notUnicode (index : UInt16)
  deriving DecidableEq, Inhabited

/-- The wording of a pool error. -/
def PoolError.message : PoolError → String
  | outOfSpace => "Constant pool is out of space"
  | invalidIndex index => "Invalid constant pool index: " ++ toString index
  | unexpectedType index expected =>
    "Constant pool entry " ++ toString index ++ " is not a " ++ expected
  | notUnicode index => "Constant pool entry " ++ toString index ++ " is not valid Unicode text"

/-- The slots of a constant pool; the slot at position `i` has index `i + 1`. -/
structure ConstantPool where
  slots : Array Constant
  deriving DecidableEq, Inhabited

/-- An action on a pool. An action that fails keeps the changes it made before. -/
abbrev PoolAction (α : Type) := EStateM PoolError ConstantPool α

namespace ConstantPool

/-- The most slots a pool may have, so that their count and one more fits in sixteen bits. -/
def maxSlots : Nat := 65534

/-- The pool without slots. -/
def empty : ConstantPool := ⟨#[]⟩

/-- The number of slots, unusable ones included. -/
def size (pool : ConstantPool) : Nat := pool.slots.size

/-- The content of the slot with an index. -/
def get? (pool : ConstantPool) (index : UInt16) : Option Constant :=
  if index = 0 then none else pool.slots[index.toNat - 1]?

/-- The usable entries with their indices, in order. -/
def entries (pool : ConstantPool) : List (UInt16 × Constant) :=
  (pool.slots.toList.zipIdx 1).filterMap fun (constant, index) =>
    if constant.isUnusable then none else some (UInt16.ofNat index, constant)

/-- The pool with a constant appended, and an unusable slot behind it if it is wide. -/
def append (pool : ConstantPool) (constant : Constant) : ConstantPool :=
  let slots := pool.slots.push constant
  ⟨if constant.isWide then slots.push .unusable else slots⟩

/-- Appends a constant and returns its index. -/
def push (constant : Constant) : PoolAction UInt16 := fun pool =>
  if pool.size + constant.width > maxSlots then
    .error .outOfSpace pool
  else
    .ok (UInt16.ofNat (pool.size + 1)) (pool.append constant)

/-- The written form of a pool: one more than the number of slots, then each constant. -/
def encode (pool : ConstantPool) : Bytes :=
  bigEndian 2 (pool.size + 1) ++ pool.slots.toList.flatMap Constant.encode

/-! ### Resolving an index -/

/-- The text at an index. -/
def utf8 (pool : ConstantPool) (index : UInt16) : Except PoolError String :=
  match pool.get? index with
  | some (.utf8 text) => .ok text
  | some (.utf8Raw _) => .error (.notUnicode index)
  | some _ => .error (.unexpectedType index "Utf8")
  | none => .error (.invalidIndex index)

/-- The name of the class at an index. -/
def className (pool : ConstantPool) (index : UInt16) : Except PoolError String :=
  match pool.get? index with
  | some (.classRef name) => pool.utf8 name
  | some _ => .error (.unexpectedType index "Class")
  | none => .error (.invalidIndex index)

/-- The text of the string at an index. -/
def string (pool : ConstantPool) (index : UInt16) : Except PoolError String :=
  match pool.get? index with
  | some (.string text) => pool.utf8 text
  | some _ => .error (.unexpectedType index "String")
  | none => .error (.invalidIndex index)

/-- The name and the descriptor of the entry at an index. -/
def nameAndType (pool : ConstantPool) (index : UInt16) : Except PoolError (String × String) :=
  match pool.get? index with
  | some (.nameAndType name descriptor) => do
    return (← pool.utf8 name, ← pool.utf8 descriptor)
  | some _ => .error (.unexpectedType index "NameAndType")
  | none => .error (.invalidIndex index)

/-- The owner, name and descriptor of the method reference at an index. -/
def methodRef (pool : ConstantPool) (index : UInt16) :
    Except PoolError (String × String × String) :=
  match pool.get? index with
  | some (.methodRef owner nameAndType) => do
    return (← pool.className owner, ← pool.nameAndType nameAndType)
  | some _ => .error (.unexpectedType index "Methodref")
  | none => .error (.invalidIndex index)

/-! ### Finding an entry -/

/-- The index of the first slot that holds a constant of some kind. -/
def find? (pool : ConstantPool) (accept : Constant → Bool) : Option UInt16 :=
  (pool.slots.findIdx? accept).map fun position => UInt16.ofNat (position + 1)

/-- The first entry that holds a text. -/
def findUtf8? (pool : ConstantPool) (text : String) : Option UInt16 :=
  pool.find? fun
    | .utf8 other => other == text
    | _ => false

/-- The first class entry on the first entry that holds its name. -/
def findClass? (pool : ConstantPool) (name : String) : Option UInt16 := do
  let nameIndex ← pool.findUtf8? name
  pool.find? (· == .classRef nameIndex)

/-- The first string entry on the first entry that holds its text. -/
def findString? (pool : ConstantPool) (text : String) : Option UInt16 := do
  let textIndex ← pool.findUtf8? text
  pool.find? (· == .string textIndex)

/-- The first name-and-type entry on the first entries that hold its two texts. -/
def findNameAndType? (pool : ConstantPool) (name descriptor : String) : Option UInt16 := do
  let nameIndex ← pool.findUtf8? name
  let descriptorIndex ← pool.findUtf8? descriptor
  pool.find? (· == .nameAndType nameIndex descriptorIndex)

/-- The first method reference on the first entries for its owner and its name and type. -/
def findMethodRef? (pool : ConstantPool) (owner name descriptor : String) : Option UInt16 := do
  let ownerIndex ← pool.findClass? owner
  let nameAndTypeIndex ← pool.findNameAndType? name descriptor
  pool.find? (· == .methodRef ownerIndex nameAndTypeIndex)

/-! ### Interning -/

/-- The index that was found, or the index of a constant that is built and appended. -/
def internWith (found : ConstantPool → Option UInt16) (build : PoolAction Constant) :
    PoolAction UInt16 := do
  match found (← get) with
  | some index => return index
  | none => push (← build)

/-- The index of a text. -/
def internUtf8 (text : String) : PoolAction UInt16 :=
  internWith (·.findUtf8? text) (return .utf8 text)

/-- The index of a class with a name. -/
def internClass (name : String) : PoolAction UInt16 :=
  internWith (·.findClass? name) (return .classRef (← internUtf8 name))

/-- The index of a string with a text. -/
def internString (text : String) : PoolAction UInt16 :=
  internWith (·.findString? text) (return .string (← internUtf8 text))

/-- The index of a name and type. -/
def internNameAndType (name descriptor : String) : PoolAction UInt16 :=
  internWith (·.findNameAndType? name descriptor)
    (return .nameAndType (← internUtf8 name) (← internUtf8 descriptor))

/-- The index of a reference to a method. -/
def internMethodRef (owner name descriptor : String) : PoolAction UInt16 :=
  internWith (·.findMethodRef? owner name descriptor)
    (return .methodRef (← internClass owner) (← internNameAndType name descriptor))

end ConstantPool

end ClassStub
