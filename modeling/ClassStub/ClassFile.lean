import ClassStub.Member

/-!
# Class files

A class, interface or module descriptor as it stands in a class file, with its constant pool.
References into the pool are kept as indices; the functions here follow them.
-/

namespace ClassStub

/-- The content of a class file. -/
structure ClassFile where
  magic : UInt32
  minorVersion : UInt16
  majorVersion : UInt16
  pool : ConstantPool
  access : AccessFlags
  thisClass : UInt16
  /-- The index of the superclass; zero for none. -/
  superClass : UInt16
  interfaces : List UInt16
  fields : List Member
  methods : List Member
  attributes : List Attribute
  deriving DecidableEq, Inhabited

namespace ClassFile

/-- The number that opens every class file. -/
def magicNumber : UInt32 := 0xCAFEBABE

/-- A class of version 52 with nothing in it. -/
def empty : ClassFile where
  magic := magicNumber
  minorVersion := 0
  majorVersion := 52
  pool := .empty
  access := ⟨0⟩
  thisClass := 0
  superClass := 0
  interfaces := []
  fields := []
  methods := []
  attributes := []

/-- The class is an interface. -/
def isInterface (c : ClassFile) : Bool := c.access.isInterface

/-- The class is a module descriptor. -/
def isModule (c : ClassFile) : Bool := c.access.isModule

/-- The name of the class. -/
def className (c : ClassFile) : Except PoolError String := c.pool.className c.thisClass

/-- The name of the superclass, if there is one. -/
def superName (c : ClassFile) : Except PoolError (Option String) :=
  if c.superClass = 0 then return none else return some (← c.pool.className c.superClass)

/-- The names of the interfaces that the class implements, in order. -/
def interfaceNames (c : ClassFile) : Except PoolError (List String) :=
  c.interfaces.mapM c.pool.className

/-- The generic signature of the class, if it has one. -/
def signature (c : ClassFile) : Except FormatError (Option String) :=
  Attribute.findSignature c.attributes c.pool

/-- The position of the first method with a name and a descriptor. -/
def findMethodPosition? (c : ClassFile) (name descriptor : String) : Option Nat :=
  c.methods.findIdx? (·.isDeclaredAs c.pool name descriptor)

/-- The first method with a name and a descriptor. -/
def findMethod? (c : ClassFile) (name descriptor : String) : Option Member :=
  c.methods.find? (·.isDeclaredAs c.pool name descriptor)

/-- Two classes agree: they are equal, with floating-point constants compared as numbers. -/
def agrees (a b : ClassFile) : Bool :=
  a.pool.slots.size == b.pool.slots.size &&
    (a.pool.slots.zip b.pool.slots).all (fun (x, y) => x.agrees y) &&
    { a with pool := .empty } == { b with pool := .empty }

end ClassFile

end ClassStub
