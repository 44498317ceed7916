/-!
# Access flags

Classes, fields and methods carry sixteen flag bits. A bit may mean different things on a class
and on a member: `0x0020` is *super* on the one and *synchronized* on the other, and `0x0040` is
*volatile* on a field and *bridge* on a method. The predicates below name a bit by the meaning
in which it is tested.
-/

namespace ClassStub

/-- The sixteen flag bits of a class, field or method. -/
structure AccessFlags where
  bits : UInt16
  deriving DecidableEq, Inhabited

namespace AccessFlags

/-- Some bit of the mask is set. -/
def has (flags : AccessFlags) (mask : UInt16) : Bool := flags.bits &&& mask != 0

/-! ### Single flags -/

def isPublic (flags : AccessFlags) : Bool := flags.has 0x0001
def isPrivate (flags : AccessFlags) : Bool := flags.has 0x0002
def isProtected (flags : AccessFlags) : Bool := flags.has 0x0004
def isStatic (flags : AccessFlags) : Bool := flags.has 0x0008
def isFinal (flags : AccessFlags) : Bool := flags.has 0x0010
def isSuper (flags : AccessFlags) : Bool := flags.has 0x0020
def isSynchronized (flags : AccessFlags) : Bool := flags.has 0x0020
def isVolatile (flags : AccessFlags) : Bool := flags.has 0x0040
def isTransient (flags : AccessFlags) : Bool := flags.has 0x0080
def isNative (flags : AccessFlags) : Bool := flags.has 0x0100
def isInterface (flags : AccessFlags) : Bool := flags.has 0x0200
def isAbstract (flags : AccessFlags) : Bool := flags.has 0x0400
def isSynthetic (flags : AccessFlags) : Bool := flags.has 0x1000
def isAnnotation (flags : AccessFlags) : Bool := flags.has 0x2000
def isEnum (flags : AccessFlags) : Bool := flags.has 0x4000
def isModule (flags : AccessFlags) : Bool := flags.has 0x8000

/-! ### Several flags together -/

/-- How many of *public*, *private* and *protected* are set. -/
def visibilityCount (flags : AccessFlags) : Nat :=
  flags.isPublic.toNat + flags.isPrivate.toNat + flags.isProtected.toNat

/-- The modifiers of a method that are printed, in their customary order. -/
def methodModifiers (flags : AccessFlags) : List String :=
  [(flags.isPublic, "public"), (flags.isPrivate, "private"), (flags.isProtected, "protected"),
    (flags.isStatic, "static"), (flags.isFinal, "final"),
    (flags.isSynchronized, "synchronized"), (flags.isNative, "native"),
    (flags.isAbstract, "abstract"), (flags.isSynthetic, "synthetic")].filterMap
    fun (isSet, name) => if isSet then some name else none

end AccessFlags

end ClassStub
