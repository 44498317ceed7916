import ClassStub.AccessFlags

/-!
# Combinations of access flags

Which flags may stand together on a class, on a field and on a method. What is allowed on a
member depends on whether it is declared in an interface.
-/

namespace ClassStub.AccessFlags

/-- The part of a class name behind its last slash. -/
def simpleName (className : String) : List Char :=
  (className.toList.reverse.takeWhile (· != '/')).reverse

/-- The flags may stand on a class with the given name. An annotation is an interface, and an
interface is abstract, unless it is a `package-info`, and has none of the flags that only other
classes have. A class that is no interface is not both final and abstract. -/
def isValidOnClass (flags : AccessFlags) (className : Option String) : Bool :=
  if flags.isInterface then
    (flags.isAbstract || className.any (simpleName · == "package-info".toList)) &&
      !(flags.isFinal || flags.isSuper || flags.isEnum || flags.isModule)
  else
    !flags.isAnnotation && !(flags.isFinal && flags.isAbstract)

/-- The flags may stand on a field: at most one visibility is given, a field of an interface is
public, static and final and little else, and no other field is both final and volatile. -/
def isValidOnField (flags : AccessFlags) (inInterface : Bool) : Bool :=
  flags.visibilityCount ≤ 1 &&
    if inInterface then
      flags.isPublic && flags.isStatic && flags.isFinal &&
        !(flags.isPrivate || flags.isProtected || flags.isVolatile || flags.isTransient ||
          flags.isEnum)
    else
      !(flags.isFinal && flags.isVolatile)

/-- The flags may stand on a method: at most one visibility is given, a method of an interface
is not protected, final, synchronized or native, and an abstract method is not private, static,
final, synchronized or native. -/
def isValidOnMethod (flags : AccessFlags) (inInterface : Bool) : Bool :=
  flags.visibilityCount ≤ 1 &&
    !(inInterface &&
      (flags.isProtected || flags.isFinal || flags.isSynchronized || flags.isNative)) &&
    !(flags.isAbstract &&
      (flags.isPrivate || flags.isStatic || flags.isFinal || flags.isSynchronized ||
        flags.isNative))

end ClassStub.AccessFlags
