import ClassStub.AccessFlags

/-!
# The helper method

A stub of a class that is no interface has one method more than the class: the helper, which
makes the exception that every other method throws. Here stand its declaration and the names
that the exception is made from.
-/

namespace ClassStub

namespace Helper

/-- The name of the helper. -/
def name : String := "$unsupportedOpEx"

/-- The descriptor of the helper: it takes nothing and returns the exception. -/
def descriptor : String := "()Ljava/lang/UnsupportedOperationException;"

/-- The helper is private, static and synthetic. -/
def access : AccessFlags := ⟨0x100A⟩

end Helper

namespace Diagnostic

/-- The class of the exception that a stubbed method throws. -/
def exceptionClass : String := "java/lang/UnsupportedOperationException"

/-- The descriptor of the constructor that takes the message. -/
def constructorDescriptor : String := "(Ljava/lang/String;)V"

/-- The message of the exception. -/
def message : String :=
  "You tried to call a method on an API class. You probably added the API jar on classpath " ++
    "instead of the implementation jar."

end Diagnostic

end ClassStub
