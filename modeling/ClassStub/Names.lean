/-!
# Names with a meaning of their own

Names that a virtual machine treats in a special way.
-/

namespace ClassStub

/-- The name of every constructor. -/
def constructorName : String := "<init>"

/-- The name of the static initializer. -/
def initializerName : String := "<clinit>"

/-- The name of the only class without a superclass. -/
def objectClassName : String := "java/lang/Object"

end ClassStub
