import ClassStub.ClassFile.Decode
import ClassStub.ClassFile.Encode
import ClassStub.Defect
import ClassStub.Files.Store
import ClassStub.Stub

/-!
# From class file to stub file

`stubBytes` takes the bytes of a class file to the bytes of its stub: the class is read, stubbed,
searched for defects if that is wanted, and written. `Failure` tells where this may go wrong, and
where work on files may.
-/

namespace ClassStub

/-- How stubs are made. -/
structure StubOptions where
  /-- A stub with a structural defect is refused. -/
  verify : Bool
  initializers : InitializerPolicy
  /-- How many workers are to stub a directory; as many as seem fit if that is left open. -/
  threads : Option Nat
  deriving DecidableEq

/-- By default stubs are verified, static initializers are stubbed, and the number of workers is
left open. -/
instance : Inhabited StubOptions := ⟨true, .stub, none⟩

/-- Why there is no stub. -/
inductive Failure where
  | io (error : FileError)
  | decode (error : FormatError)
  | stub (error : StubError)
  | verify (defect : Defect)
  /-- The failure of one file among many. -/
  | inFile (path : Path) (failure : Failure)
  /-- A directory cannot be searched. -/
  | walk (error : WalkError)
  /-- No workers can be started. -/
  | workers (error : WorkersError)
  deriving DecidableEq, Inhabited

namespace Failure

/-- The wording of an error that was met while a directory was searched. -/
def walkMessage (error : WalkError) : String :=
  "IO error for operation on " ++ error.path.display ++ ": " ++ error.error.message

/-- The wording of a failure. -/
def message : Failure → String
  | io error => "IO error: " ++ error.message
  | decode error => "Failed to decode class: " ++ error.message
  | stub error => "Stub transform failed: " ++ error.message
  | verify defect => "Stub verification failed: " ++ defect.message
  | inFile path failure => path.display ++ ": " ++ failure.message
  | walk error => "Failed to walk directory: " ++ walkMessage error
  | workers error => "Failed to start worker pool: " ++ error.description

/-- The wordings of the failure and of the errors that caused it, outermost first. -/
def chain (failure : Failure) : List String :=
  failure.message :: match failure with
    | io error => [error.message]
    | decode error => error.chain
    | stub error => error.chain
    | verify defect => [defect.message]
    | inFile _ cause => chain cause
    | walk error => [walkMessage error, error.error.message]
    | workers error => [error.description]

end Failure

/-- The bytes of the stub of a class file. -/
def stubBytes (options : StubOptions) (bytes : Bytes) : Except Failure Bytes := do
  let c ← (ClassFile.decode bytes).mapError .decode
  let stub ← (c.stub options.initializers).mapError .stub
  if options.verify then
    stub.check.mapError .verify
  return stub.encode

end ClassStub
