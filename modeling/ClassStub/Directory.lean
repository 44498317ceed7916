import ClassStub.StubBytes

/-!
# Stubbing a directory

Every class file below a directory is stubbed into the same place below another one. Classes do
not depend on each other, and so they are handled by several workers; a class that fails does not
stop the others. The report lists the classes in the order of the walk, whatever the order in
which they were handled.
-/

namespace ClassStub

/-- The classes that were stubbed, by their paths relative to the directory, and what went wrong
with the others. -/
structure DirectoryReport where
  stubbed : List Path
  failures : List Failure
  deriving DecidableEq, Inhabited

/-- No class failed. -/
def DirectoryReport.isSuccess (report : DirectoryReport) : Bool := report.failures.isEmpty

namespace Directory

/-- The extension of class files. -/
def classExtension : Bytes := utf8Bytes "class"

variable {m : Type → Type} [Monad m]

/-- An action as a step of work that may fail. -/
def onError {ε α : Type} (failure : ε → Failure) (action : m (Except ε α)) :
    ExceptT Failure m α := do
  match ← action with
  | .ok a => return a
  | .error error => throw (failure error)

/-- A computation on values as a step of work that may fail. -/
def ofExcept {α : Type} : Except Failure α → ExceptT Failure m α
  | .ok a => return a
  | .error failure => throw failure

/-! ### The classes below a directory -/

/-- The relative path of a class file that a walk comes upon. -/
def relativeClass? (root : Path) (entry : WalkEntry) : Option Path :=
  if entry.isFile && entry.path.extension? == some classExtension then
    entry.path.stripPrefix? root
  else
    none

/-- The relative paths of the class files that a walk comes upon, unless it fails at something. -/
def relativeClasses (root : Path) (items : List (Except WalkError WalkEntry)) :
    Except Failure (List Path) := do
  let entries ← items.mapM fun item => item.mapError .walk
  return entries.filterMap (relativeClass? root)

/-- The relative paths of all class files below a directory, in the order of the walk. -/
def collectClasses [DirectoryWalker m] (root : Path) : ExceptT Failure m (List Path) := do
  let items : List (Except WalkError WalkEntry) ← (DirectoryWalker.walk root : m _)
  ofExcept (relativeClasses root items)

/-! ### Stubbing them -/

/-- Stubs one file into another, whose directory is made if it is missing. -/
def stubFile [FileStore m] (options : StubOptions) (input output : Path) :
    ExceptT Failure m Unit := do
  let bytes ← onError .io (FileStore.readFile input)
  let stub ← ofExcept (stubBytes options bytes)
  onError .io (FileStore.makeParents output)
  onError .io (FileStore.writeFile output stub)

/-- Stubs one class of a directory and tells what came of it. -/
def stubClass [FileStore m] (options : StubOptions) (input output relative : Path) :
    m (Path × Except Failure Unit) := do
  return (relative, ← (stubFile options (input.join relative) (output.join relative)).run)

/-- The report on some classes from what came of each of them. -/
def report (results : List (Path × Except Failure Unit)) : DirectoryReport where
  stubbed := results.filterMap fun (relative, result) =>
    match result with
    | .ok () => some relative
    | .error _ => none
  failures := results.filterMap fun (relative, result) =>
    match result with
    | .ok () => none
    | .error failure => some (.inFile relative failure)

/-- Stubs all class files below a directory. The only errors are those that keep the work from
being begun: a walk that fails, and workers that cannot be started. -/
def stubTree [FileStore m] [DirectoryWalker m] [Workers m] (options : StubOptions)
    (input output : Path) : ExceptT Failure m DirectoryReport := do
  let classes ← collectClasses input
  onError .workers (Workers.start options.threads)
  let results : List (Path × Except Failure Unit) ←
    (Workers.mapAll (stubClass options input output) classes : m _)
  return report results

end Directory

end ClassStub
