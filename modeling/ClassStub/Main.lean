import ClassStub.Command.Arguments

/-!
# The program

The files of the operating system as a file store, and the entry point, which runs a command line
on them. The operating system is asked by texts, so paths that are not UTF-8 cannot be used here.
-/

namespace ClassStub.SystemFiles

open System

/-- The number by which the operating system reports an error. -/
def errorCode? : IO.Error → Option UInt32
  | .alreadyExists _ code _ | .noFileOrDirectory _ code _ | .inappropriateType _ code _
  | .otherError code _ | .illegalOperation code _ | .noSuchThing _ code _
  | .invalidArgument _ code _ => some code
  | _ => none

/-- The number itself where the sign of a reported number was turned. -/
def unsigned (code : UInt32) : UInt32 := if code < 0x80000000 then code else 0 - code

/-- An error of the operating system as an error of a file store. -/
def fileError (error : IO.Error) : FileError :=
  match (errorCode? error).map unsigned with
  | some 2 => .notFound
  | some 17 => .alreadyExists
  | some 20 => .notDirectory
  | some 21 => .isDirectory
  | some 36 => .nameTooLong
  | _ => .other (toString error)

/-- An action whose errors are returned. -/
def attempt {α : Type} (action : IO α) : IO (Except FileError α) := do
  try
    return .ok (← action)
  catch error =>
    return .error (fileError error)

instance : FileStore IO where
  readFile path := attempt do
    return (← IO.FS.readBinFile path.display).toList
  writeFile path content := attempt do
    IO.FS.writeBinFile path.display ⟨content.toArray⟩
  makeDir path := attempt do
    IO.FS.createDir path.display
  isDir path := FilePath.isDir path.display

/-- What is met at and below a path. A link is followed only if the walk starts there. -/
partial def walkFrom (isStart : Bool) (path : Path) : IO (List (Except WalkError WalkEntry)) := do
  let look := if isStart then FilePath.metadata else FilePath.symlinkMetadata
  match ← attempt (look path.display) with
  | .error error => return [.error ⟨path, error⟩]
  | .ok metadata =>
    if metadata.type != .dir then
      return [.ok ⟨path, metadata.type == .file⟩]
    match ← attempt (FilePath.readDir path.display) with
    | .error error => return [.ok ⟨path, false⟩, .error ⟨path, error⟩]
    | .ok children =>
      let names := children.toList.map fun child => utf8Bytes child.fileName
      let items ← (names.mergeSort (· ≤ ·)).mapM fun name => walkFrom false (path.join ⟨name⟩)
      return .ok ⟨path, false⟩ :: items.flatten

instance : DirectoryWalker IO where
  walk := walkFrom true

/-- Each action is a task of its own; how many of them run at the same time is left to the
runtime. -/
instance : Workers IO where
  start _ := return .ok ()
  mapAll action items := do
    let tasks ← items.mapM fun item => IO.asTask (action item)
    tasks.mapM fun task => IO.ofExcept task.get

end ClassStub.SystemFiles

open ClassStub in
/-- Runs the program and ends with its exit code. -/
def main (arguments : List String) : IO UInt32 := do
  let outcome : Outcome ← runProgram Invocation.ofArguments (arguments.map utf8Bytes)
  IO.print outcome.stdout
  IO.eprint outcome.stderr
  return outcome.exitCode.toUInt32
