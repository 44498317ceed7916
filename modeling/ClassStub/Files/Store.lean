import ClassStub.Files.Path

/-!
# What the program asks of its surroundings

`FileStore m` says that actions of the monad `m` can read and write files and make directories.
`DirectoryWalker m` lists what is below a directory, and `Workers m` carries out many actions at the
same time. None of them is part of the program: it works with whatever it is given.
-/

namespace ClassStub

/-- Why an operation on a file failed. -/
inductive FileError where
  | notFound
  | alreadyExists
  | notDirectory
  | isDirectory
  /-- A name, or the path as a whole, has more bytes than it may have. -/
  | nameTooLong
  /-- The path contains the byte zero, which ends a path. -/
  | zeroInPath
  | other (description : String)
  deriving DecidableEq, Inhabited

/-- The wording of a file error. -/
def FileError.message : FileError → String
  | notFound => "No such file or directory (os error 2)"
  | alreadyExists => "File exists (os error 17)"
  | notDirectory => "Not a directory (os error 20)"
  | isDirectory => "Is a directory (os error 21)"
  | nameTooLong => "File name too long (os error 36)"
  | zeroInPath => "file name contained an unexpected NUL byte"
  | other description => description

/-! ### Files -/

/-- Actions on files. -/
class FileStore (m : Type → Type) where
  /-- The content of a file. -/
  readFile : Path → m (Except FileError Bytes)
  /-- Gives a file a new content, or makes it in a directory that exists. The file is emptied or
  made first, and then written; either may fail. -/
  writeFile : Path → Bytes → m (Except FileError Unit)
  /-- Makes a directory in one that exists. -/
  makeDir : Path → m (Except FileError Unit)
  /-- A directory stands at the path. -/
  isDir : Path → m Bool

namespace FileStore

variable {m : Type → Type} [Monad m] [FileStore m]

/-- Makes the directory that a beginning of a path leads to, the first of those with the given
lengths. Each of them lies in the next one; those that are missing are made as well. -/
def makeDirs (path : Path) : List Nat → m (Except FileError Unit)
  | [] => return .ok ()
  | length :: above => do
    let directory := path.upTo length
    match ← makeDir directory with
    | .ok () => return .ok ()
    | .error .notFound =>
      match ← makeDirs path above with
      | .error error => return .error error
      | .ok () =>
        match ← makeDir directory with
        | .ok () => return .ok ()
        | .error error => if ← isDir directory then return .ok () else return .error error
    | .error error => if ← isDir directory then return .ok () else return .error error

/-- Makes the directory that a path lies in, and those above it that are missing. -/
def makeParents (path : Path) : m (Except FileError Unit) := makeDirs path path.parentEnds

end FileStore

/-! ### Walks -/

/-- What a walk comes upon: a file or directory, by the path that leads to it. -/
structure WalkEntry where
  path : Path
  /-- It is a regular file. -/
  isFile : Bool
  deriving DecidableEq, Inhabited

/-- What a walk fails at: a file or directory that cannot be looked at. -/
structure WalkError where
  path : Path
  error : FileError
  deriving DecidableEq, Inhabited

/-- Actions that walk through directories. -/
class DirectoryWalker (m : Type → Type) where
  /-- What is met at and below a path, links not being followed and the entries of a directory in
  the order of their names. -/
  walk : Path → m (List (Except WalkError WalkEntry))

/-! ### Workers -/

/-- Why no workers could be started. -/
structure WorkersError where
  description : String
  deriving DecidableEq, Inhabited

/-- Actions that are carried out by several workers. -/
class Workers (m : Type → Type) where
  /-- Starts some number of workers, or as many as seem fit. -/
  start : Option Nat → m (Except WorkersError Unit)
  /-- Carries out an action for each element of a list. The actions may overlap in time; the
  results are in the order of the list. -/
  mapAll : {α β : Type} → (α → m β) → List α → m (List β)

end ClassStub
