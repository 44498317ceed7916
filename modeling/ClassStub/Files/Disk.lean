import ClassStub.Files.Stepwise
import ClassStub.Files.Store
import ClassStub.Files.Tree

/-!
# Disks

A disk as a value: a tree of files and a working directory in it. The leaves of the tree are the
numbers of regular files; a file that has several names has its number at several places. The
operations on a disk find the same faults in the same order as an operating system does: first those
of the text of a path, then those on the way to the last step, and then those of the last step.

An operation that changes a disk may also run into trouble that has nothing to do with its path,
such as a lack of room. Which of the next operations do is written down with the disk.
-/

namespace ClassStub

/-- The most bytes that a name may have. -/
def maxNameBytes : Nat := 255

/-- The most bytes that a path may have. -/
def maxPathBytes : Nat := 4095

/-- Requires bytes that can be a path. -/
def Path.validate (path : Path) : Except FileError Unit :=
  if path.bytes.contains 0 then
    .error .zeroInPath
  else if path.bytes.isEmpty then
    .error .notFound
  else if maxPathBytes < path.bytes.length then
    .error .nameTooLong
  else
    .ok ()

/-- The name that a path ends in, unless its last step is `.` or `..`. -/
def Path.lastName? (path : Path) : Option FileName :=
  path.steps.getLast?.filter fun step => step != FileName.here && step != FileName.up

/-- What stands at a place where no directory is. -/
inductive Leaf where
  /-- A regular file, by its number. -/
  | regular (number : Nat)
  /-- A file that stays empty, whatever is written to it. -/
  | device
  deriving DecidableEq, Inhabited

namespace Leaf

/-- It is a regular file. -/
def isRegular : Leaf → Bool
  | regular _ => true
  | device => false

/-- The number of a regular file. -/
def number? : Leaf → Option Nat
  | regular number => some number
  | device => none

end Leaf

/-- What an operation that changes a disk runs into: an error, after some bytes were written. -/
structure Trouble where
  error : FileError
  written : Nat
  deriving DecidableEq, Inhabited

/-- A tree of files, the contents of the regular files by their numbers, the place of the working
directory, and what the next operations that change the disk run into. -/
structure Disk where
  root : Tree Leaf
  contents : Nat → Bytes
  workplace : List FileName
  troubles : List (Option Trouble)
  deriving Inhabited

namespace Disk

/-! ### Places -/

/-- What stands at a place. -/
def get? (disk : Disk) (place : List FileName) : Option (Tree Leaf) := disk.root.get? place

/-- The disk with something put at a place. -/
def put (disk : Disk) (place : List FileName) (new : Tree Leaf) : Disk :=
  { disk with root := disk.root.put place new }

/-- Requires a name that is not too long. -/
def checkName (name : FileName) : Except FileError Unit :=
  if maxNameBytes < name.length then .error .nameTooLong else .ok ()

/-- Follows steps from a directory. The `trail` holds the names that lead to it, each with the
directory of that name, the last one first. Each step must lead to a directory; the step `..`
stays at the root. -/
def follow (root : Tree Leaf) (trail : List (FileName × Tree Leaf)) :
    List FileName → Except FileError (List FileName)
  | [] => .ok (trail.map Prod.fst).reverse
  | step :: steps =>
    if step = FileName.here then
      follow root trail steps
    else if step = FileName.up then
      follow root trail.tail steps
    else do
      checkName step
      match ((trail.head?.map Prod.snd).getD root).get? [step] with
      | some (.dir entries) => follow root ((step, .dir entries) :: trail) steps
      | some (.leaf _) => throw .notDirectory
      | none => throw .notFound

/-- The directory in which the last name of a path is looked for. A path that does not end in a
name leads to it as a whole. -/
def directory (disk : Disk) (path : Path) : Except FileError (List FileName) := do
  path.validate
  let steps := if path.lastName?.isSome then path.steps.dropLast else path.steps
  follow disk.root [] (if path.isAbsolute then steps else disk.workplace ++ steps)

/-- The place that a path leads to. The directories on the way must exist, and so must the place
itself unless the path ends in a name. -/
def locate (disk : Disk) (path : Path) : Except FileError (List FileName) := do
  let place ← disk.directory path
  match path.lastName? with
  | some name => do
    checkName name
    return place ++ [name]
  | none => return place

/-- What stands at the place that a path leads to. A path that ends in a slash must lead to a
directory. -/
def lookUp (disk : Disk) (path : Path) : Except FileError (Tree Leaf) := do
  match disk.get? (← disk.locate path) with
  | some (.dir entries) => return .dir entries
  | some (.leaf leaf) => if path.endsInSlash then throw .notDirectory else return .leaf leaf
  | none => throw .notFound

/-! ### Contents -/

/-- What a leaf holds. -/
def content (disk : Disk) : Leaf → Bytes
  | .regular number => disk.contents number
  | .device => []

/-- The disk with another content of a leaf. -/
def store (disk : Disk) (leaf : Leaf) (content : Bytes) : Disk :=
  match leaf with
  | .regular number =>
    { disk with contents := fun other => if other = number then content else disk.contents other }
  | .device => disk

/-- A number that no file has. -/
def freshNumber (disk : Disk) : Nat := (disk.root.leaves.filterMap Leaf.number?).foldr Nat.max 0 + 1

/-! ### Operations -/

/-- What the next operation that changes the disk runs into. -/
def trouble? (disk : Disk) : Option Trouble := disk.troubles.head?.join

/-- The disk before the operation after the next one that changes it. -/
def tick (disk : Disk) : Disk := { disk with troubles := disk.troubles.tail }

/-- An operation that changes the disk if it goes through. -/
def attempt {α : Type} (operation : Disk → Except FileError (α × Disk)) (disk : Disk) :
    Except FileError α × Disk :=
  match disk.trouble? with
  | some trouble => (.error trouble.error, disk.tick)
  | none =>
    match operation disk.tick with
    | .ok (result, changed) => (.ok result, changed)
    | .error error => (.error error, disk.tick)

/-- The content of a file. -/
def readFile (path : Path) (disk : Disk) : Except FileError Bytes := do
  match ← disk.lookUp path with
  | .leaf leaf => return disk.content leaf
  | .dir _ => throw .isDirectory

/-- The disk with a new directory. -/
def makeDir (path : Path) (disk : Disk) : Except FileError (Unit × Disk) := do
  let place ← disk.locate path
  match disk.get? place with
  | some _ => throw .alreadyExists
  | none => return ((), disk.put place (.dir []))

/-- Opens a file to be written: it is emptied if it is there, and made if not. A path that ends in
a slash cannot name a file. -/
def openFile (path : Path) (disk : Disk) : Except FileError (Leaf × Disk) := do
  if path.endsInSlash then
    let _ ← disk.directory path
    throw .isDirectory
  let place ← disk.locate path
  match disk.get? place with
  | some (.dir _) => throw .isDirectory
  | some (.leaf leaf) => return (leaf, disk.store leaf [])
  | none =>
    let leaf := .regular disk.freshNumber
    return (leaf, (disk.put place (.leaf leaf)).store leaf [])

/-- Writes the content of a file that was opened. If there is trouble, only a beginning of it is
written. -/
def writeLeaf (leaf : Leaf) (content : Bytes) (disk : Disk) : Except FileError Unit × Disk :=
  match disk.trouble? with
  | some trouble => (.error trouble.error, disk.tick.store leaf (content.take trouble.written))
  | none => (.ok (), disk.tick.store leaf content)

/-- A directory stands at the path. -/
def isDir (path : Path) (disk : Disk) : Bool :=
  match disk.lookUp path with
  | .ok tree => tree.isDir
  | .error _ => false

/-- A file is opened by one step and written by another one. -/
instance : FileStore (Stepwise Disk) where
  readFile path := .act fun disk => (readFile path disk, disk)
  writeFile path content := do
    match ← Stepwise.act (attempt (openFile path)) with
    | .ok leaf => .act (writeLeaf leaf content)
    | .error error => return .error error
  makeDir path := .act (attempt (makeDir path))
  isDir path := .act fun disk => (isDir path disk, disk)

/-! ### Walks -/

/-- The first name comes before the second or is the same, by their bytes. -/
def nameLE (a b : FileName) : Bool := a ≤ b

/-- Why a directory cannot be opened by a path that leads to it. -/
def refusal? (path : Path) : Option FileError :=
  match path.validate with
  | .ok () => none
  | .error error => some error

mutual

/-- What a walk through a tree meets that stands at a path. -/
def walkTree (path : Path) : Tree Leaf → List (Except WalkError WalkEntry)
  | .leaf leaf => [.ok ⟨path, leaf.isRegular⟩]
  | .dir entries =>
    .ok ⟨path, false⟩ ::
      match refusal? path with
      | some error => [.error ⟨path, error⟩]
      | none => ((walkEntries path entries).mergeSort fun a b => nameLE a.1 b.1).flatMap Prod.snd

/-- The walk through each entry of a directory. -/
def walkEntries (path : Path) :
    List (FileName × Tree Leaf) → List (FileName × List (Except WalkError WalkEntry))
  | [] => []
  | (name, tree) :: rest => (name, walkTree (path.join ⟨name⟩) tree) :: walkEntries path rest

end

/-- What a walk meets at and below a path. -/
def walk (path : Path) (disk : Disk) : List (Except WalkError WalkEntry) :=
  match disk.lookUp path with
  | .ok tree => walkTree path tree
  | .error error => [.error ⟨path, error⟩]

/-- Walks through the tree of a disk. -/
@[reducible]
def walker : DirectoryWalker (Stepwise Disk) where
  walk path := .act fun disk => (walk path disk, disk)

/-- Workers of whom each one waits for the one before. -/
@[reducible]
def oneByOne : Workers (Stepwise Disk) where
  start _ := return .ok ()
  mapAll action items := items.mapM action

end Disk

end ClassStub
