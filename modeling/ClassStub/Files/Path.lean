import ClassStub.Text.Lossy

/-!
# Paths

A path is a string of bytes in which slashes separate the names of directories and of a file. No
encoding is prescribed for these bytes. Repeated slashes count as one, the step `.` stays where it
is, and the step `..` leads to the directory above.

The *file name* of a path is its last step, apart from steps `.` behind it, unless that step is
`..`. Its *extension* is what follows the last dot of the file name, provided that some byte
stands before that dot.
-/

namespace ClassStub

/-- The name of an entry of a directory, or a step of a path. -/
abbrev FileName := Bytes

namespace FileName

/-- The byte that separates names. -/
def slash : UInt8 := 0x2F

/-- The byte in front of an extension. -/
def dot : UInt8 := 0x2E

/-- The step that stays where it is. -/
def here : FileName := [dot]

/-- The step to the directory above. -/
def up : FileName := [dot, dot]

end FileName

open FileName

/-- The place of a file or directory, as it was written. -/
structure Path where
  bytes : Bytes
  deriving DecidableEq, Inhabited

namespace Path

/-- The path that is written as a text. -/
def ofText (text : String) : Path := ⟨utf8Bytes text⟩

/-- The text that is shown for a path. -/
def display (path : Path) : String := lossyText path.bytes

/-! ### Steps -/

/-- The pieces between the slashes of a string of bytes. -/
def pieces (bytes : Bytes) : List Bytes := bytes.splitOn slash

/-- The steps of a path, from the first directory to the last name. -/
def steps (path : Path) : List FileName := (pieces path.bytes).filter (!·.isEmpty)

/-- The steps of a path that change the place. -/
def moves (path : Path) : List FileName := path.steps.filter (· != here)

/-- The path starts at the root and not at the working directory. -/
def isAbsolute (path : Path) : Bool := path.bytes.head? == some slash

/-- The path ends in a slash, and so can only name a directory. -/
def endsInSlash (path : Path) : Bool := path.bytes.getLast? == some slash

/-- The path with slashes between some names. -/
def ofNames (names : List FileName) : Path := ⟨[slash].intercalate names⟩

/-- The path that leads on from a directory. A slash is put between the two unless the first is
empty or ends in one. A path from the root does not lead on from anything. -/
def join (path relative : Path) : Path :=
  if relative.isAbsolute then
    relative
  else if path.bytes.isEmpty || path.endsInSlash then
    ⟨path.bytes ++ relative.bytes⟩
  else
    ⟨path.bytes ++ slash :: relative.bytes⟩

/-- The path to a place below a directory, joined name by name. -/
def below (path : Path) (place : List FileName) : Path :=
  place.foldl (fun path name => path.join ⟨name⟩) path

/-! ### Paths relative to a directory -/

/-- What a path is compared by: the root if it starts there, the step `.` if it starts with that,
and its moves. -/
def components (path : Path) : List FileName :=
  (if path.isAbsolute then [[slash]] else path.steps.head?.toList.filter (· == here)) ++ path.moves

/-- The piece does not change the place. -/
def isIdle (piece : Bytes) : Bool := piece.isEmpty || piece == here

/-- The pieces behind some number of moves. -/
def dropMoves : Nat → List Bytes → List Bytes
  | 0, rest => rest
  | _ + 1, [] => []
  | n + 1, piece :: rest => if isIdle piece then dropMoves (n + 1) rest else dropMoves n rest

/-- What is left of a path behind a directory that it leads through. A directory without
components takes nothing off. -/
def stripPrefix? (path base : Path) : Option Path :=
  if base.components.isEmpty then
    some path
  else if base.components.isPrefixOf path.components then
    let rest := (dropMoves base.moves.length (pieces path.bytes)).dropWhile isIdle
    some (ofNames (rest.reverse.dropWhile isIdle).reverse)
  else
    none

/-! ### The directories above -/

/-- The beginning of a path that has the given number of bytes. -/
def upTo (path : Path) (length : Nat) : Path := ⟨path.bytes.take length⟩

/-- The lengths of those beginnings of a path that end with a step, where `before` bytes stand
before the pieces. A piece `.` is a step only where the path begins with it. -/
def stepEnds (before : Nat) : List Bytes → List Nat
  | [] => []
  | piece :: rest =>
    let upTo := before + piece.length
    let later := stepEnds (upTo + 1) rest
    if piece.isEmpty || (piece == here && before != 0) then later else upTo :: later

/-- The lengths of the beginnings of a path that lead to the directories on the way, without the
path itself, the nearest directory first. The slash of an absolute path is the last of them. -/
def parentEnds (path : Path) : List Nat :=
  (stepEnds 0 (pieces path.bytes)).reverse.tail ++ if path.isAbsolute then [1] else []

/-! ### File names and extensions -/

/-- The file name of a path. -/
def fileName? (path : Path) : Option FileName := path.moves.getLast?.filter (· != up)

/-- Cuts a file name at its last dot, which is not the first byte. -/
def splitExtension? (name : FileName) : Option (Bytes × Bytes) :=
  match name.reverse.dropWhile (· != dot) with
  | _ :: byte :: stem => some ((byte :: stem).reverse, (name.reverse.takeWhile (· != dot)).reverse)
  | _ => none

/-- The extension of a file name. -/
def extensionOf? (name : FileName) : Option Bytes := (splitExtension? name).map Prod.snd

/-- A file name without its extension. -/
def stemOf (name : FileName) : Bytes :=
  match splitExtension? name with
  | some (stem, _) => stem
  | none => name

/-- The extension of a path. -/
def extension? (path : Path) : Option Bytes := path.fileName?.bind extensionOf?

/-- Removes slashes and steps `.` from the end of a path that is given in reverse. -/
def trimReversed : Bytes → Bytes
  | [] => []
  | [byte] => if byte = slash then [] else [byte]
  | byte :: next :: rest =>
    if byte = slash then
      trimReversed (next :: rest)
    else if byte = dot ∧ next = slash then
      trimReversed rest
    else
      byte :: next :: rest

/-- What stands in front of the file name, the stem of the file name, and the given extension
behind a dot. A path without a file name stays as it is. -/
def setExtension (path : Path) (extension : Bytes) : Path :=
  match path.fileName? with
  | some name =>
    let front := (trimReversed path.bytes.reverse).drop name.length
    ⟨front.reverse ++ stemOf name ++ dot :: extension⟩
  | none => path

/-- The path without the letters of its extension. -/
def withoutExtension (path : Path) : Path :=
  match path.extension? with
  | some extension => ⟨path.bytes.take (path.bytes.length - extension.length)⟩
  | none => path

/-- The path with another extension. The old one is taken off first, which turns a name such as
`..class` into the step `..`; that has no extension to set. -/
def withExtension (path : Path) (extension : Bytes) : Path :=
  path.withoutExtension.setExtension extension

end Path

end ClassStub
