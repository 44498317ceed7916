import ClassStub.Files.Path

/-!
# Directory trees

A leaf with its content, or a directory with named entries. A place in a tree is given by the
names that lead to it.
-/

namespace ClassStub

/-- A leaf or a directory. -/
inductive Tree (α : Type) where
  | leaf (content : α)
  | dir (entries : List (FileName × Tree α))
  deriving Inhabited

namespace Tree

variable {α : Type}

/-- A directory stands at the top of the tree. -/
def isDir : Tree α → Bool
  | dir _ => true
  | leaf _ => false

/-! ### Places -/

/-- What stands at a place. -/
def get? : List FileName → Tree α → Option (Tree α)
  | [], tree => some tree
  | name :: names, dir entries => (entries.lookup name).bind (get? names)
  | _ :: _, leaf _ => none

/-- The entries of a directory with one of them put in place or added. -/
def setEntry (entries : List (FileName × Tree α)) (name : FileName) (tree : Tree α) :
    List (FileName × Tree α) :=
  if (entries.lookup name).isSome then
    entries.map fun entry => if entry.1 == name then (name, tree) else entry
  else
    entries ++ [(name, tree)]

/-- The tree with something put at a place. Missing directories on the way are made; nothing can
be put below a leaf. -/
def put (tree : Tree α) (names : List FileName) (new : Tree α) : Tree α :=
  match names, tree with
  | [], _ => new
  | name :: names, dir entries =>
    dir (setEntry entries name (put ((entries.lookup name).getD (dir [])) names new))
  | _ :: _, leaf content => leaf content

mutual

/-- The contents of all leaves. -/
def leaves : Tree α → List α
  | leaf content => [content]
  | dir entries => leavesOfEntries entries

/-- The contents of the leaves of all entries of a directory. -/
def leavesOfEntries : List (FileName × Tree α) → List α
  | [] => []
  | (_, tree) :: rest => leaves tree ++ leavesOfEntries rest

end

end Tree

end ClassStub
