import ClassStub.Proofs.Moves

/-!
# What operations do to a disk

The operations on a disk, stated in terms of what stands at each place of it (`Disk.node?`) and of
what the regular files hold (`Disk.contents`).

A path leads to a place by its moves, from the root or from the working directory
(`Disk.placeOf`), if these can be gone (`Disk.locate_cases`). So a file that is read is the one at
the place of the path (`Disk.readFile_eq_ok_iff`), and what is made or opened stands at the place of
the path (`Disk.makeDir_eq_ok_iff`, `Disk.openFile_eq_ok_iff`). Everything else stays as it was.

All this needs a working directory to start from (`Disk.HasWorkplace`).
-/

namespace ClassStub

open FileName

/-- A name that is short enough to be on a disk. -/
structure IsDiskName (name : FileName) : Prop extends IsFileName name where
  short : name.length ≤ maxNameBytes

instance (name : FileName) : Decidable (IsDiskName name) :=
  decidable_of_iff (IsFileName name ∧ name.length ≤ maxNameBytes)
    ⟨fun h => ⟨h.1, h.2⟩, fun h => ⟨h.toIsFileName, h.short⟩⟩

namespace Disk

/-! ### Paths -/

/-- What stands at a place of the disk. -/
def node? (disk : Disk) (place : List FileName) : Option (Node Leaf) := disk.root.node? place

/-- The working directory is there. -/
structure HasWorkplace (disk : Disk) : Prop where
  isDir : disk.node? disk.workplace = some .dir
  names : ∀ name ∈ disk.workplace, IsDiskName name

/-- The place that a path starts from. -/
def start (disk : Disk) (path : Path) : List FileName :=
  if path.isAbsolute then [] else disk.workplace

/-- The place to which a path leads if it is followed without a look at the disk. -/
def placeOf (disk : Disk) (path : Path) : List FileName :=
  path.moves.foldl move (disk.start path)

variable {disk : Disk} {path : Path} {place : List FileName} {name : FileName}

/-- Paths start from a directory. -/
theorem HasWorkplace.start (h : disk.HasWorkplace) (path : Path) :
    disk.node? (disk.start path) = some .dir := by
  rw [Disk.start]
  split
  case isTrue =>
    by_cases hnil : disk.workplace = []
    · exact hnil ▸ h.isDir
    · have hbelow : disk.root.node? ([] ++ disk.workplace) = some .dir := h.isDir
      exact Tree.node?_of_append hbelow hnil
  case isFalse => exact h.isDir

/-- The working directory is where a path starts that does not start at the root. -/
private theorem follow_start (h : disk.HasWorkplace) (path : Path) (steps : List FileName) :
    follow disk.root [] (if path.isAbsolute then steps else disk.workplace ++ steps) =
      reach disk.root (disk.start path) (steps.filter (· != here)) := by
  have hleads : Leads disk.root [] := True.intro
  rw [follow_eq_reach hleads, start]
  cases path.isAbsolute with
  | true => rfl
  | false =>
    have hroot : disk.root.node? [] = some .dir := h.start ⟨[slash]⟩
    have hkept : disk.workplace.filter (· != here) = disk.workplace :=
      List.filter_eq_self.2 fun name hmem => by simpa using (h.names name hmem).ne_here
    have hup : up ∉ disk.workplace := fun hmem => (h.names _ hmem).ne_up rfl
    -- the way to the working directory leads to it, as it is there
    have hreach : reach disk.root [] disk.workplace = .ok disk.workplace := by
      refine (reach_eq_ok_iff hroot).2 ⟨?_, ?_, ?_⟩
      · rw [foldl_move_of_names hup, List.nil_append]
      · intro name hmem
        exact checkName_eq_ok_iff.2 (h.names name hmem).short
      · intro visit hvisit
        obtain ⟨above, below, heq, -, rfl⟩ := (mem_visits_of_names hup).1 hvisit
        have hdir := h.isDir
        rw [node?, heq] at hdir
        by_cases hbelow : below = []
        · rwa [hbelow, List.append_nil] at hdir
        · exact Tree.node?_of_append hdir hbelow
    rw [if_neg Bool.false_ne_true, if_neg Bool.false_ne_true, List.filter_append, hkept,
      reach_append]
    change reach disk.root [] disk.workplace >>= _ = _
    rw [hreach]
    rfl

/-- The directory in which a path ends, apart from its last name. -/
private theorem directory_eq (h : disk.HasWorkplace) (hvalid : path.validate = .ok ()) :
    disk.directory path = reach disk.root (disk.start path) path.front := by
  rw [directory, hvalid]
  exact follow_start h path _

/-- A path that does not end in a name leads where its moves lead. -/
theorem locate_of_none (h : disk.HasWorkplace) (hvalid : path.validate = .ok ())
    (hname : path.lastName? = none) :
    disk.locate path = reach disk.root (disk.start path) path.moves := by
  rw [locate, directory_eq h hvalid, hname, Path.front_eq_moves hname]
  cases reach disk.root (disk.start path) path.moves <;> rfl

/-- A path that ends in a name leads to an entry of the directory in front of it. -/
theorem locate_of_name (h : disk.HasWorkplace) (hvalid : path.validate = .ok ())
    (hname : path.lastName? = some name) :
    disk.locate path = (do
      let place ← reach disk.root (disk.start path) path.front
      checkName name
      return place ++ [name]) := by
  rw [locate, directory_eq h hvalid, hname]

/-- Behind directories that are there, only the last name of a path can keep it from leading to a
place. -/
theorem locate_of_reach (h : disk.HasWorkplace) (hvalid : path.validate = .ok ())
    (hname : path.lastName? = some name) {above : List FileName}
    (hreach : reach disk.root (disk.start path) path.front = .ok above) :
    disk.locate path = (checkName name).map fun _ => above ++ [name] := by
  rw [locate_of_name h hvalid hname, hreach]
  cases checkName name <;> rfl

/-- A path that cannot be used leads nowhere. -/
theorem locate_of_refused {error : FileError} (hrefused : path.validate = .error error) :
    disk.locate path = .error error := by
  rw [locate, directory, hrefused]
  rfl

/-- A path that leads anywhere can be used. -/
theorem validate_of_locate (h : disk.locate path = .ok place) : path.validate = .ok () := by
  cases hvalid : path.validate with
  | ok _ => rfl
  | error error => cases h.symm.trans (locate_of_refused hvalid)

theorem placeOf_of_name (hname : path.lastName? = some name) :
    disk.placeOf path = path.front.foldl move (disk.start path) ++ [name] := by
  rw [placeOf, Path.moves_eq_front_append, hname, Option.toList_some, List.foldl_concat,
    move_of_ne (Path.ne_up_of_lastName? hname)]

/-- Where a path leads: to a directory by all of its moves, or to a name in the directory to which
the moves before that name lead. -/
theorem locate_cases (h : disk.HasWorkplace) (hlocate : disk.locate path = .ok place) :
    (path.lastName? = none ∧ reach disk.root (disk.start path) path.moves = .ok place ∧
        disk.node? place = some .dir) ∨
      ∃ above name, path.lastName? = some name ∧ place = above ++ [name] ∧
        reach disk.root (disk.start path) path.front = .ok above ∧ checkName name = .ok () := by
  have hvalid := validate_of_locate hlocate
  cases hname : path.lastName? with
  | none =>
    rw [locate_of_none h hvalid hname] at hlocate
    exact .inl ⟨rfl, hlocate, node?_of_reach (h.start path) hlocate⟩
  | some name =>
    rw [locate_of_name h hvalid hname, bind_eq_ok_iff] at hlocate
    obtain ⟨above, habove, hlocate⟩ := hlocate
    rw [bind_unit_eq_ok_iff, pure_eq_ok_iff] at hlocate
    exact .inr ⟨above, name, rfl, hlocate.2.symm, habove, hlocate.1⟩

/-- A path leads to the place that can be told from it alone, if it leads anywhere. -/
theorem locate_eq_ok (h : disk.HasWorkplace) (hlocate : disk.locate path = .ok place) :
    place = disk.placeOf path := by
  obtain ⟨-, hreach, -⟩ | ⟨above, name, hname, rfl, hreach, -⟩ := locate_cases h hlocate
  · exact ((reach_eq_ok_iff (h.start path)).1 hreach).1
  · rw [placeOf_of_name hname, ← ((reach_eq_ok_iff (h.start path)).1 hreach).1]

/-- What is not a directory is found in a directory, under the last name of the path. -/
theorem locate_name (h : disk.HasWorkplace) (hlocate : disk.locate path = .ok place)
    (hnot : disk.node? place ≠ some .dir) :
    ∃ above name, path.lastName? = some name ∧ place = above ++ [name] ∧
      reach disk.root (disk.start path) path.front = .ok above ∧ checkName name = .ok () ∧
        disk.node? above = some .dir := by
  obtain ⟨-, -, hdir⟩ | ⟨above, name, hname, hplace, hreach, hshort⟩ := locate_cases h hlocate
  · exact absurd hdir hnot
  · exact ⟨above, name, hname, hplace, hreach, hshort, node?_of_reach (h.start path) hreach⟩

/-- One can go to a place exactly if a directory is found there. -/
theorem reach_eq_ok_iff_locate (h : disk.HasWorkplace) (hvalid : path.validate = .ok ()) :
    reach disk.root (disk.start path) path.moves = .ok place ↔
      disk.locate path = .ok place ∧ disk.node? place = some .dir := by
  cases hname : path.lastName? with
  | none =>
    rw [locate_of_none h hvalid hname]
    exact ⟨fun hreach => ⟨hreach, node?_of_reach (h.start path) hreach⟩, And.left⟩
  | some name =>
    have hne := Path.ne_up_of_lastName? hname
    rw [Path.moves_eq_front_append, hname, Option.toList_some, reach_concat, bind_eq_ok_iff,
      locate_of_name h hvalid hname, bind_eq_ok_iff]
    constructor
    · rintro ⟨above, habove, hgo⟩
      obtain ⟨rfl, hdir⟩ := go_eq_ok_iff.1 hgo
      rw [move_of_ne hne] at hdir ⊢
      refine ⟨⟨above, habove, ?_⟩, (hdir hne).2⟩
      rw [(hdir hne).1]
      rfl
    · rintro ⟨⟨above, habove, hplace⟩, hdir⟩
      rw [bind_unit_eq_ok_iff, pure_eq_ok_iff] at hplace
      obtain ⟨hshort, rfl⟩ := hplace
      exact ⟨above, habove, go_eq_ok_iff.2 ⟨(move_of_ne hne above).symm, fun _ => ⟨hshort, hdir⟩⟩⟩

/-! ### Looking up -/

/-- A directory is found by every path that leads to its place. -/
theorem lookUp_eq_dir_iff {entries : List (FileName × Tree Leaf)} :
    disk.lookUp path = .ok (.dir entries) ↔ ∃ place,
      disk.locate path = .ok place ∧ disk.root.get? place = some (.dir entries) := by
  rw [lookUp, bind_eq_ok_iff]
  refine exists_congr fun place => and_congr_right fun _ => ?_
  rw [get?]
  cases disk.root.get? place with
  | none => exact ⟨(nomatch ·), (nomatch ·)⟩
  | some found =>
    cases found with
    | dir entries' => simp [pure_eq_ok_iff]
    | leaf leaf =>
      dsimp only
      cases path.endsInSlash
      · simp [pure_eq_ok_iff]
      · exact ⟨(nomatch ·), (nomatch ·)⟩

/-- A leaf is found by the paths that lead to its place and do not end in a slash. -/
theorem lookUp_eq_leaf_iff {leaf : Leaf} :
    disk.lookUp path = .ok (.leaf leaf) ↔ path.endsInSlash = false ∧ ∃ place,
      disk.locate path = .ok place ∧ disk.node? place = some (.leaf leaf) := by
  rw [lookUp, bind_eq_ok_iff]
  constructor
  · rintro ⟨place, hlocate, hfound⟩
    rw [get?] at hfound
    cases hget : disk.root.get? place with
    | none =>
      rw [hget] at hfound
      cases hfound
    | some found =>
      rw [hget] at hfound
      cases found with
      | dir entries =>
        cases hfound
      | leaf leaf' =>
        dsimp only at hfound
        split at hfound
        case isTrue => cases hfound
        case isFalse hends =>
          cases hfound
          exact ⟨Bool.not_eq_true _ ▸ hends, place, hlocate, Tree.node?_eq_leaf_iff.2 hget⟩
  · rintro ⟨hends, place, hlocate, hnode⟩
    -- without a slash at the end, the leaf is returned
    refine ⟨place, hlocate, ?_⟩
    rw [get?, Tree.node?_eq_leaf_iff.1 hnode]
    simp [hends, pure_eq_ok_iff]

/-- A directory stands at a path if all its moves lead through directories. -/
theorem isDir_iff (h : disk.HasWorkplace) (hvalid : path.validate = .ok ()) :
    isDir path disk = true ↔
      ∃ place, reach disk.root (disk.start path) path.moves = .ok place := by
  have hdir : isDir path disk = true ↔ ∃ entries, disk.lookUp path = .ok (.dir entries) := by
    rw [isDir]
    cases disk.lookUp path with
    | error error => simp
    | ok found => cases found <;> simp [Tree.isDir]
  simp only [hdir, lookUp_eq_dir_iff, reach_eq_ok_iff_locate h hvalid, node?,
    Tree.node?_eq_dir_iff]
  exact ⟨fun ⟨entries, place, hlocate, hget⟩ => ⟨place, hlocate, entries, hget⟩,
    fun ⟨place, hlocate, entries, hget⟩ => ⟨entries, place, hlocate, hget⟩⟩

/-- No directory stands at a path that cannot be used. -/
theorem isDir_of_refused {error : FileError} (hrefused : path.validate = .error error) :
    isDir path disk = false := by
  rw [isDir, lookUp, locate_of_refused hrefused]
  rfl

/-- The file that is read is the one at the place of the path. -/
theorem readFile_eq_ok_iff {content : Bytes} :
    readFile path disk = .ok content ↔ path.endsInSlash = false ∧ ∃ place leaf,
      disk.locate path = .ok place ∧ disk.node? place = some (.leaf leaf) ∧
        content = disk.content leaf := by
  have hread : readFile path disk = .ok content ↔
      ∃ leaf, disk.lookUp path = .ok (.leaf leaf) ∧ content = disk.content leaf := by
    rw [readFile]
    cases disk.lookUp path with
    | error error => exact ⟨(nomatch ·), fun ⟨_, h, _⟩ => nomatch h⟩
    | ok found =>
      cases found with
      | dir entries => exact ⟨(nomatch ·), fun ⟨_, h, _⟩ => nomatch h⟩
      | leaf leaf =>
        change Except.ok (disk.content leaf) = _ ↔ _
        simp [eq_comm]
  rw [hread]
  constructor
  · rintro ⟨leaf, hfound, hcontent⟩
    obtain ⟨hends, place, hlocate, hnode⟩ := lookUp_eq_leaf_iff.1 hfound
    exact ⟨hends, place, leaf, hlocate, hnode, hcontent⟩
  · rintro ⟨hends, place, leaf, hlocate, hnode, hcontent⟩
    exact ⟨leaf, lookUp_eq_leaf_iff.2 ⟨hends, place, hlocate, hnode⟩, hcontent⟩

/-- Reading by a path that cannot be used fails for that reason. -/
theorem readFile_of_refused {error : FileError} (hrefused : path.validate = .error error) :
    readFile path disk = .error error := by
  rw [readFile, lookUp, locate_of_refused hrefused]
  rfl

/-! ### Making and opening -/

/-- A directory is made where nothing is. -/
theorem makeDir_eq_ok_iff {changed : Disk} :
    makeDir path disk = .ok ((), changed) ↔ ∃ place, disk.locate path = .ok place ∧
      disk.node? place = none ∧ changed = disk.put place (.dir []) := by
  rw [makeDir, bind_eq_ok_iff]
  refine exists_congr fun place => and_congr_right fun _ => ?_
  rw [get?, node?, Tree.node?]
  cases disk.root.get? place with
  | none =>
    change Except.ok ((), _) = _ ↔ _
    simp [eq_comm]
  | some found =>
    constructor
    · intro h
      cases h
    · rintro ⟨h, -⟩
      cases h

/-- A directory is not made if the path leads nowhere or something is at its place. -/
theorem makeDir_eq_error_iff {error : FileError} :
    makeDir path disk = .error error ↔ disk.locate path = .error error ∨
      ∃ place, disk.locate path = .ok place ∧ disk.node? place ≠ none ∧ error = .alreadyExists := by
  rw [makeDir, bind_eq_error_iff]
  refine or_congr_right (exists_congr fun place => and_congr_right fun _ => ?_)
  rw [get?, node?, Tree.node?]
  cases disk.root.get? place with
  | none =>
    constructor
    · intro h
      cases h
    · rintro ⟨h, -⟩
      exact absurd rfl h
  | some found =>
    change Except.error FileError.alreadyExists = _ ↔ _
    simp [eq_comm]

/-- A path that ends in a slash opens nothing, wherever it leads. -/
private theorem openFile_ne_ok_of_slash (hends : path.endsInSlash = true)
    {opened : Leaf × Disk} : openFile path disk ≠ .ok opened := by
  rw [openFile, if_pos hends]
  intro h
  obtain ⟨_, -, hthrow⟩ := bind_eq_ok_iff.1 h
  cases hthrow

/-- A path that leads nowhere opens nothing. -/
private theorem openFile_of_lost (hends : path.endsInSlash = false) {error : FileError}
    (hlost : disk.locate path = .error error) : openFile path disk = .error error := by
  rw [openFile, hends, if_neg Bool.false_ne_true, hlost]
  rfl

/-- A path that leads to a place is opened by what stands there. -/
private theorem openFile_of_locate (hends : path.endsInSlash = false)
    (hlocate : disk.locate path = .ok place) :
    openFile path disk = match disk.get? place with
      | some (.dir _) => throw .isDirectory
      | some (.leaf leaf) => return (leaf, disk.store leaf [])
      | none =>
        let leaf := .regular disk.freshNumber
        return (leaf, (disk.put place (.leaf leaf)).store leaf []) := by
  rw [openFile, hends, if_neg Bool.false_ne_true, hlocate]
  rfl

/-- A file is emptied if it is there, and made where nothing is. -/
theorem openFile_eq_ok_iff {leaf : Leaf} {changed : Disk} :
    openFile path disk = .ok (leaf, changed) ↔ path.endsInSlash = false ∧ ∃ place,
      disk.locate path = .ok place ∧
        ((disk.node? place = some (.leaf leaf) ∧ changed = disk.store leaf []) ∨
          (disk.node? place = none ∧ leaf = .regular disk.freshNumber ∧
            changed = (disk.put place (.leaf leaf)).store leaf [])) := by
  constructor
  · intro hopen
    have hends : path.endsInSlash = false :=
      Bool.eq_false_iff.2 fun hslash => openFile_ne_ok_of_slash hslash hopen
    cases hlocate : disk.locate path with
    | error error =>
      rw [openFile_of_lost hends hlocate] at hopen
      cases hopen
    | ok place =>
      rw [openFile_of_locate hends hlocate] at hopen
      refine ⟨hends, place, rfl, ?_⟩
      split at hopen <;> cases hopen
      case h_2 hget => exact .inl ⟨Tree.node?_eq_leaf_iff.2 hget, rfl⟩
      case h_3 hget => exact .inr ⟨Option.map_eq_none_iff.2 hget, rfl, rfl⟩
  · rintro ⟨hends, place, hlocate, ⟨hnode, rfl⟩ | ⟨hnode, rfl, rfl⟩⟩
    · rw [openFile_of_locate hends hlocate, get?, Tree.node?_eq_leaf_iff.1 hnode]
      rfl
    · rw [openFile_of_locate hends hlocate, get?, Option.map_eq_none_iff.1 hnode]
      rfl

/-- A path that does not end in a slash cannot be opened if it leads nowhere or to a directory. -/
theorem openFile_eq_error_iff (hends : path.endsInSlash = false) {error : FileError} :
    openFile path disk = .error error ↔ disk.locate path = .error error ∨
      ∃ place, disk.locate path = .ok place ∧ disk.node? place = some .dir ∧
        error = .isDirectory := by
  constructor
  · intro hfails
    cases hlocate : disk.locate path with
    | error lost =>
      rw [openFile_of_lost hends hlocate] at hfails
      cases hfails
      exact .inl rfl
    | ok place =>
      rw [openFile_of_locate hends hlocate] at hfails
      split at hfails <;> cases hfails
      case h_1 entries hget =>
        exact .inr ⟨place, rfl, Tree.node?_eq_dir_iff.2 ⟨entries, hget⟩, rfl⟩
  · rintro (hlost | ⟨place, hlocate, hnode, rfl⟩)
    · exact openFile_of_lost hends hlost
    · obtain ⟨entries, hget⟩ := Tree.node?_eq_dir_iff.1 hnode
      rw [openFile_of_locate hends hlocate, get?, hget]
      rfl

/-- What is put where a path leads stands there afterwards, and everything else is as it was. -/
theorem node?_put (h : disk.HasWorkplace) (hlocate : disk.locate path = .ok place)
    (hnot : disk.node? place ≠ some .dir) {new : Tree Leaf}
    (hnew : ∀ names, names ≠ [] → new.node? names = none) (other : List FileName) :
    (disk.put place new).node? other =
      if other = place then some new.top else disk.node? other := by
  obtain ⟨directory, name, -, rfl, -, -, hdir⟩ := locate_name h hlocate hnot
  refine Tree.node?_put hnew ?_ hnot other
  intro above below heq hbelow
  rw [← List.dropLast_append_getLast hbelow, ← List.append_assoc] at heq
  have hsplit := (List.append_inj' heq rfl).1
  rw [node?, hsplit] at hdir
  by_cases hnil : below.dropLast = []
  · rwa [hnil, List.append_nil] at hdir
  · exact Tree.node?_of_append hdir hnil

/-- A new directory changes what stands at its own place only. -/
theorem node?_put_dir (h : disk.HasWorkplace) (hlocate : disk.locate path = .ok place)
    (hnone : disk.node? place = none) (other : List FileName) :
    (disk.put place (.dir [])).node? other =
      if other = place then some .dir else disk.node? other := by
  refine node?_put h hlocate (by simp [hnone]) ?_ other
  intro names hnames
  obtain ⟨first, rest, rfl⟩ := List.exists_cons_of_ne_nil hnames
  rfl

/-- A new leaf changes what stands at its own place only. -/
theorem node?_put_leaf (h : disk.HasWorkplace) (hlocate : disk.locate path = .ok place)
    (hnone : disk.node? place = none) (leaf : Leaf) (other : List FileName) :
    (disk.put place (.leaf leaf)).node? other =
      if other = place then some (.leaf leaf) else disk.node? other := by
  refine node?_put h hlocate (by simp [hnone]) ?_ other
  intro names hnames
  obtain ⟨first, rest, rfl⟩ := List.exists_cons_of_ne_nil hnames
  rfl

/-! ### Contents -/

/-- Writing to a leaf moves nothing. -/
@[simp] theorem node?_store (disk : Disk) (leaf : Leaf) (content : Bytes) :
    (disk.store leaf content).node? = disk.node? := by
  cases leaf <;> rfl

@[simp] theorem workplace_store (disk : Disk) (leaf : Leaf) (content : Bytes) :
    (disk.store leaf content).workplace = disk.workplace := by
  cases leaf <;> rfl

@[simp] theorem troubles_store (disk : Disk) (leaf : Leaf) (content : Bytes) :
    (disk.store leaf content).troubles = disk.troubles := by
  cases leaf <;> rfl

/-- Writing to a file changes the contents of this file only. -/
theorem contents_store (disk : Disk) (number : Nat) (content : Bytes) (other : Nat) :
    (disk.store (.regular number) content).contents other =
      if other = number then content else disk.contents other := rfl

/-- A new file is none of those that are there. -/
theorem ne_freshNumber {number : Nat} (hnode : disk.node? place = some (.leaf (.regular number))) :
    number ≠ disk.freshNumber := by
  have hmem : number ∈ disk.root.leaves.filterMap Leaf.number? :=
    List.mem_filterMap.2 ⟨.regular number, Tree.mem_leaves_of_node? hnode, rfl⟩
  have hle : ∀ {numbers : List Nat}, number ∈ numbers → number ≤ numbers.foldr Nat.max 0 := by
    intro numbers hmem
    induction numbers with
    | nil => exact absurd hmem List.not_mem_nil
    | cons first rest ih =>
      obtain rfl | hrest := List.mem_cons.1 hmem
      · exact Nat.le_max_left _ _
      · exact Nat.le_trans (ih hrest) (Nat.le_max_right _ _)
  rw [freshNumber]
  have := hle hmem
  omega

/-! ### Trouble -/

/-- An operation runs into trouble, it changes the disk, or it does not. -/
theorem attempt_cases {α : Type} (operation : Disk → Except FileError (α × Disk)) (disk : Disk) :
    (∃ trouble, disk.trouble? = some trouble ∧
        attempt operation disk = (.error trouble.error, disk.tick)) ∨
      (disk.trouble? = none ∧
        ((∃ result changed, operation disk.tick = .ok (result, changed) ∧
            attempt operation disk = (.ok result, changed)) ∨
          ∃ error, operation disk.tick = .error error ∧
            attempt operation disk = (.error error, disk.tick))) := by
  rw [attempt]
  cases htrouble : disk.trouble? with
  | some trouble => exact .inl ⟨trouble, rfl, rfl⟩
  | none =>
    refine .inr ⟨rfl, ?_⟩
    cases hoperation : operation disk.tick with
    | error error => exact .inr ⟨error, rfl, rfl⟩
    | ok result => exact .inl ⟨result.1, result.2, rfl, rfl⟩

/-- Without trouble, there is none later. -/
theorem tick_of_calm (h : disk.troubles = []) : disk.tick = disk ∧ disk.trouble? = none := by
  obtain ⟨root, contents, workplace, troubles⟩ := disk
  obtain rfl : troubles = [] := h
  exact ⟨rfl, rfl⟩

end Disk

end ClassStub
