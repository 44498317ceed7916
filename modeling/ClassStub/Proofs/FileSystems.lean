import ClassStub.Proofs.Creation

/-!
# What operations do to files

A file is not the same as a path that leads to it: there may be links, so that several paths lead to
one file, and a path may lead to something that is no regular file. `FileSystem` says what the
operations do to regular files, whatever their names are and however paths are followed. Reading and
making directories leave files as they are. Writing changes no file but the one that the path leads
to when it is done. If it fails, then it has failed before the file was opened or it has broken off,
and then a beginning of the content is in the file.

Disks are such systems (`Disk.fileSystem`). Their files are numbered, and a number may be at several
places.
-/

namespace ClassStub

open FileName FileStore Stepwise

/-- Regular files, and the paths that lead to them. -/
structure FileView (σ : Type) where
  /-- The regular files, apart from their names. -/
  File : Type
  /-- What a file holds, if it is there. -/
  content? : σ → File → Option Bytes
  /-- The regular file that a path leads to. -/
  leadsTo? : σ → Path → Option File

namespace FileView

variable {σ : Type} (view : FileView σ)

/-- The regular file that the path leads to, if it leads to one, holds the content. -/
def Holds (path : Path) (content : Bytes) (state : σ) : Prop :=
  ∀ file, view.leadsTo? state path = some file → view.content? state file = some content

/-- No regular file was made or changed, except the one that the path leads to. -/
def ChangesOnly (path : Path) (before after : σ) : Prop :=
  ∀ file, view.leadsTo? after path ≠ some file →
    view.content? after file = view.content? before file

/-- No regular file was made or changed. -/
def ChangesNothing (before after : σ) : Prop :=
  ∀ file, view.content? after file = view.content? before file

/-- What comes of writing a content by a path. If it fails, it may have broken off. -/
structure Writes (path : Path) (content : Bytes) (before : σ) (result : Except FileError Unit)
    (after : σ) : Prop where
  others : view.ChangesOnly path before after
  written : result = .ok () → path.lastName? ≠ none ∧ view.Holds path content after
  failed : ∀ error, result = .error error →
    view.ChangesNothing before after ∨ ∃ length, view.Holds path (content.take length) after

end FileView

/-- What operations do to regular files if nothing else is at work. A path that leads to a regular
file ends in a name, and so does one by which something is read or written. -/
structure FileSystem (σ : Type) [FileStore (Stepwise σ)] extends FileView σ where
  /-- The operations can work on the state. -/
  Sound : σ → Prop
  hasName : ∀ {state path file}, Sound state → leadsTo? state path = some file →
    path.lastName? ≠ none ∧ path.endsInSlash = false
  readFile_keeps : ∀ path {state}, Sound state →
    ((FileStore.readFile (m := Stepwise σ) path).run state).2 = state
  readFile_eq : ∀ {path state bytes}, Sound state →
    ((FileStore.readFile (m := Stepwise σ) path).run state).1 = .ok bytes →
      path.lastName? ≠ none ∧ path.endsInSlash = false ∧ toFileView.Holds path bytes state
  isDir_keeps : ∀ path {state}, Sound state →
    ((FileStore.isDir (m := Stepwise σ) path).run state).2 = state
  makeDir_sound : ∀ path {state}, Sound state →
    Sound ((FileStore.makeDir (m := Stepwise σ) path).run state).2
  makeDir_keeps : ∀ path {state}, Sound state → toFileView.ChangesNothing state
    ((FileStore.makeDir (m := Stepwise σ) path).run state).2
  writeFile_writes : ∀ path content {state}, Sound state → toFileView.Writes path content state
    ((FileStore.writeFile (m := Stepwise σ) path content).run state).1
    ((FileStore.writeFile (m := Stepwise σ) path content).run state).2

namespace Disk

variable {disk after : Disk} {path : Path} {place : List FileName} {leaf : Leaf}

/-- The number is that of some file. -/
def HasNumber (disk : Disk) (number : Nat) : Prop :=
  ∃ place, disk.node? place = some (.leaf (.regular number))

open Classical in
/-- What the file with a number holds. -/
noncomputable def contentOf? (disk : Disk) (number : Nat) : Option Bytes :=
  if disk.HasNumber number then some (disk.contents number) else none

/-- The number of the file that a path leads to. -/
def numberAt? (disk : Disk) (path : Path) : Option Nat :=
  match disk.lookUp path with
  | .ok (.leaf leaf) => leaf.number?
  | _ => none

/-- The files of a disk are its numbers. -/
noncomputable def fileView : FileView Disk := ⟨Nat, contentOf?, numberAt?⟩

private theorem numberAt?_eq_some_iff {number : Nat} : disk.numberAt? path = some number ↔
    path.endsInSlash = false ∧ ∃ place,
      disk.locate path = .ok place ∧ disk.node? place = some (.leaf (.regular number)) := by
  rw [← lookUp_eq_leaf_iff, numberAt?]
  cases disk.lookUp path with
  | error error => simp
  | ok found =>
    cases found with
    | dir entries => simp
    | leaf leaf => cases leaf <;> simp [Leaf.number?]

/-- A file is found by a path as long as nothing goes away. -/
private theorem locate_of_grows (h : disk.HasWorkplace) (hgrows : Grows disk after)
    (hlocate : disk.locate path = .ok place) : after.locate path = .ok place := by
  have hvalid := validate_of_locate hlocate
  have hworkplace := hgrows.hasWorkplace h
  obtain ⟨hname, hreach, -⟩ | ⟨above, name, hname, rfl, hreach, hshort⟩ := locate_cases h hlocate
  · rw [locate_of_none hworkplace hvalid hname, hgrows.start_eq]
    exact hgrows.reach_eq (h.start path) hreach
  · rw [locate_of_name hworkplace hvalid hname, hgrows.start_eq,
      hgrows.reach_eq (h.start path) hreach]
    change (checkName name >>= fun _ => _) = _
    rw [hshort]
    rfl

/-- What is not a directory is found by a path that ends in a name. -/
private theorem lastName?_of_locate (h : disk.HasWorkplace) (hlocate : disk.locate path = .ok place)
    (hnot : disk.node? place ≠ some .dir) : path.lastName? ≠ none := by
  obtain ⟨above, name, hname, -⟩ := locate_name h hlocate hnot
  simp [hname]

private theorem contentOf?_congr {number : Nat}
    (hnumber : after.HasNumber number ↔ disk.HasNumber number)
    (hcontents : after.contents number = disk.contents number) :
    after.contentOf? number = disk.contentOf? number := by
  rw [contentOf?, contentOf?, hcontents]
  by_cases hhas : disk.HasNumber number
  · rw [if_pos hhas, if_pos (hnumber.2 hhas)]
  · rw [if_neg hhas, if_neg (mt hnumber.1 hhas)]

/-- A directory is no file. -/
private theorem contentOf?_of_dir (hsets : Sets place .dir disk after)
    (hnone : disk.node? place = none)
    (number : Nat) : after.contentOf? number = disk.contentOf? number := by
  refine contentOf?_congr (exists_congr fun other => ?_) (hsets.contents number (by simp))
  rw [hsets.node?_eq]
  split
  case isTrue heq => simp [heq, hnone]
  case isFalse => rfl

/-- A leaf that is set at a place makes no difference to other files. -/
private theorem contentOf?_of_sets (hsets : Sets place (.leaf leaf) disk after)
    (hfound : disk.node? place = some (.leaf leaf) ∨ disk.node? place = none) {number : Nat}
    (hother : leaf ≠ .regular number) : after.contentOf? number = disk.contentOf? number := by
  refine contentOf?_congr (exists_congr fun other => ?_)
    (hsets.contents number fun heq => hother (Node.leaf.inj heq))
  rw [hsets.node?_eq]
  split
  case isTrue heq =>
    rw [heq]
    obtain hleaf | hnone := hfound
    · rw [hleaf]
    · simp [hnone, hother]
  case isFalse => rfl

private theorem contentOf?_eq_some {number : Nat}
    (hnode : disk.node? place = some (.leaf (.regular number))) :
    disk.contentOf? number = some (disk.contents number) := if_pos ⟨place, hnode⟩

/-! ### Disks as file systems -/

private theorem grows_makeDir (h : disk.HasWorkplace) (path : Path) :
    Grows disk (attempt (makeDir path) disk).2 := by
  obtain ⟨trouble, -, hrun⟩ | ⟨-, ⟨⟨⟩, made, hmake, hrun⟩ | ⟨error, -, hrun⟩⟩ :=
    attempt_cases (makeDir path) disk
  · rw [hrun]
    exact grows_tick disk
  · rw [hrun]
    obtain ⟨-, -, hnone, hsets, -⟩ := sets_makeDir h hmake
    exact hsets.grows (.inl hnone)
  · rw [hrun]
    exact grows_tick disk

private theorem contentOf?_makeDir (h : disk.HasWorkplace) (path : Path) (number : Nat) :
    (attempt (makeDir path) disk).2.contentOf? number = disk.contentOf? number := by
  obtain ⟨trouble, -, hrun⟩ | ⟨-, ⟨⟨⟩, made, hmake, hrun⟩ | ⟨error, -, hrun⟩⟩ :=
    attempt_cases (makeDir path) disk
  · rw [hrun]
    rfl
  · rw [hrun]
    obtain ⟨-, -, hnone, hsets, -⟩ := sets_makeDir h hmake
    exact contentOf?_of_dir hsets hnone number
  · rw [hrun]
    rfl

section Opened

variable {opened : Disk} (h : disk.HasWorkplace)
  (hopen : openFile path disk.tick = .ok (leaf, opened))

include h hopen

/-- What is written behind opening a file is found by its path, and nothing else has changed. -/
private theorem store_opened (bytes : Bytes) :
    (opened.tick.store leaf bytes).numberAt? path = leaf.number? ∧
    (∀ number, leaf ≠ .regular number →
      (opened.tick.store leaf bytes).contentOf? number = disk.contentOf? number) ∧
    ∀ number, leaf = .regular number →
      (opened.tick.store leaf bytes).contentOf? number = some bytes := by
  have htick : disk.tick.HasWorkplace := (grows_tick disk).hasWorkplace h
  obtain ⟨-, -, hfound, hsets⟩ := opens_openFile h hopen
  obtain ⟨hends, place, hlocate, -⟩ := openFile_eq_ok_iff.1 hopen
  obtain rfl : place = disk.tick.placeOf path := locate_eq_ok htick hlocate
  have hfree := hfound.imp_right IsNew.none
  have hopened : opened.node? (disk.tick.placeOf path) = some (.leaf leaf) :=
    (hsets.node?_eq _).trans (if_pos rfl)
  have hstore := sets_store hopened bytes
  -- the path leads to the place after all that was done
  have hgrows : Grows disk.tick (opened.tick.store leaf bytes) :=
    Grows.trans ⟨hsets.workplace, (hsets.grows hfree.symm).node?_eq⟩ (hstore.grows (.inr hopened))
  have hnode := (hstore.node?_eq _).trans (if_pos rfl)
  have hlookUp := lookUp_eq_leaf_iff.2 ⟨hends, _, locate_of_grows htick hgrows hlocate, hnode⟩
  refine ⟨?_, fun number hother => ?_, ?_⟩
  · rw [numberAt?, hlookUp]
  · exact (contentOf?_of_sets hstore (.inl hopened) hother).trans
      (contentOf?_of_sets hsets hfree hother)
  · rintro number rfl
    exact (contentOf?_eq_some hnode).trans (congrArg some (if_pos rfl))

/-- A file that was opened is written, or the writing breaks off. -/
private theorem writes_writeLeaf (content : Bytes) :
    fileView.Writes path content disk (writeLeaf leaf content opened).1
      (writeLeaf leaf content opened).2 := by
  have htick : disk.tick.HasWorkplace := (grows_tick disk).hasWorkplace h
  have hname : path.lastName? ≠ none := by
    obtain ⟨-, place, hlocate, hfound⟩ := openFile_eq_ok_iff.1 hopen
    refine lastName?_of_locate htick hlocate ?_
    obtain ⟨hnode, -⟩ | ⟨hnode, -⟩ := hfound <;> simp [hnode]
  have hregular : ∀ number, leaf.number? = some number → leaf = .regular number := by
    intro number hnumber
    cases leaf with
    | device => cases hnumber
    | regular _ => exact congrArg Leaf.regular (Option.some.inj hnumber)
  have hnumber : ∀ {number}, leaf.number? ≠ some number → leaf ≠ .regular number := by
    rintro number hne rfl
    exact hne rfl
  rw [writeLeaf]
  cases opened.trouble? with
  | none =>
    obtain ⟨hleads, hothers, hwritten⟩ := store_opened h hopen content
    refine ⟨fun number hne => hothers number (hnumber (hleads ▸ hne)), fun _ => ⟨hname, ?_⟩, ?_⟩
    · exact fun number hleads' => hwritten number (hregular number (hleads.symm.trans hleads'))
    · intro error herror
      cases herror
  | some trouble =>
    obtain ⟨hleads, hothers, hwritten⟩ := store_opened h hopen (content.take trouble.written)
    refine ⟨fun number hne => hothers number (hnumber (hleads ▸ hne)), ?_,
      fun _ _ => .inr ⟨trouble.written, ?_⟩⟩
    · intro hresult
      cases hresult
    · exact fun number hleads' => hwritten number (hregular number (hleads.symm.trans hleads'))

end Opened

private theorem run_writeFile_of_ok {opened : Disk} (content : Bytes)
    (hopen : attempt (openFile path) disk = (.ok leaf, opened)) :
    (FileStore.writeFile (m := Stepwise Disk) path content).run disk =
      writeLeaf leaf content opened := by
  change (Stepwise.act (attempt (openFile path)) >>= _).run disk = _
  rw [Stepwise.run_bind, Stepwise.run_act, hopen]
  rfl

private theorem run_writeFile_of_error {error : FileError} (content : Bytes)
    (hopen : attempt (openFile path) disk = (.error error, after)) :
    (FileStore.writeFile (m := Stepwise Disk) path content).run disk = (.error error, after) := by
  change (Stepwise.act (attempt (openFile path)) >>= _).run disk = _
  rw [Stepwise.run_bind, Stepwise.run_act, hopen]
  rfl

/-- A file that could not be opened is not there, or it is as it was. -/
private theorem writes_of_error (content : Bytes) (error : FileError) :
    fileView.Writes path content disk (.error error) disk.tick where
  others _ _ := rfl
  written h := by cases h
  failed _ _ := .inl fun _ => rfl

private theorem writes_writeFile (h : disk.HasWorkplace) (path : Path) (content : Bytes) :
    fileView.Writes path content disk
      ((FileStore.writeFile (m := Stepwise Disk) path content).run disk).1
      ((FileStore.writeFile (m := Stepwise Disk) path content).run disk).2 := by
  obtain ⟨trouble, -, hrun⟩ | ⟨-, ⟨leaf, opened, hopen, hrun⟩ | ⟨error, -, hrun⟩⟩ :=
    attempt_cases (openFile path) disk
  · rw [run_writeFile_of_error content hrun]
    exact writes_of_error content trouble.error
  · rw [run_writeFile_of_ok content hrun]
    exact writes_writeLeaf h hopen content
  · rw [run_writeFile_of_error content hrun]
    exact writes_of_error content error

/-- Disks are file systems as long as their working directory is there. -/
noncomputable def fileSystem : FileSystem Disk where
  toFileView := fileView
  Sound := HasWorkplace
  hasName h hleads := by
    obtain ⟨hends, place, hlocate, hnode⟩ := numberAt?_eq_some_iff.1 hleads
    exact ⟨lastName?_of_locate h hlocate (by simp [hnode]), hends⟩
  readFile_keeps _ _ _ := rfl
  readFile_eq {path disk bytes} h hread := by
    obtain ⟨hends, place, leaf, hlocate, hnode, rfl⟩ := readFile_eq_ok_iff.1 hread
    refine ⟨lastName?_of_locate h hlocate (by simp [hnode]), hends, fun number hleads => ?_⟩
    obtain ⟨-, place', hlocate', hnode'⟩ := numberAt?_eq_some_iff.1 hleads
    obtain rfl := Except.ok.inj (hlocate.symm.trans hlocate')
    obtain rfl := Node.leaf.inj (Option.some.inj (hnode.symm.trans hnode'))
    exact contentOf?_eq_some hnode
  isDir_keeps _ _ _ := rfl
  makeDir_sound path _ h := (grows_makeDir h path).hasWorkplace h
  makeDir_keeps path _ h := contentOf?_makeDir h path
  writeFile_writes path content _ h := writes_writeFile h path content

end Disk

end ClassStub
