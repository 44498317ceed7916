import ClassStub.Proofs.MakingDirectories

/-!
# Creating a file

To create a file, the directories on the way to it are made first, and then the file is opened and
written. Like the making of directories, this fails for reasons that can be told beforehand
(`Disk.createFault?`): from the text of the path, from the files on the way, and from whether a
directory is, or will be, at the place itself.

A file that is opened is empty until it is written, and if the writing breaks off, only a beginning
of the content is there. That is the only way in which a file can be changed and not be written;
without trouble of the disk it does not happen (`Disk.safe_create`).
-/

namespace ClassStub

open FileName FileStore Stepwise

namespace Disk

/-- Creates a file behind the directories on the way to it. -/
def create (path : Path) (content : Bytes) : Stepwise Disk (Except FileError Unit) := do
  match ← makeParents path with
  | .ok () => FileStore.writeFile path content
  | .error error => return .error error

/-- Why a file cannot be created: because of the text of the path to its directory, of something
on the way, of its own path or name, or of a directory at its place. -/
def createFault? (disk : Disk) (path : Path) : Option FileError :=
  (wayFault? disk path path.parentEnds).or <|
  (refusal? path).or <|
  if path.lastName?.any fun name => maxNameBytes < name.length then
    some .nameTooLong
  else if disk.node? (disk.placeOf path) = some .dir ∨
      disk.placeOf path ∈ visits (disk.start path) path.front then
    some .isDirectory
  else
    none

variable {disk after : Disk} {path : Path} {name : FileName} {content : Bytes}

/-! ### Opening and writing -/

/-- No file has the leaf as yet. -/
structure IsNew (disk : Disk) (place : List FileName) (leaf : Leaf) : Prop where
  none : disk.node? place = none
  regular : ∃ number, leaf = .regular number
  fresh : ∀ other, disk.node? other ≠ some (.leaf leaf)

/-- A leaf was opened that stands in a directory. It was there before, or it is a new file. -/
structure Opens (path : Path) (leaf : Leaf) (before after : Disk) : Prop where
  valid : path.validate = .ok ()
  short : ∀ name, path.lastName? = some name → name.length ≤ maxNameBytes
  found : before.node? (before.placeOf path) = some (.leaf leaf) ∨
    IsNew before (before.placeOf path) leaf
  sets : Sets (before.placeOf path) (.leaf leaf) before after

/-- Writing sets a file to what it is, with another content. -/
theorem sets_store {place : List FileName} {leaf : Leaf}
    (hnode : disk.node? place = some (.leaf leaf)) (content : Bytes) :
    Sets place (.leaf leaf) disk (disk.tick.store leaf content) where
  workplace := workplace_store _ _ _
  troubles := troubles_store _ _ _
  node?_eq other := by
    rw [node?_store]
    split
    case isTrue heq => rw [heq, ← hnode]; rfl
    case isFalse => rfl
  contents number hne := by
    cases leaf with
    | device => rfl
    | regular other =>
      rw [contents_store, if_neg (by rintro rfl; exact hne rfl)]
      rfl

/-- A file that was opened is there, and it is empty. -/
theorem opens_openFile (h : disk.HasWorkplace) {leaf : Leaf}
    (hopen : openFile path disk.tick = .ok (leaf, after)) : Opens path leaf disk after := by
  have htick : disk.tick.HasWorkplace := (grows_tick disk).hasWorkplace h
  obtain ⟨-, place, hlocate, hfound⟩ := openFile_eq_ok_iff.1 hopen
  have hnot : disk.tick.node? place ≠ some .dir := by
    obtain ⟨hnode, -⟩ | ⟨hnode, -⟩ := hfound <;> simp [hnode]
  obtain ⟨above, name, hname, -, -, hshort, -⟩ := locate_name htick hlocate hnot
  obtain rfl := locate_eq_ok htick hlocate
  refine ⟨validate_of_locate hlocate, ?_, ?_, ?_⟩
  · intro name' hname'
    obtain rfl := Option.some.inj (hname.symm.trans hname')
    exact checkName_eq_ok_iff.1 hshort
  · obtain ⟨hnode, -⟩ | ⟨hnone, rfl, -⟩ := hfound
    · exact .inl hnode
    · refine .inr ⟨hnone, ⟨_, rfl⟩, fun other hother => ?_⟩
      have hother' : disk.tick.node? other = some (.leaf (.regular disk.tick.freshNumber)) := hother
      exact ne_freshNumber hother' rfl
  · obtain ⟨hnode, rfl⟩ | ⟨hnone, rfl, rfl⟩ := hfound
    · have hnode' : disk.node? (disk.placeOf path) = some (.leaf leaf) := hnode
      exact sets_store hnode' []
    · refine ⟨workplace_store _ _ _, troubles_store _ _ _, fun other => ?_, fun number hne => ?_⟩
      · rw [node?_store]
        exact node?_put_leaf htick hlocate hnone _ other
      · rw [contents_store, if_neg (by rintro rfl; exact hne rfl)]
        rfl

/-- Behind directories that are there, a file cannot be opened because its path or name cannot be
used or because a directory is at its place. -/
private theorem openFile_eq_error (h : disk.HasWorkplace) (hname : path.lastName? = some name)
    (hends : path.endsInSlash = false) {above : List FileName}
    (hreach : reach disk.root (disk.start path) path.front = .ok above) {error : FileError}
    (herror : openFile path disk = .error error) :
    path.validate = .error error ∨ path.validate = .ok () ∧
      (maxNameBytes < name.length ∧ error = .nameTooLong ∨ name.length ≤ maxNameBytes ∧
        disk.node? (disk.placeOf path) = some .dir ∧ error = .isDirectory) := by
  rw [openFile_eq_error_iff hends] at herror
  cases hvalid : path.validate with
  | error refused =>
    rw [locate_of_refused hvalid] at herror
    obtain hrefused | ⟨place, hplace, -⟩ := herror
    · obtain rfl : refused = error := Except.error.inj hrefused
      exact .inl rfl
    · cases hplace
  | ok _ =>
    have hplace : disk.placeOf path = path.front.foldl move (disk.start path) ++ [name] :=
      placeOf_of_name hname
    rw [← ((reach_eq_ok_iff (h.start path)).1 hreach).1] at hplace
    rw [locate_of_reach h hvalid hname hreach] at herror
    cases hshort : checkName name with
    | error long =>
      rw [hshort] at herror
      obtain hlong | ⟨place, hfound, -⟩ := herror
      · obtain rfl : long = error := Except.error.inj hlong
        exact .inr ⟨rfl, .inl (checkName_eq_error_iff.1 hshort)⟩
      · cases hfound
    | ok _ =>
      rw [hshort] at herror
      obtain hlong | ⟨place, hfound, hdir, rfl⟩ := herror
      · cases hlong
      · obtain rfl : above ++ [name] = place := Except.ok.inj hfound
        exact .inr ⟨rfl, .inr ⟨checkName_eq_ok_iff.1 hshort, hplace ▸ hdir, rfl⟩⟩

/-- A file behind directories that are there can be read by a path that can be used. -/
theorem readFile_of_reach (h : disk.HasWorkplace) (hvalid : path.validate = .ok ())
    (hname : path.lastName? = some name) (hends : path.endsInSlash = false)
    (hshort : name.length ≤ maxNameBytes) {above : List FileName}
    (hreach : reach disk.root (disk.start path) path.front = .ok above)
    (hfile : disk.file? (disk.placeOf path) = some content) :
    Disk.readFile path disk = .ok content := by
  obtain ⟨leaf, hleaf, rfl⟩ := file?_eq_some_iff.1 hfile
  have hplace : disk.placeOf path = path.front.foldl move (disk.start path) ++ [name] :=
    placeOf_of_name hname
  rw [← ((reach_eq_ok_iff (h.start path)).1 hreach).1] at hplace
  have hlocate : disk.locate path = .ok (disk.placeOf path) := by
    rw [locate_of_name h hvalid hname, hreach, hplace]
    change (checkName name >>= fun _ => _) = _
    rw [checkName_eq_ok_iff.2 hshort]
    rfl
  exact readFile_eq_ok_iff.2 ⟨hends, _, _, hlocate, hleaf, rfl⟩

/-! ### Faults -/

/-- If a file can be created, then its path can be used and its name is not too long. -/
theorem of_createFault? (h : createFault? disk path = none) : path.validate = .ok () ∧
    ∀ name, path.lastName? = some name → name.length ≤ maxNameBytes := by
  obtain ⟨-, hrest⟩ := Option.or_eq_none_iff.1 h
  obtain ⟨hvalid, hrest⟩ := Option.or_eq_none_iff.1 hrest
  refine ⟨refusal?_eq_none_iff.1 hvalid, fun name hname => Nat.le_of_not_lt fun hlong => ?_⟩
  rw [hname, Option.any_some, decide_eq_true hlong, if_pos rfl] at hrest
  cases hrest

private theorem createFault?_of_way {fault : FileError}
    (hfault : wayFault? disk path path.parentEnds = some fault) :
    createFault? disk path = some fault := by
  rw [createFault?, hfault, Option.some_or]

section Ways

variable (hway : wayFault? disk path path.parentEnds = none)

include hway

private theorem createFault?_of_refused {error : FileError}
    (hrefused : path.validate = .error error) :
    createFault? disk path = some error := by
  rw [createFault?, hway, Option.none_or, refusal?_eq_some_iff.2 hrefused, Option.some_or]

variable (hvalid : path.validate = .ok ()) (hname : path.lastName? = some name)

include hvalid hname

private theorem createFault?_of_long (hlong : maxNameBytes < name.length) :
    createFault? disk path = some .nameTooLong := by
  rw [createFault?, hway, Option.none_or, refusal?_eq_none_iff.2 hvalid, Option.none_or, hname,
    if_pos (by simpa using hlong)]

private theorem createFault?_of_short (hshort : name.length ≤ maxNameBytes) :
    createFault? disk path = if disk.node? (disk.placeOf path) = some .dir ∨
      disk.placeOf path ∈ visits (disk.start path) path.front then some .isDirectory else none := by
  rw [createFault?, hway, Option.none_or, refusal?_eq_none_iff.2 hvalid, Option.none_or, hname,
    if_neg (by simpa using hshort)]

end Ways

/-! ### Working on a disk with others -/

/-- A computation with the contract may also open and write the file at the place of the path. No
directory gets there but those that are made on the way, and what is opened is a regular file. -/
structure AdmitsFile (invariant : Disk → Prop) (contract : Contract Disk) (before : Disk)
    (path : Path) : Prop extends Admits invariant contract before path where
  dir_cases : ∀ {disk}, invariant disk → disk.node? (before.placeOf path) = some .dir →
    before.node? (before.placeOf path) = some .dir ∨
      before.placeOf path ∈ visits (before.start path) path.front
  regular : ∀ {disk leaf}, invariant disk →
    disk.node? (before.placeOf path) = some (.leaf leaf) →
    (∃ last, reach disk.root (before.start path) path.front = .ok last) →
      ∃ number, leaf = .regular number
  file : ∀ {disk later leaf}, invariant disk →
    disk.node? (before.placeOf path) = some (.leaf leaf) ∨
      IsNew disk (before.placeOf path) leaf →
    (∃ last, reach disk.root (before.start path) path.front = .ok last) →
    Sets (before.placeOf path) (.leaf leaf) disk later →
      invariant later ∧ contract.guarantee disk later

/-- What comes of opening a file behind its directories. -/
structure Opened (before : Disk) (path : Path) (result : Except FileError Leaf) (disk : Disk) :
    Prop where
  opened : ∀ leaf, result = .ok leaf → createFault? before path = none ∧
    (∃ last, reach disk.root (before.start path) path.front = .ok last) ∧
    (∃ number, leaf = .regular number) ∧ disk.node? (before.placeOf path) = some (.leaf leaf)
  failed : ∀ error, result = .error error →
    disk.file? (before.placeOf path) = before.file? (before.placeOf path) ∧
      (before.troubles = [] → createFault? before path = some error)

/-- What comes of creating a file. It is there, behind its directories. Or there was a fault from
the beginning, and nothing was done to it. Or the writing broke off. -/
structure Creates (before : Disk) (path : Path) (content : Bytes) (result : Except FileError Unit)
    (disk : Disk) : Prop where
  created : result = .ok () → createFault? before path = none ∧
    (∃ last, reach disk.root (before.start path) path.front = .ok last) ∧
    ∃ number, disk.node? (before.placeOf path) = some (.leaf (.regular number)) ∧
      disk.contents number = content
  failed : ∀ error, result = .error error → before.troubles = [] →
    ∃ fault, createFault? before path = some fault ∧ MayStandFor path.front error fault
  kept : ∀ error, result = .error error →
    disk.file? (before.placeOf path) = before.file? (before.placeOf path) ∨
      before.troubles ≠ [] ∧
        ∃ length, disk.file? (before.placeOf path) = some (content.take length)

section Together

variable {invariant : Disk → Prop} {contract : Contract Disk} {before : Disk}
  (hadmits : AdmitsFile invariant contract before path)

include hadmits

private theorem AdmitsFile.placeOf_eq (hdisk : invariant disk) :
    disk.placeOf path = before.placeOf path := (hadmits.grown hdisk).placeOf_eq path

/-- The directories on the way are there, so nothing was in the way of them. -/
private theorem fault?_of_dirs (hdisk : invariant disk) {last : List FileName}
    (hreach : reach disk.root (before.start path) path.front = .ok last) :
    fault? before.root (before.start path) path.front = none := by
  rw [← hadmits.fault?_eq hdisk fun _ => id]
  exact fault?_of_reach hreach

section Named

variable (hname : path.lastName? = some name)
  (hway : wayFault? before path path.parentEnds = none) {above : List FileName}

include hname hway

private theorem createFault?_of_open (hdisk : invariant disk)
    (hreach : reach disk.root (before.start path) path.front = .ok above) {leaf : Leaf}
    (hopens : Opens path leaf disk after) : createFault? before path = none := by
  have hplace := hadmits.placeOf_eq hdisk
  have hnot : disk.node? (disk.placeOf path) ≠ some .dir := by
    obtain hnode | hnew := hopens.found
    · simp [hnode]
    · simp [hnew.none]
  rw [createFault?_of_short hway hopens.valid hname (hopens.short name hname), if_neg]
  rintro (hdir | hvisit)
  · exact hnot (hplace ▸ (hadmits.grown hdisk).node?_eq hdir)
  · have hstart := hadmits.start_isDir hdisk
    exact hnot (hplace ▸ ((reach_eq_ok_iff hstart).1 hreach).2.2 _ hvisit)

variable (hends : path.endsInSlash = false)

include hends

private theorem createFault?_of_error (hdisk : invariant disk)
    (hreach : reach disk.root (before.start path) path.front = .ok above) {error : FileError}
    (herror : openFile path disk = .error error) : createFault? before path = some error := by
  have hplace := hadmits.placeOf_eq hdisk
  rw [← (hadmits.grown hdisk).start_eq] at hreach
  obtain hrefused | ⟨hvalid, ⟨hlong, rfl⟩ | ⟨hshort, hdir, rfl⟩⟩ :=
    openFile_eq_error (hadmits.hasWorkplace_of hdisk) hname hends hreach herror
  · exact createFault?_of_refused hway hrefused
  · exact createFault?_of_long hway hvalid hname hlong
  · rw [createFault?_of_short hway hvalid hname hshort, if_pos]
    exact hadmits.dir_cases hdisk (hplace ▸ hdir)

private theorem safe_openFile
    (hreach : reach disk.root (before.start path) path.front = .ok above)
    (hdisk : invariant disk)
    (hkept : disk.file? (before.placeOf path) = before.file? (before.placeOf path)) :
    Safe invariant contract (Opened before path) (.act (attempt (openFile path))) disk := by
  refine safe_act fun now hnow hrely => ?_
  have hworkplace := hadmits.hasWorkplace_of hnow
  have hplace := hadmits.placeOf_eq hnow
  have hkeptNow := hadmits.kept_of_rely hrely hkept
  have hreachNow := hadmits.reach_eq hdisk (hadmits.grows hrely) hreach
  obtain ⟨htick, hguarantee⟩ := hadmits.tick hnow
  obtain ⟨trouble, htrouble, hrun⟩ | ⟨-, ⟨leaf, opened, hopen, hrun⟩ | ⟨error, herror, hrun⟩⟩ :=
    attempt_cases (openFile path) now
  · rw [hrun]
    refine ⟨htick, hguarantee, fun later hlater hrely' => ⟨fun _ => (nomatch ·), ?_⟩⟩
    rintro _ ⟨⟩
    refine ⟨hadmits.kept_of_rely hrely' hkeptNow, fun hcalm => ?_⟩
    cases (hadmits.trouble?_eq_none hnow hcalm).symm.trans htrouble
  · rw [hrun]
    have hopens := opens_openFile hworkplace hopen
    have hfault := createFault?_of_open hadmits hname hway hnow hreachNow hopens
    obtain ⟨hvalid, hshort, hfound, hsets⟩ := hopens
    rw [hplace] at hfound hsets
    -- the file is a regular one: it was before, or it is new
    have hleaf : ∃ number, leaf = .regular number := by
      obtain hnode | hnew := hfound
      · exact hadmits.regular hnow hnode ⟨_, hreachNow⟩
      · exact hnew.regular
    obtain ⟨hopened, hguarantee⟩ := hadmits.file hnow hfound ⟨_, hreachNow⟩ hsets
    have hgrows := hsets.grows (hfound.symm.imp_left IsNew.none)
    refine ⟨hopened, hguarantee, fun later hlater hrely' => ⟨?_, fun _ => (nomatch ·)⟩⟩
    rintro _ ⟨⟩
    refine ⟨hfault, ⟨above, ?_⟩, hleaf, ?_⟩
    · exact hadmits.reach_eq hnow (hgrows.trans (hadmits.grows hrely')) hreachNow
    · exact (hadmits.grows hrely').node?_eq ((hsets.node?_eq _).trans (if_pos rfl))
  · rw [hrun]
    refine ⟨htick, hguarantee, fun later hlater hrely' => ⟨fun _ => (nomatch ·), ?_⟩⟩
    rintro _ ⟨⟩
    exact ⟨hadmits.kept_of_rely hrely' hkeptNow, fun _ =>
      createFault?_of_error hadmits hname hway hends htick hreachNow herror⟩

end Named

private theorem safe_writeLeaf {number : Nat} (hfault : createFault? before path = none)
    {last : List FileName} (hreach : reach disk.root (before.start path) path.front = .ok last)
    (hdisk : invariant disk)
    (hnode : disk.node? (before.placeOf path) = some (.leaf (.regular number))) (content : Bytes) :
    Safe invariant contract (Creates before path content)
      (.act (writeLeaf (.regular number) content)) disk := by
  refine safe_act fun now hnow hrely => ?_
  have hnodeNow := (hadmits.grows hrely).node?_eq hnode
  have hreachNow := hadmits.reach_eq hdisk (hadmits.grows hrely) hreach
  -- whatever is written, it is written to the file at the place of the path
  have hstores : ∀ bytes : Bytes, invariant (now.tick.store (.regular number) bytes) ∧
      contract.guarantee now (now.tick.store (.regular number) bytes) := fun bytes =>
    hadmits.file hnow (.inl hnodeNow) ⟨_, hreachNow⟩ (sets_store hnodeNow bytes)
  -- and then it stays there, since others leave this file alone
  have hfile : ∀ {bytes : Bytes} {later : Disk},
      contract.rely (now.tick.store (.regular number) bytes) later →
        later.file? (before.placeOf path) = some bytes := by
    intro bytes later hrely'
    rw [hadmits.file?_eq hrely', file?_eq_some_iff]
    refine ⟨.regular number, ?_, ?_⟩
    · rw [node?_store]
      exact hnodeNow
    · exact (if_pos rfl).symm
  rw [writeLeaf]
  cases htrouble : now.trouble? with
  | some trouble =>
    refine ⟨(hstores _).1, (hstores _).2, fun later hlater hrely' => ⟨(nomatch ·), ?_, ?_⟩⟩
    · intro _ _ hcalm
      cases (hadmits.trouble?_eq_none hnow hcalm).symm.trans htrouble
    · refine fun _ _ => .inr ⟨fun hcalm => ?_, trouble.written, hfile hrely'⟩
      cases (hadmits.trouble?_eq_none hnow hcalm).symm.trans htrouble
  | none =>
    refine ⟨(hstores _).1, (hstores _).2, fun later hlater hrely' => ⟨fun _ => ⟨hfault, ?_, ?_⟩,
      fun _ => (nomatch ·), fun _ => (nomatch ·)⟩⟩
    · have hgrows := (sets_store hnodeNow content).grows (.inr hnodeNow)
      exact ⟨last, hadmits.reach_eq hnow (hgrows.trans (hadmits.grows hrely')) hreachNow⟩
    · have hgrows := (sets_store hnodeNow content).grows (.inr hnodeNow)
      have hnodeLater := (hadmits.grows hrely').node?_eq (hgrows.node?_eq hnodeNow)
      obtain ⟨leaf, hleaf, hcontent⟩ := file?_eq_some_iff.1 (hfile hrely')
      cases hleaf.symm.trans hnodeLater
      exact ⟨number, hnodeLater, hcontent.symm⟩

/-- **A file is created unless there is a fault**, and what others do meanwhile makes no
difference. -/
theorem safe_create (hname : path.lastName? = some name) (hends : path.endsInSlash = false)
    (content : Bytes)
    (hkept : disk.file? (before.placeOf path) = before.file? (before.placeOf path)) :
    Safe invariant contract (Creates before path content) (create path content) disk := by
  have hfront := Path.front_eq_of_moves hname (Path.moves_eq_concat hname hends)
  -- first the directories
  have hparents : Safe invariant contract (Makes before path path.parentEnds)
      (makeDirs path path.parentEnds) disk :=
    safe_makeDirs hadmits.toAdmits (Path.descends_parentEnds path)
      (by rw [← hfront]; exact fun _ => id) hkept
  rw [create, makeParents]
  refine hparents.bind fun result now hnow hmakes => ?_
  cases result with
  | error error =>
    refine safe_pure fun later hlater hrely => ⟨(nomatch ·), ?_, ?_⟩
    · rintro _ ⟨⟩ hcalm
      obtain ⟨fault, hfault, hstands⟩ := hmakes.failed error rfl hcalm
      rw [← hfront] at hstands
      exact ⟨fault, createFault?_of_way hfault, hstands⟩
    · exact fun _ _ => .inl (hadmits.kept_of_rely hrely hmakes.kept)
  | ok _ =>
    obtain ⟨hvalid, last, hreach⟩ := hmakes.made rfl
    rw [← hfront] at hreach
    -- the directories are there, so nothing was in their way
    have hway : wayFault? before path path.parentEnds = none := by
      rw [wayFault?_eq hvalid, ← hfront]
      exact fault?_of_dirs hadmits hnow hreach
    -- then the file is opened
    refine (safe_openFile hadmits hname hway hends hreach hnow hmakes.kept).bind
      fun result later hlater hopened => ?_
    cases result with
    | error error =>
      obtain ⟨hkept, hfault⟩ := hopened.failed error rfl
      refine safe_pure fun last _ hrely => ⟨(nomatch ·), ?_, ?_⟩
      · rintro _ ⟨⟩ hcalm
        exact ⟨error, hfault hcalm, .inl rfl⟩
      · exact fun _ _ => .inl (hadmits.kept_of_rely hrely hkept)
    | ok leaf =>
      obtain ⟨hfault, ⟨above, habove⟩, ⟨number, rfl⟩, hnode⟩ := hopened.opened leaf rfl
      -- and in the end it is written
      exact safe_writeLeaf hadmits hfault habove hlater hnode content

end Together

end Disk

end ClassStub
