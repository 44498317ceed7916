import ClassStub.Proofs.ClassPlaces

/-!
# Handling the classes of a directory at the same time

Each class of a directory is read, stubbed and created at its place in the output. Several workers
do so at the same time, so that between two steps for one class any steps for other classes may be
taken. What comes of a class is settled all the same before the first step (`Directory.Settles`).

For whatever the workers do, nothing that was there goes away, directories are made nowhere but on
the way to stubs, and files nowhere but in the places of stubs (`Directory.Reached`). Since no stub
stands on the way to another one, the work on one class keeps to this, and touches no file but that
of its own stub (`Directory.admitsFile_target`). This is what the work on the other classes relies
on (`Directory.stubContract`). Hence each of them ends as if it were alone
(`Directory.settles_of_interleaves`).
-/

namespace ClassStub

open FileName FileStore Stepwise Disk

namespace Directory

variable {options : StubOptions} {before disk later : Disk} {input output : Path}
  {place : List FileName}

/-! ### What workers leave behind -/

/-- A disk on which some steps of the work were taken. -/
structure Reached (before : Disk) (input output : Path) (disk : Disk) : Prop where
  grows : Grows before disk
  calm : before.troubles = [] → disk.troubles = []
  node?_cases : ∀ {place node}, disk.node? place = some node →
    before.node? place = some node ∨
    (node = .dir ∧ IsWay before input output place) ∨
    (¬ IsWay before input output place ∧ (∃ relative, IsClass before input relative ∧
      place = stubPlace before output relative) ∧ ∃ number, node = .leaf (.regular number))
  /-- The file of a stub has no second name. -/
  sole : ∀ {relative place leaf}, IsClass before input relative →
    disk.node? (stubPlace before output relative) = some (.leaf leaf) →
    disk.node? place = some (.leaf leaf) → place = stubPlace before output relative
  kept : ∀ place, (∀ relative, IsClass before input relative →
      place = stubPlace before output relative → IsWay before input output place) →
    disk.file? place = before.file? place

/-- The work on a class relies on its own stub being left alone, and leaves everything else
alone. -/
def stubContract (before : Disk) (output : Path) (place : List FileName) : Contract Disk where
  rely disk later := Grows disk later ∧
    later.file? (stubPlace before output place) = disk.file? (stubPlace before output place)
  guarantee disk later := Grows disk later ∧
    ∀ other, other ≠ stubPlace before output place → later.file? other = disk.file? other
  refl disk := ⟨.refl disk, rfl⟩
  trans hfirst hsecond := ⟨hfirst.1.trans hsecond.1, hsecond.2.trans hfirst.2⟩

/-- At first nothing was done. -/
theorem reached_start (h : Stubbable before input output) :
    Reached before input output before where
  grows := .refl before
  calm := id
  node?_cases := .inl
  sole hclass hstub hother := (h.plain _ _ hclass hstub).2 _ hother
  kept _ _ := rfl

namespace Reached

section Any

variable (hdisk : Reached before input output disk)

include hdisk

theorem tick : Reached before input output disk.tick where
  grows := hdisk.grows.trans (grows_tick disk)
  calm hcalm := by
    rw [(tick_of_calm (hdisk.calm hcalm)).1]
    exact hdisk.calm hcalm
  node?_cases := hdisk.node?_cases
  sole := hdisk.sole
  kept := hdisk.kept

private theorem calm_of_sets {node : Node Leaf} (hsets : Sets place node disk later)
    (hcalm : before.troubles = []) : later.troubles = [] := by
  rw [hsets.troubles, hdisk.calm hcalm, List.tail_nil]

/-- A file is where a directory is made only if it was there from the beginning. -/
private theorem hasFile_iff (hway : IsWay before input output place) :
    HasFile disk.root place ↔ HasFile before.root place := by
  constructor
  · rintro ⟨leaf, hleaf⟩
    obtain hbefore | ⟨hdir, -⟩ | ⟨hnot, -⟩ := hdisk.node?_cases hleaf
    · exact ⟨leaf, hbefore⟩
    · cases hdir
    · exact absurd hway hnot
  · rintro ⟨leaf, hleaf⟩
    exact ⟨leaf, hdisk.grows.node?_eq hleaf⟩

/-- A directory was made. -/
private theorem of_dir (hway : IsWay before input output place) (hnone : disk.node? place = none)
    (hsets : Sets place .dir disk later) : Reached before input output later where
  grows := hdisk.grows.trans (hsets.grows (.inl hnone))
  calm := hdisk.calm_of_sets hsets
  node?_cases {other node} hnode := by
    rw [hsets.node?_eq] at hnode
    split at hnode
    case isTrue heq => exact .inr (.inl ⟨(Option.some.inj hnode).symm, heq ▸ hway⟩)
    case isFalse => exact hdisk.node?_cases hnode
  sole {relative other leaf} hclass hstub hother := by
    rw [hsets.node?_eq] at hstub hother
    split at hstub
    case isTrue => cases hstub
    case isFalse =>
      split at hother
      case isTrue => cases hother
      case isFalse => exact hdisk.sole hclass hstub hother
  kept other hother := (hsets.file?_eq_of_dir hnone other).trans (hdisk.kept other hother)

end Any

section Stub

variable (h : Stubbable before input output) (hdisk : Reached before input output disk)
  (hclass : IsClass before input place)

include h hdisk hclass

/-- What stands in the place of a stub and is no directory is a regular file. -/
private theorem exists_number {leaf : Leaf}
    (hleaf : disk.node? (stubPlace before output place) = some (.leaf leaf)) :
    ∃ number, leaf = .regular number := by
  obtain hbefore | ⟨hdir, -⟩ | ⟨-, -, number, hnumber⟩ := hdisk.node?_cases hleaf
  · exact (h.plain place leaf hclass hbefore).1
  · cases hdir
  · exact ⟨number, Node.leaf.inj hnumber⟩

variable {leaf : Leaf}
  (hfound : disk.node? (stubPlace before output place) = some (.leaf leaf) ∨
    IsNew disk (stubPlace before output place) leaf)
  (hsets : Sets (stubPlace before output place) (.leaf leaf) disk later)

include hfound

omit h in
/-- The file of a stub is nowhere else. -/
private theorem ne_of_found {other : List FileName}
    (hother : other ≠ stubPlace before output place) :
    disk.node? other ≠ some (.leaf leaf) := by
  obtain hleaf | hnew := hfound
  · exact fun hsecond => hother (hdisk.sole hclass hleaf hsecond)
  · exact hnew.fresh other

include hsets

omit h in
private theorem file?_eq_of_stub {other : List FileName}
    (hother : other ≠ stubPlace before output place) :
    later.file? other = disk.file? other :=
  hsets.file?_eq hother (hdisk.ne_of_found hclass hfound hother)

/-- A stub was opened or written, behind its directories. -/
private theorem of_stub {last : List FileName}
    (hreach : reach disk.root (before.start output) (target output place).front = .ok last) :
    Reached before input output later := by
  have hgrows : Grows disk later := hsets.grows (hfound.symm.imp_left IsNew.none)
  have hstart : disk.node? (before.start output) = some .dir :=
    hdisk.grows.node?_eq (h.hasWorkplace.start output)
  -- no directory is made where the stub stands: it would be on the way to it
  have hnot : ¬ IsWay before input output (stubPlace before output place) := by
    intro hway
    have hdir := ((reach_eq_ok_iff hstart).1 hreach).2.2 _ (h.mem_visits_of_isWay hclass hway)
    obtain hleaf | hnew := hfound
    · cases hdir.symm.trans hleaf
    · cases hdir.symm.trans hnew.none
  refine ⟨hdisk.grows.trans hgrows, hdisk.calm_of_sets hsets, ?_, ?_, ?_⟩
  · intro other node hnode
    rw [hsets.node?_eq] at hnode
    split at hnode
    case isTrue heq =>
      rw [heq]
      obtain rfl := Option.some.inj hnode
      obtain hleaf | hnew := hfound
      · exact hdisk.node?_cases hleaf
      · obtain ⟨number, rfl⟩ := hnew.regular
        exact .inr (.inr ⟨hnot, ⟨place, hclass, rfl⟩, number, rfl⟩)
    case isFalse => exact hdisk.node?_cases hnode
  · -- the stub has no second name: if it is new, then so is its number
    intro relative other leaf' hrelative hstub hother
    rw [hsets.node?_eq] at hstub hother
    split at hstub
    case isTrue heq =>
      obtain rfl := Node.leaf.inj (Option.some.inj hstub)
      rw [heq]
      split at hother
      case isTrue hsame => exact hsame
      case isFalse hne => exact absurd hother (hdisk.ne_of_found hclass hfound hne)
    case isFalse hne =>
      split at hother
      case isTrue =>
        obtain rfl := Node.leaf.inj (Option.some.inj hother)
        exact absurd hstub (hdisk.ne_of_found hclass hfound hne)
      case isFalse => exact hdisk.sole hrelative hstub hother
  · -- the stub stands at the place of a class, so no other file was touched
    intro other hother
    have hne : other ≠ stubPlace before output place := by
      rintro rfl
      exact hnot (hother place hclass rfl)
    exact (hdisk.file?_eq_of_stub hclass hfound hsets hne).trans (hdisk.kept other hother)

end Stub

/-- A class is read as it was. -/
private theorem readFile_eq (h : Stubbable before input output)
    (hclass : IsClass before input place) (hdisk : Reached before input output disk) :
    Disk.readFile (target input place) disk = Disk.readFile (target input place) before := by
  obtain ⟨content, hcontent, hread⟩ := h.readFile_target hclass hdisk.grows
  obtain ⟨content', hcontent', hread'⟩ := h.readFile_target hclass (.refl before)
  have hfile := hdisk.kept (before.placeOf input ++ place) fun relative _ heq =>
    absurd heq (h.input_ne_output place relative)
  obtain rfl := Option.some.inj (hcontent.symm.trans (hfile.trans hcontent'))
  rw [hread, hread']

end Reached

/-- The file of a class can be created in its place beside the work on the other classes. -/
theorem admitsFile_target (h : Stubbable before input output)
    (hclass : IsClass before input place) :
    AdmitsFile (Reached before input output) (stubContract before output place) before
      (target output place) := by
  have hplace : before.placeOf (target output place) = stubPlace before output place :=
    placeOf_target (h.names hclass) before output
  have hstart : before.start (target output place) = before.start output :=
    start_target (h.names hclass) before output
  constructor
  case toAdmits =>
    constructor
    case hasWorkplace => exact h.hasWorkplace
    case grown => exact fun hdisk => hdisk.grows
    case hasFile_iff =>
      exact fun hdisk hvisit => hdisk.hasFile_iff (h.isWay_of_mem_visits hclass hvisit)
    case calm => exact fun hdisk => hdisk.calm
    case grows => exact And.left
    case file?_eq =>
      rw [hplace]
      exact And.right
    case look => exact fun disk => ⟨.refl disk, fun _ _ => rfl⟩
    case tick => exact fun {disk} hdisk => ⟨hdisk.tick, grows_tick disk, fun _ _ => rfl⟩
    case dir =>
      intro disk later visit hdisk hvisit hnone hsets
      exact ⟨hdisk.of_dir (h.isWay_of_mem_visits hclass hvisit) hnone hsets,
        hsets.grows (.inl hnone), fun other _ => hsets.file?_eq_of_dir hnone other⟩
  case dir_cases =>
    rw [hplace, hstart]
    intro disk hdisk hdir
    -- a directory in the place of the stub was there before or is on a way
    obtain hbefore | ⟨-, hway⟩ | ⟨-, -, number, hnumber⟩ := hdisk.node?_cases hdir
    · exact .inl hbefore
    · exact .inr (h.mem_visits_of_isWay hclass hway)
    · cases hnumber
  case regular =>
    rw [hplace]
    exact fun hdisk hleaf _ => hdisk.exists_number h hclass hleaf
  case file =>
    rw [hplace, hstart]
    rintro disk later leaf hdisk hfound ⟨last, hreach⟩ hsets
    exact ⟨hdisk.of_stub h hclass hfound hsets hreach,
      hsets.grows (hfound.symm.imp_left IsNew.none),
      fun _ => hdisk.file?_eq_of_stub hclass hfound hsets⟩

/-! ### One class -/

/-- An action whose error is wrapped. -/
theorem run_onError {m : Type → Type} [Monad m] [LawfulMonad m] {ε α : Type}
    (failure : ε → Failure) (action : m (Except ε α)) :
    (onError failure action).run = Except.mapError failure <$> action := by
  have hlift : (liftM action : ExceptT Failure m (Except ε α)).run = Except.ok <$> action := rfl
  rw [onError, ExceptT.run_bind, hlift, bind_map_left, ← bind_pure_comp]
  refine bind_congr fun result => ?_
  cases result <;> rfl

/-- The stub of a class that was read, or why there is none. -/
def stubOfRead (options : StubOptions) (read : Except FileError Bytes) : Except Failure Bytes :=
  read.mapError .io >>= stubBytes options

/-- There is a stub if the class was read and has one. -/
theorem stubOfRead_eq_ok_iff {read : Except FileError Bytes} {stub : Bytes} :
    stubOfRead options read = .ok stub ↔
      ∃ bytes, read = .ok bytes ∧ stubBytes options bytes = .ok stub := by
  rw [stubOfRead, bind_eq_ok_iff]
  simp only [mapError_eq_ok_iff]

/-- There is no stub if the class was not read or has none. -/
theorem stubOfRead_eq_error_iff {read : Except FileError Bytes} {failure : Failure} :
    stubOfRead options read = .error failure ↔
      (∃ error, read = .error error ∧ failure = .io error) ∨
        ∃ bytes, read = .ok bytes ∧ stubBytes options bytes = .error failure := by
  rw [stubOfRead, bind_eq_error_iff, mapError_eq_error_iff]
  simp only [mapError_eq_ok_iff, eq_comm]

/-- A class is read, stubbed and created. -/
private theorem run_stubFile (options : StubOptions) (input output : Path) :
    (stubFile (m := Stepwise Disk) options input output).run =
      (FileStore.readFile input >>= fun read =>
        match stubOfRead options read with
        | .error failure => pure (.error failure)
        | .ok stub => Except.mapError .io <$> create output stub) := by
  rw [stubFile, ExceptT.run_bind, run_onError, bind_map_left]
  refine bind_congr fun read => ?_
  cases read with
  | error error => rfl
  | ok bytes =>
    have hread : stubOfRead options (.ok bytes) = stubBytes options bytes := rfl
    change ExceptT.run (ofExcept (stubBytes options bytes) >>= _) = _
    rw [hread, ExceptT.run_bind]
    cases stubBytes options bytes with
    | error failure => rfl
    | ok stub =>
      change ExceptT.run (onError .io (FileStore.makeParents (m := Stepwise Disk) output) >>=
        fun _ => onError .io (FileStore.writeFile output stub)) = _
      dsimp only
      rw [ExceptT.run_bind, run_onError, bind_map_left, create, map_bind]
      refine bind_congr fun made => ?_
      cases made with
      | error error => rfl
      | ok _ => exact run_onError _ _

/-- What comes of a class: it is stubbed, it has no stub, or its stub cannot be created. If it is
not stubbed, then what is in the place of its stub stays as it is, unless the writing of a stub
broke off. -/
inductive Settles (options : StubOptions) (before : Disk) (input output : Path)
    (place : List FileName) : Except Failure Unit → Disk → Prop
  | stubbed {stub : Bytes} {last : List FileName} {disk : Disk}
      (hstub : stubOfRead options (Disk.readFile (target input place) before) = .ok stub)
      (hfault : createFault? before (target output place) = none)
      (hreach : reach disk.root (before.start output) (target output place).front = .ok last)
      (hfile : disk.file? (stubPlace before output place) = some stub) :
      Settles options before input output place (.ok ()) disk
  | refused {failure : Failure} {disk : Disk}
      (hstub : stubOfRead options (Disk.readFile (target input place) before) = .error failure)
      (hkept : disk.file? (stubPlace before output place) =
        before.file? (stubPlace before output place)) :
      Settles options before input output place (.error failure) disk
  | blocked {stub : Bytes} {error : FileError} {disk : Disk}
      (hstub : stubOfRead options (Disk.readFile (target input place) before) = .ok stub)
      (hfault : before.troubles = [] → ∃ fault,
        createFault? before (target output place) = some fault ∧
          MayStandFor output.moves error fault)
      (hkept : disk.file? (stubPlace before output place) =
          before.file? (stubPlace before output place) ∨
        before.troubles ≠ [] ∧ ∃ length,
          disk.file? (stubPlace before output place) = some (stub.take length)) :
      Settles options before input output place (.error (.io error)) disk

/-- What others do leaves a class settled. -/
theorem Settles.of_rely {result : Except Failure Unit} (h : Stubbable before input output)
    (hsettles : Settles options before input output place result disk)
    (hdisk : Reached before input output disk)
    (hrely : (stubContract before output place).rely disk later) :
    Settles options before input output place result later := by
  obtain ⟨hgrows, hfile⟩ := hrely
  cases hsettles with
  | stubbed hstub hfault hreach hwritten =>
    have hstart : disk.node? (before.start output) = some .dir :=
      hdisk.grows.node?_eq (h.hasWorkplace.start output)
    exact .stubbed hstub hfault (hgrows.reach_eq hstart hreach) (hfile.trans hwritten)
  | refused hstub hkept => exact .refused hstub (hfile.trans hkept)
  | blocked hstub hfault hkept =>
    refine .blocked hstub hfault ?_
    rw [hfile]
    exact hkept

section Safe

variable (h : Stubbable before input output) (hclass : IsClass before input place)

include h hclass

/-- A class that was created, or could not be created, is settled. -/
theorem settles_of_creates {stub : Bytes} {result : Except FileError Unit}
    (hstub : stubOfRead options (Disk.readFile (target input place) before) = .ok stub)
    (hcreates : Creates before (target output place) stub result disk) :
    Settles options before input output place (result.mapError .io) disk := by
  have hplace : before.placeOf (target output place) = stubPlace before output place :=
    placeOf_target (h.names hclass) before output
  cases result with
  | ok _ =>
    obtain ⟨hfault, ⟨last, hreach⟩, number, hnode, hcontent⟩ := hcreates.created rfl
    rw [start_target (h.names hclass)] at hreach
    rw [hplace] at hnode
    exact .stubbed hstub hfault hreach (file?_eq_some_iff.2 ⟨_, hnode, hcontent.symm⟩)
  | error error =>
    refine .blocked hstub (fun hcalm => ?_) (hplace ▸ hcreates.kept error rfl)
    obtain ⟨fault, hfault, hstands⟩ := hcreates.failed error rfl hcalm
    refine ⟨fault, hfault, hstands.imp_right ?_⟩
    -- no name of the class is a step `..`
    rintro ⟨hup, hexception⟩
    obtain ⟨-, -, -, -, hfront⟩ :=
      exists_lastName?_target (h.names hclass) hclass.ne_nil output
    rw [hfront, List.mem_append] at hup
    refine ⟨hup.resolve_right fun hmem => ?_, hexception⟩
    exact up_not_mem (h.names hclass) (List.dropLast_subset place hmem)

/-- **What comes of a class was settled before the work on it began**, whatever is done meanwhile
for the other classes. -/
private theorem safe_stubFile (options : StubOptions) :
    Safe (Reached before input output) (stubContract before output place)
      (Settles options before input output place)
      (stubFile options (target input place) (target output place)).run before := by
  have hadmits := admitsFile_target h hclass
  have hplace : before.placeOf (target output place) = stubPlace before output place :=
    placeOf_target (h.names hclass) before output
  -- nobody changes a class, so it reads as it did at first
  have hreads : Safe (Reached before input output) (stubContract before output place)
      (fun read disk => read = Disk.readFile (target input place) before ∧
        disk.file? (stubPlace before output place) = before.file? (stubPlace before output place))
      (FileStore.readFile (target input place)) before :=
    safe_act fun now hnow hrely => ⟨hnow, hadmits.look now, fun later _ hrely' =>
      ⟨hnow.readFile_eq h hclass, hrely'.2.trans hrely.2⟩⟩
  rw [run_stubFile]
  refine hreads.bind fun read disk hdisk hbetween => ?_
  obtain ⟨rfl, hkept⟩ := hbetween
  cases hstub : stubOfRead options (Disk.readFile (target input place) before) with
  | error failure =>
    refine safe_pure fun later _ hrely => ?_
    exact (Settles.refused hstub hkept).of_rely h hdisk hrely
  | ok stub =>
    obtain ⟨name, -, hname, hends, -⟩ :=
      exists_lastName?_target (h.names hclass) hclass.ne_nil output
    dsimp only
    rw [← bind_pure_comp]
    -- what comes of writing the stub stays so until the others are done
    refine (safe_create hadmits hname hends stub (hplace ▸ hkept)).bind
      fun result now hnow hcreates => safe_pure fun later _ hrely => ?_
    exact (settles_of_creates h hclass hstub hcreates).of_rely h hnow hrely

private theorem safe_stubClass (options : StubOptions) :
    Safe (Reached before input output) (stubContract before output place)
      (fun result disk => result.1 = .ofNames place ∧
        Settles options before input output place result.2 disk)
      (stubClass options input output (.ofNames place)) before := by
  refine (safe_stubFile h hclass options).bind fun result disk hdisk hsettles => ?_
  exact safe_pure fun later _ hrely => ⟨rfl, hsettles.of_rely h hdisk hrely⟩

end Safe

/-! ### All classes -/

/-- **All classes are settled, in whatever order the steps for them are taken.** -/
theorem settles_of_interleaves (h : Stubbable before input output) (options : StubOptions)
    {places : List (List FileName)} (hdistinct : places.Nodup)
    (hclasses : ∀ place ∈ places, IsClass before input place) {final : Disk}
    {results : List (Path × Except Failure Unit)}
    (hrun : Interleaves ((places.map Path.ofNames).map (stubClass options input output))
      before results final) :
    Reached before input output final ∧
      List.Forall₂ (fun place result => result.1 = .ofNames place ∧
        Settles options before input output place result.2 final) places results := by
  have hsafe : List.Forall₂ (fun place computation =>
      Safe (Reached before input output) (stubContract before output place)
        (fun result disk => result.1 = .ofNames place ∧
          Settles options before input output place result.2 disk) computation before)
      places ((places.map Path.ofNames).map (stubClass options input output)) := by
    rw [List.map_map, List.forall₂_map_right_iff, List.forall₂_same]
    exact fun place hmem => safe_stubClass h (hclasses place hmem) options
  refine Interleaves.safe ?_ hdistinct hrun (reached_start h) hsafe
  intro first second hne disk later hguarantee
  refine ⟨hguarantee.1, hguarantee.2 _ fun heq => hne ?_⟩
  exact (List.append_cancel_left heq).symm

end Directory

end ClassStub
