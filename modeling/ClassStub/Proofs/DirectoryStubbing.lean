import ClassStub.Proofs.DirectoryRuns
import ClassStub.Proofs.StubFormat

/-!
# Stubbing a directory

The classes of a directory are independent. Each of them is reported once, in the order of the walk;
the stub of one that was stubbed is at its place in the output, the others failed for a reason of
their own, and all other files are as they were. So it is whatever the workers do first, and another
content of one class makes no difference to the others (`Directory.stubTree_isolates`). Of the
walker and the workers only what they are there for is needed (`Directory.LawfulWalker`,
`Directory.LawfulWorkers`).

There are exceptions. If the walk or the start of the workers fails, nothing is done. What stands in
the place of a stub must be a file that can hold it, and hold it alone. If the writing of a stub
breaks off, a beginning of it is left behind. And where a file stands in the way of the output, and
the path of the output leads to it with a step `..` out of a directory that is missing, the first
class that gets there finds that the file exists, and those that come later, that it is not a
directory (`Disk.Alike`). None of these can be left out (`Directory.stubTree_exceptions`).
-/

namespace ClassStub

open FileName FileStore Stepwise Disk

/-! ### Errors that are alike -/

/-- The errors are the same, or both say that a file stands where a directory should be and the
path has a step `..`. -/
def Disk.Alike (moves : List FileName) (first second : FileError) : Prop :=
  first = second ∨ (up ∈ moves ∧ first ∈ [.alreadyExists, .notDirectory] ∧
    second ∈ [.alreadyExists, .notDirectory])

theorem Disk.Alike.refl (moves : List FileName) (error : FileError) : Alike moves error error :=
  .inl rfl

private theorem Disk.MayStandFor.alike {moves : List FileName} {first second fault : FileError}
    (hfirst : MayStandFor moves first fault) (hsecond : MayStandFor moves second fault) :
    Alike moves first second := by
  obtain rfl | ⟨habove, rfl, rfl⟩ := hfirst
  · obtain rfl | ⟨habove, rfl, rfl⟩ := hsecond
    · exact .refl _ _
    · exact .inr ⟨habove, by simp, by simp⟩
  · obtain rfl | ⟨-, rfl, -⟩ := hsecond
    · exact .inr ⟨habove, by simp, by simp⟩
    · exact .refl _ _

/-- The report that the outcomes of some classes give: each of them is in one of the two lists. -/
def DirectoryReport.ofOutcomes (places : List (List FileName))
    (outcome : List FileName → Except Failure Unit) : DirectoryReport where
  stubbed := (places.filter fun place => (outcome place).isOk).map .ofNames
  failures := places.filterMap fun place =>
    match outcome place with
    | .ok () => none
    | .error failure => some (.inFile (.ofNames place) failure)

namespace Directory

/-! ### Walkers and workers -/

/-- The walker goes through the directories of a disk in order and leaves the disk as it is. -/
structure LawfulWalker (walker : DirectoryWalker (Stepwise Disk))
    (walk : Path → Tree Leaf → List (Except WalkError WalkEntry)) : Prop where
  sorted : SortedWalk Leaf.isRegular Disk.refusal? walk
  run_walk : ∀ {disk path tree}, disk.lookUp path = .ok tree →
    (walker.walk path).run disk = (walk path tree, disk)

/-- The workers take the steps of all actions in some order, and their results are in the order of
the actions. Their start does nothing to the state. -/
structure LawfulWorkers {σ : Type} (workers : Workers (Stepwise σ)) : Prop where
  start : ∀ count state, ((workers.start count).run state).2 = state
  interleaves : ∀ {α β : Type} (action : α → Stepwise σ β) (items : List α) (state : σ),
    Interleaves (items.map action) state ((workers.mapAll action items).run state).1
      ((workers.mapAll action items).run state).2

private theorem lawfulWalker_walker : LawfulWalker Disk.walker Disk.walkTree where
  sorted := Disk.sortedWalk_walkTree
  run_walk := Disk.run_walk

private theorem lawfulWorkers_oneByOne : LawfulWorkers Disk.oneByOne where
  start _ _ := rfl
  interleaves := interleaves_mapM

/-- Every directory of the input can be opened by the path that leads to it. -/
def CanWalk (disk : Disk) (input : Path) : Prop :=
  ∀ place, disk.node? (disk.placeOf input ++ place) = some .dir →
    Disk.refusal? (input.below place) = none

variable {options : StubOptions} {disk : Disk} {input output : Path} {place : List FileName}
  [walker : DirectoryWalker (Stepwise Disk)] [workers : Workers (Stepwise Disk)]
  {walk : Path → Tree Leaf → List (Except WalkError WalkEntry)}

/-! ### The report -/

omit walker workers in
private theorem exists_outcome (settles : List FileName → Except Failure Unit → Prop)
    {places : List (List FileName)} {results : List (Path × Except Failure Unit)}
    (hdistinct : places.Nodup)
    (h : List.Forall₂ (fun place result => result.1 = .ofNames place ∧ settles place result.2)
      places results) :
    ∃ outcome : List FileName → Except Failure Unit,
      results = places.map (fun place => (Path.ofNames place, outcome place)) ∧
        ∀ place ∈ places, settles place (outcome place) := by
  induction h with
  | nil => exact ⟨fun _ => .ok (), rfl, fun _ hmem => absurd hmem List.not_mem_nil⟩
  | @cons place result places results hresult _ ih =>
    obtain ⟨outcome, rfl, hsettles⟩ := ih (List.nodup_cons.1 hdistinct).2
    -- each place has one result, so the results are a function of the places
    have hne : ∀ other ∈ places, other ≠ place := by
      rintro other hmem rfl
      exact (List.nodup_cons.1 hdistinct).1 hmem
    refine ⟨Function.update outcome place result.2, ?_, List.forall_mem_cons.2 ⟨?_, ?_⟩⟩
    · rw [List.map_cons, Function.update_self, ← hresult.1]
      refine congrArg (result :: ·) (List.map_congr_left fun other hmem => ?_)
      rw [Function.update_of_ne (hne other hmem)]
    · rw [Function.update_self]
      exact hresult.2
    · intro other hmem
      rw [Function.update_of_ne (hne other hmem)]
      exact hsettles other hmem

omit walker workers in
/-- The report tells the outcome of each class. -/
private theorem report_map (places : List (List FileName))
    (outcome : List FileName → Except Failure Unit) :
    report (places.map fun place => (Path.ofNames place, outcome place)) =
      .ofOutcomes places outcome := by
  rw [report, DirectoryReport.ofOutcomes, List.filterMap_map, List.filterMap_map,
    DirectoryReport.mk.injEq]
  refine ⟨?_, rfl⟩
  rw [← List.filterMap_eq_filter, List.map_filterMap]
  refine List.filterMap_congr fun place _ => ?_
  cases houtcome : outcome place with
  | ok _ => simp [houtcome, Except.isOk, Except.toBool]
  | error failure => simp [houtcome, Except.isOk, Except.toBool, Option.guard]

/-! ### One run -/

/-- The classes are collected, the workers are started, and they stub the classes. -/
private theorem run_stubTree (options : StubOptions) (input output : Path) :
    (stubTree (m := Stepwise Disk) options input output).run =
      ((collectClasses input).run >>= fun collected =>
        match collected with
        | .error failure => pure (.error failure)
        | .ok classes => Workers.start options.threads >>= fun started =>
          match started with
          | .error error => pure (.error (.workers error))
          | .ok () => (fun results => .ok (report results)) <$>
              Workers.mapAll (stubClass options input output) classes) := by
  rw [stubTree, ExceptT.run_bind]
  refine bind_congr fun collected => ?_
  cases collected with
  | error failure => rfl
  | ok classes =>
    dsimp only
    rw [ExceptT.run_bind, run_onError, bind_map_left]
    refine bind_congr fun started => ?_
    cases started with
    | error error => rfl
    | ok _ =>
      have hlift : (liftM (Workers.mapAll (m := Stepwise Disk) (stubClass options input output)
          classes) : ExceptT Failure (Stepwise Disk) _).run =
            Except.ok <$> Workers.mapAll (stubClass options input output) classes := rfl
      change ExceptT.run (liftM (Workers.mapAll (m := Stepwise Disk)
        (stubClass options input output) classes) >>= fun results => pure (report results)) = _
      rw [ExceptT.run_bind, hlift, bind_map_left, ← bind_pure_comp]
      rfl

private theorem run_stubTree_of_start {classes : List Path}
    (hcollect : (collectClasses (m := Stepwise Disk) input).run.run disk = (.ok classes, disk))
    (hstart : (workers.start options.threads).run disk = (.ok (), disk)) :
    (stubTree (m := Stepwise Disk) options input output).run.run disk =
      (.ok (report ((workers.mapAll (stubClass options input output) classes).run disk).1),
        ((workers.mapAll (stubClass options input output) classes).run disk).2) := by
  rw [run_stubTree, Stepwise.run_bind, hcollect]
  dsimp only
  rw [Stepwise.run_bind, hstart]
  dsimp only
  rw [← bind_pure_comp, Stepwise.run_bind]
  rfl

/-- The places are those of the classes of the input, each of them once and in order. -/
def ListsClasses (disk : Disk) (input : Path) (places : List (List FileName)) : Prop :=
  Lists (fun place => ∃ number,
    disk.node? (disk.placeOf input ++ place) = some (.leaf (.regular number))) places

omit walker workers in
private theorem ListsClasses.mem_iff {places : List (List FileName)}
    (h : ListsClasses disk input places) :
    place ∈ places ↔ IsClass disk input place :=
  (Lists.mem_iff h place).trans ⟨fun h => ⟨h.1, h.2⟩, fun h => ⟨h.regular, h.endsInClass⟩⟩

section Collecting

variable (hwalker : LawfulWalker walker walk) (h : Stubbable disk input output)

include h

omit walker workers in
private theorem exists_entries : ∃ entries, disk.lookUp input = .ok (.dir entries) ∧
    (Tree.dir entries).IsProper IsFileName ∧
    (∀ place, (Tree.dir entries).node? place = disk.node? (disk.placeOf input ++ place)) ∧
    (CanWalk disk input ↔ SortedWalk.Open Disk.refusal? input (.dir entries)) := by
  obtain ⟨entries, hfound, hget, -⟩ := h.exists_found
  have hnode : ∀ place,
      (Tree.dir entries).node? place = disk.node? (disk.placeOf input ++ place) := by
    intro place
    rw [node?, Tree.node?_append, hget, Option.bind_some]
  refine ⟨entries, hfound, (h.proper.get? hget).mono fun hname => hname.toIsFileName, hnode, ?_⟩
  simp only [CanWalk, SortedWalk.Open, hnode]

include hwalker

omit workers in
private theorem exists_places (hcan : CanWalk disk input) : ∃ places,
    (collectClasses (m := Stepwise Disk) input).run.run disk =
      (.ok (places.map Path.ofNames), disk) ∧ ListsClasses disk input places := by
  obtain ⟨entries, hfound, hproper, hnode, hopen⟩ := exists_entries h
  obtain ⟨places, hrun, hlists⟩ := collectClasses_of_open hwalker.sorted hproper
    (hwalker.run_walk hfound) (hopen.1 hcan)
  refine ⟨places, hrun, fun place => ?_, hlists.nodup, hlists.sorted⟩
  have hregular : ∀ leaf : Leaf, leaf.isRegular = true ↔ ∃ number, leaf = .regular number := by
    rintro (number | _) <;> simp [Leaf.isRegular]
  rw [hlists.mem_iff, hnode]
  simp only [hregular]
  exact and_congr_left' ⟨fun ⟨leaf, hleaf, number, heq⟩ => ⟨number, heq ▸ hleaf⟩,
    fun ⟨number, hnumber⟩ => ⟨_, hnumber, number, rfl⟩⟩

omit workers in
private theorem exists_walkError (hnot : ¬ CanWalk disk input) : ∃ error,
    (collectClasses (m := Stepwise Disk) input).run.run disk = (.error (.walk error), disk) := by
  obtain ⟨entries, hfound, hproper, -, hopen⟩ := exists_entries h
  exact collectClasses_of_not_open hwalker.sorted hproper (hwalker.run_walk hfound)
    (mt hopen.2 hnot)

omit workers in
/-- The classes are collected without a look at the contents of files. -/
private theorem collectClasses_store (leaf : Leaf) (bytes : Bytes) :
    (collectClasses (m := Stepwise Disk) input).run.run (disk.store leaf bytes) =
      (((collectClasses (m := Stepwise Disk) input).run.run disk).1, disk.store leaf bytes) := by
  obtain ⟨entries, hfound, -⟩ := h.exists_found
  have hstored : (disk.store leaf bytes).lookUp input = .ok (.dir entries) := by
    cases leaf <;> exact hfound
  rw [run_collectClasses, run_collectClasses, hwalker.run_walk hfound, hwalker.run_walk hstored]

end Collecting

/-! ### What a run has done -/

/-- Why a class is not stubbed: it cannot be read, it has no stub, or its stub cannot be created,
which would go the same way if the class were the only one. -/
inductive Fails (options : StubOptions) (disk : Disk) (input output : Path)
    (place : List FileName) : Failure → Prop
  | unread {error : FileError} (hread : Disk.readFile (target input place) disk = .error error) :
      Fails options disk input output place (.io error)
  | refused {bytes : Bytes} {failure : Failure}
      (hread : Disk.readFile (target input place) disk = .ok bytes)
      (hstub : stubBytes options bytes = .error failure) :
      Fails options disk input output place failure
  | blocked {bytes stub : Bytes} {error : FileError}
      (hread : Disk.readFile (target input place) disk = .ok bytes)
      (hstub : stubBytes options bytes = .ok stub)
      (halone : disk.troubles = [] → ∃ alone,
        ((create (target output place) stub).run disk).1 = .error alone ∧
          Alike output.moves alone error) :
      Fails options disk input output place (.io error)

/-- What a run has done: the stubs of the classes that were stubbed are in the output. What is in
the place of another stub is as it was, unless the writing of that stub broke off. No other file
has changed. -/
structure IsRun (options : StubOptions) (disk : Disk) (input output : Path)
    (outcome : List FileName → Except Failure Unit) (final : Disk) : Prop where
  stubbed : ∀ place, IsClass disk input place → outcome place = .ok () → ∃ bytes stub,
    Disk.readFile (target input place) disk = .ok bytes ∧ stubBytes options bytes = .ok stub ∧
    final.file? (stubPlace disk output place) = some stub ∧
    Disk.readFile (target output place) final = .ok stub
  failed : ∀ place, IsClass disk input place → ∀ failure, outcome place = .error failure →
    Fails options disk input output place failure ∧
    (final.file? (stubPlace disk output place) = disk.file? (stubPlace disk output place) ∨
      disk.troubles ≠ [] ∧ ∃ bytes stub length,
        Disk.readFile (target input place) disk = .ok bytes ∧ stubBytes options bytes = .ok stub ∧
        final.file? (stubPlace disk output place) = some (stub.take length))
  unchanged : ∀ place, (∀ relative, IsClass disk input relative →
    place ≠ stubPlace disk output relative) → final.file? place = disk.file? place

section Settled

variable (h : Stubbable disk input output) (hclass : IsClass disk input place) {final : Disk}

include h hclass

omit walker workers in
/-- What is in the way of a stub would also be in the way if it were the only one. -/
private theorem exists_error_alone {stub : Bytes} {error fault : FileError}
    (hcalm : disk.troubles = [])
    (hstub : stubOfRead options (Disk.readFile (target input place) disk) = .ok stub)
    (hfault : createFault? disk (target output place) = some fault)
    (hstands : MayStandFor output.moves error fault) :
    ∃ alone, ((create (target output place) stub).run disk).1 = .error alone ∧
      Alike output.moves alone error := by
  obtain ⟨name, -, hname, hends, -⟩ := exists_lastName?_target (h.names hclass) hclass.ne_nil output
  obtain ⟨-, hcreates⟩ :=
    (safe_create (admitsFile_target h hclass) hname hends stub rfl).run (reached_start h)
  have hsettles := settles_of_creates h hclass hstub hcreates
  generalize ((create (target output place) stub).run disk).1 = result at hsettles ⊢
  cases result with
  | ok _ =>
    cases hsettles with
    | stubbed _ hnone => cases hfault.symm.trans hnone
  | error alone =>
    refine ⟨alone, rfl, ?_⟩
    generalize hfailure : Failure.io alone = failure at hsettles
    cases hsettles with
    | refused hstub' => cases hstub.symm.trans hstub'
    | blocked _ hfault' =>
      obtain ⟨fault', hfault', hstands'⟩ := hfault' hcalm
      obtain rfl := Option.some.inj (hfault.symm.trans hfault')
      cases hfailure
      exact hstands'.alike hstands

omit walker workers in
private theorem failed_of_settles {failure : Failure}
    (hsettles : Settles options disk input output place (.error failure) final) :
    Fails options disk input output place failure ∧
    (final.file? (stubPlace disk output place) = disk.file? (stubPlace disk output place) ∨
      disk.troubles ≠ [] ∧ ∃ bytes stub length,
        Disk.readFile (target input place) disk = .ok bytes ∧ stubBytes options bytes = .ok stub ∧
        final.file? (stubPlace disk output place) = some (stub.take length)) := by
  cases hsettles with
  | refused hstub hkept =>
    obtain ⟨error, hread, rfl⟩ | ⟨bytes, hread, hstub⟩ := stubOfRead_eq_error_iff.1 hstub
    · exact ⟨.unread hread, .inl hkept⟩
    · exact ⟨.refused hread hstub, .inl hkept⟩
  | @blocked stub _ _ hstub hfault hkept =>
    obtain ⟨bytes, hread, hbytes⟩ := stubOfRead_eq_ok_iff.1 hstub
    refine ⟨.blocked hread hbytes fun hcalm => ?_, hkept.imp_right ?_⟩
    · obtain ⟨fault, hfault, hstands⟩ := hfault hcalm
      exact exists_error_alone h hclass hcalm hstub hfault hstands
    · rintro ⟨htroubles, length, hfile⟩
      exact ⟨htroubles, bytes, stub, length, hread, hbytes, hfile⟩

omit walker workers in
private theorem stubbed_of_settles (hfinal : Reached disk input output final)
    (hsettles : Settles options disk input output place (.ok ()) final) : ∃ bytes stub,
    Disk.readFile (target input place) disk = .ok bytes ∧ stubBytes options bytes = .ok stub ∧
    final.file? (stubPlace disk output place) = some stub ∧
    Disk.readFile (target output place) final = .ok stub := by
  cases hsettles with
  | @stubbed stub _ _ hstub hfault hreach hfile =>
    obtain ⟨bytes, hread, hbytes⟩ := stubOfRead_eq_ok_iff.1 hstub
    obtain ⟨hvalid, hshort⟩ := of_createFault? hfault
    obtain ⟨name, -, hname, hends, -⟩ :=
      exists_lastName?_target (h.names hclass) hclass.ne_nil output
    refine ⟨bytes, stub, hread, hbytes, hfile, ?_⟩
    -- the path of the stub can be followed, since its directories are there
    have hplace : final.placeOf (target output place) = stubPlace disk output place :=
      (hfinal.grows.placeOf_eq _).trans (placeOf_target (h.names hclass) disk output)
    have hstart : final.start (target output place) = disk.start output :=
      (hfinal.grows.start_eq _).trans (start_target (h.names hclass) disk output)
    rw [← hstart] at hreach
    rw [← hplace] at hfile
    exact readFile_of_reach (hfinal.grows.hasWorkplace h.hasWorkplace) hvalid hname hends
      (hshort name hname) hreach hfile

end Settled

omit walker workers in
private theorem isRun_of_settles (h : Stubbable disk input output)
    {outcome : List FileName → Except Failure Unit} {final : Disk}
    (hfinal : Reached disk input output final)
    (hsettles : ∀ place, IsClass disk input place →
      Settles options disk input output place (outcome place) final) :
    IsRun options disk input output outcome final where
  stubbed place hclass hok := stubbed_of_settles h hclass hfinal (hok ▸ hsettles place hclass)
  failed place hclass _ hfailure :=
    failed_of_settles h hclass (hfailure ▸ hsettles place hclass)
  unchanged place hother := hfinal.kept place fun relative hclass heq =>
    absurd heq (hother relative hclass)

/-- All classes are settled when the workers are done. -/
private theorem settles_stubTree (hworkers : LawfulWorkers workers)
    (h : Stubbable disk input output) (options : StubOptions) {places : List (List FileName)}
    (hcollect : (collectClasses (m := Stepwise Disk) input).run.run disk =
      (.ok (places.map Path.ofNames), disk))
    (hplaces : ListsClasses disk input places)
    (hstart : ((workers.start options.threads).run disk).1 = .ok ()) : ∃ outcome final,
    (stubTree (m := Stepwise Disk) options input output).run.run disk =
      (.ok (.ofOutcomes places outcome), final) ∧ Reached disk input output final ∧
    ∀ place, IsClass disk input place →
      Settles options disk input output place (outcome place) final := by
  have hinterleaves :=
    hworkers.interleaves (stubClass options input output) (places.map Path.ofNames) disk
  -- all that matters of the workers is that they interleave the steps
  generalize hmapped : (workers.mapAll (stubClass options input output)
    (places.map Path.ofNames)).run disk = mapped at hinterleaves
  obtain ⟨hfinal, hresults⟩ := settles_of_interleaves h options hplaces.nodup
    (fun place hmem => hplaces.mem_iff.1 hmem) hinterleaves
  obtain ⟨outcome, hreport, hsettles⟩ := exists_outcome
    (fun place result => Settles options disk input output place result mapped.2)
    hplaces.nodup hresults
  refine ⟨outcome, mapped.2, ?_, hfinal, fun place hclass => ?_⟩
  · have hstarted : (workers.start options.threads).run disk = (.ok (), disk) :=
      Prod.ext hstart (hworkers.start options.threads disk)
    rw [run_stubTree_of_start hcollect hstarted, hmapped, hreport, report_map]
  · exact hsettles place (hplaces.mem_iff.2 hclass)

/-! ### Classes do not depend on each other -/

/-- The outcomes are the same, or errors of creating a file that are alike. -/
inductive OutcomesAlike (moves : List FileName) :
    Except Failure Unit → Except Failure Unit → Prop
  | same (outcome : Except Failure Unit) : OutcomesAlike moves outcome outcome
  | errors {first second : FileError} (h : Alike moves first second) :
      OutcomesAlike moves (.error (.io first)) (.error (.io second))

omit walker workers in
/-- Without a step `..` there is no exception. -/
private theorem OutcomesAlike.eq {moves : List FileName} {first second : Except Failure Unit}
    (h : OutcomesAlike moves first second) (habove : up ∉ moves) : first = second := by
  cases h with
  | same => rfl
  | errors halike =>
    obtain rfl | ⟨hmem, -⟩ := halike
    · rfl
    · exact absurd hmem habove

omit walker workers in
/-- There is one outcome for each class, as long as there is no trouble. -/
private theorem settles_alike {first second : Except Failure Unit} {final final' : Disk}
    (hcalm : disk.troubles = [])
    (hfirst : Settles options disk input output place first final)
    (hsecond : Settles options disk input output place second final') :
    OutcomesAlike output.moves first second ∧
      final'.file? (stubPlace disk output place) = final.file? (stubPlace disk output place) := by
  cases hfirst with
  | stubbed hstub hfault _ hfile =>
    cases hsecond with
    | stubbed hstub' _ _ hfile' =>
      obtain rfl := Except.ok.inj (hstub.symm.trans hstub')
      exact ⟨.same _, hfile'.trans hfile.symm⟩
    | refused hstub' => cases hstub.symm.trans hstub'
    | blocked _ hfault' =>
      obtain ⟨fault, hfault', -⟩ := hfault' hcalm
      cases hfault.symm.trans hfault'
  | refused hstub hkept =>
    cases hsecond with
    | refused hstub' hkept' =>
      obtain rfl := Except.error.inj (hstub.symm.trans hstub')
      exact ⟨.same _, hkept'.trans hkept.symm⟩
    | stubbed hstub' => cases hstub.symm.trans hstub'
    | blocked hstub' => cases hstub.symm.trans hstub'
  | blocked hstub hfault hkept =>
    obtain ⟨fault, hfault, hstands⟩ := hfault hcalm
    cases hsecond with
    | stubbed _ hfault' => cases hfault.symm.trans hfault'
    | refused hstub' => cases hstub.symm.trans hstub'
    | blocked _ hfault' hkept' =>
      -- both errors stand for the one fault that was there from the beginning
      obtain ⟨fault', hfault', hstands'⟩ := hfault' hcalm
      obtain rfl := Option.some.inj (hfault.symm.trans hfault')
      have hsame := hkept.resolve_right fun htrouble => htrouble.1 hcalm
      have hsame' := hkept'.resolve_right fun htrouble => htrouble.1 hcalm
      exact ⟨.errors (hstands.alike hstands'), hsame'.trans hsame.symm⟩

/-! ### Another content of one class -/

section Store

variable {number : Nat} {bytes : Bytes}

omit walker workers in
private theorem file?_store (hne : disk.node? place ≠ some (.leaf (.regular number))) :
    (disk.store (.regular number) bytes).file? place = disk.file? place := by
  refine file?_congr rfl fun other hother => ?_
  rw [contents_store, if_neg]
  rintro rfl
  exact hne hother

variable (h : Stubbable disk input output)

include h

omit walker workers in
private theorem stubbable_store : Stubbable (disk.store (.regular number) bytes) input output where
  proper := h.proper
  workplace := h.workplace
  isDir := h.isDir
  below := h.below
  above := h.above
  plain place leaf hclass := h.plain place leaf ⟨hclass.regular, hclass.endsInClass⟩

omit walker workers in
/-- A class that does not have the changed content is settled as before. -/
private theorem settles_of_store (hclass : IsClass disk input place)
    (hother : disk.node? (disk.placeOf input ++ place) ≠ some (.leaf (.regular number)))
    (hstubPlace : disk.node? (stubPlace disk output place) ≠ some (.leaf (.regular number)))
    {result : Except Failure Unit} {final : Disk}
    (hsettles : Settles options (disk.store (.regular number) bytes) input output place result
      final) : Settles options disk input output place result final := by
  have hread : Disk.readFile (target input place) (disk.store (.regular number) bytes) =
      Disk.readFile (target input place) disk := by
    have hgrows : Grows disk (disk.store (.regular number) bytes) := ⟨rfl, id⟩
    obtain ⟨content, hcontent, hread⟩ := h.readFile_target hclass (.refl disk)
    obtain ⟨content', hcontent', hread'⟩ := h.readFile_target hclass hgrows
    rw [file?_store hother] at hcontent'
    obtain rfl := Option.some.inj (hcontent.symm.trans hcontent')
    rw [hread, hread']
  have hfile : (disk.store (.regular number) bytes).file? (stubPlace disk output place) =
      disk.file? (stubPlace disk output place) := file?_store hstubPlace
  cases hsettles with
  | stubbed hstub hfault hreach hfile => exact .stubbed (hread ▸ hstub) hfault hreach hfile
  | refused hstub hkept => exact .refused (hread ▸ hstub) (hkept.trans hfile)
  | blocked hstub hfault hkept =>
    refine .blocked (hread ▸ hstub) hfault (hkept.imp_left fun hkept => hkept.trans hfile)

omit walker workers in
/-- No stub is written to the file of a class. -/
private theorem stubPlace_ne (hclass : IsClass disk input place) {changed : List FileName}
    (hchanged : disk.node? (disk.placeOf input ++ changed) = some (.leaf (.regular number))) :
    disk.node? (stubPlace disk output place) ≠ some (.leaf (.regular number)) := by
  intro hstub
  have hsame := (h.plain place _ hclass hstub).2 _ hchanged
  exact h.input_ne_output changed place hsame

end Store

/-- Another content of one class, and other workers, make no difference to what is reported and
written of classes that do not have this content, except that errors may be exchanged where the
path of the output has a step `..`. -/
def Isolates (options : StubOptions) (disk : Disk) (input output : Path)
    (places : List (List FileName)) (outcome : List FileName → Except Failure Unit)
    (final : Disk) : Prop :=
  ∀ changed number bytes, IsClass disk input changed →
    disk.node? (disk.placeOf input ++ changed) = some (.leaf (.regular number)) →
    ∀ workers : Workers (Stepwise Disk), LawfulWorkers workers →
      ((workers.start options.threads).run (disk.store (.regular number) bytes)).1 = .ok () →
      ∃ outcome' final',
        (stubTree (m := Stepwise Disk) options input output).run.run
            (disk.store (.regular number) bytes) =
          (.ok (.ofOutcomes places outcome'), final') ∧
        ∀ place ∈ places,
          disk.node? (disk.placeOf input ++ place) ≠ some (.leaf (.regular number)) →
          OutcomesAlike output.moves (outcome place) (outcome' place) ∧
          (up ∉ output.moves → outcome place = outcome' place) ∧
          final'.file? (stubPlace disk output place) = final.file? (stubPlace disk output place)

omit workers in
private theorem isolates_of_settles (hwalker : LawfulWalker walker walk)
    (h : Stubbable disk input output) {places : List (List FileName)}
    (hcollect : (collectClasses (m := Stepwise Disk) input).run.run disk =
      (.ok (places.map Path.ofNames), disk))
    (hplaces : ListsClasses disk input places) (hcalm : disk.troubles = [])
    {outcome : List FileName → Except Failure Unit} {final : Disk}
    (hsettles : ∀ place, IsClass disk input place →
      Settles options disk input output place (outcome place) final) :
    Isolates options disk input output places outcome final := by
  intro changed number bytes _ hchanged workers hworkers hstart
  have hcollect' := collectClasses_store hwalker h (.regular number) bytes
  rw [hcollect] at hcollect'
  obtain ⟨outcome', final', hrun, -, hsettles'⟩ :=
    settles_stubTree hworkers (stubbable_store h) options hcollect' hplaces hstart
  refine ⟨outcome', final', hrun, fun place hmem hother => ?_⟩
  have hclass := hplaces.mem_iff.1 hmem
  have hsettled := settles_of_store h hclass hother (stubPlace_ne h hclass hchanged)
    (hsettles' place ⟨hclass.regular, hclass.endsInClass⟩)
  obtain ⟨halike, hfile⟩ := settles_alike hcalm (hsettles place hclass) hsettled
  exact ⟨halike, halike.eq, hfile⟩

/-- A tree with two classes in one directory. -/
def pair : Tree Leaf :=
  .dir [(utf8Bytes "p", .dir [(utf8Bytes "q", .dir [(utf8Bytes "A.class", .leaf (.regular 1)),
    (utf8Bytes "B.class", .leaf (.regular 2))])])]

/-- The place of a class in `pair`. -/
def pairPlace (name : String) : List FileName :=
  [utf8Bytes "p", utf8Bytes "q", utf8Bytes name]

/-- A disk with two classes, of which the second one has a stub, and with something where the output
may be. -/
def pairWith (bytes : Bytes) (output : Tree Leaf) : Disk where
  root := .dir [(utf8Bytes "in", pair), (utf8Bytes "out", output)]
  contents number := if number = 1 then bytes else if number = 2 then greeter.encode else []
  workplace := []
  troubles := []

/-- A file in the place of a directory. -/
def fence : Tree Leaf := .dir [(utf8Bytes "p", .leaf (.regular 3))]

omit walker workers in
private theorem canWalk_pairWith (bytes : Bytes) (output : Tree Leaf) :
    CanWalk (pairWith bytes output) (.ofText "in") := by
  have hopen : SortedWalk.Open Disk.refusal? (.ofText "in") pair := by
    rw [pair, SortedWalk.open_dir_iff (by decide +kernel)]
    simp only [List.forall_mem_cons, List.not_mem_nil, IsEmpty.forall_iff, implies_true, and_true]
    rw [SortedWalk.open_dir_iff (by decide +kernel)]
    simp only [List.forall_mem_cons, List.not_mem_nil, IsEmpty.forall_iff, implies_true, and_true]
    rw [SortedWalk.open_dir_iff (by decide +kernel)]
    simp only [List.forall_mem_cons, SortedWalk.open_leaf, List.not_mem_nil, IsEmpty.forall_iff,
      implies_true, and_true]
    decide +kernel
  exact fun place hdir => hopen place hdir

omit walker workers in
private theorem placeOf_pairWith (bytes : Bytes) (output : Tree Leaf) (path : Path) :
    (pairWith bytes output).placeOf path = path.moves.foldl move [] := by
  rw [placeOf, start]
  split <;> rfl

omit walker workers in
/-- Two classes can be stubbed into a place where no stubs are. -/
private theorem stubbable_pairWith (bytes : Bytes) {path : Path} (output : List FileName)
    (houtput : path.moves.foldl move [] = output)
    (happart : ¬ [utf8Bytes "in"] <+: output ∧ ¬ output <+: [utf8Bytes "in"])
    (hplain : ∀ place leaf, EndsInClass place →
      (pairWith bytes fence).node? (output ++ place) ≠ some (.leaf leaf)) :
    Stubbable (pairWith bytes fence) (.ofText "in") path where
  proper := by
    simp only [pairWith, pair, fence, Tree.isProper_dir_iff, List.forall_mem_cons,
      List.not_mem_nil, IsEmpty.forall_iff, implies_true, and_true, Tree.IsProper.leaf,
      List.map_cons, List.map_nil]
    decide +kernel
  workplace := rfl
  isDir := ⟨_, rfl⟩
  below := by
    rw [placeOf_pairWith, placeOf_pairWith, houtput]
    exact happart.1
  above := by
    rw [placeOf_pairWith, placeOf_pairWith, houtput]
    exact happart.2
  plain place leaf hclass hleaf := by
    rw [stubPlace, placeOf_pairWith, houtput] at hleaf
    exact absurd hleaf (hplain place leaf hclass.endsInClass)

omit walker workers in
private theorem stubbable_beside (bytes : Bytes) :
    Stubbable (pairWith bytes fence) (.ofText "in") (.ofText "stubs") := by
  refine stubbable_pairWith bytes [utf8Bytes "stubs"] (by decide +kernel)
    (by decide +kernel) fun place leaf _ => ?_
  rw [pairWith, node?, List.singleton_append, Tree.node?_cons_dir]
  intro hleaf
  cases hleaf

omit walker workers in
/-- What is in the way is not in the place of a stub. -/
private theorem stubbable_roundabout (bytes : Bytes) :
    Stubbable (pairWith bytes fence) (.ofText "in") (.ofText "x/../out") := by
  refine stubbable_pairWith bytes [utf8Bytes "out"] (by decide +kernel)
    (by decide +kernel) fun place leaf hclass hleaf => ?_
  rw [pairWith, node?, List.singleton_append, Tree.node?_cons_dir] at hleaf
  change fence.node? place = some (.leaf leaf) at hleaf
  have hdistinct : ([(utf8Bytes "p", (Tree.leaf (Leaf.regular 3)))].map Prod.fst).Nodup := by
    decide
  cases place with
  | nil => cases hleaf
  | cons name rest =>
    rw [fence, Tree.node?_cons_dir, Option.bind_eq_some_iff] at hleaf
    obtain ⟨tree, hlookup, hleaf⟩ := hleaf
    rw [Tree.lookup_eq_some_iff_mem hdistinct, List.mem_singleton, Prod.mk.injEq] at hlookup
    obtain ⟨rfl, rfl⟩ := hlookup
    cases rest with
    | nil =>
      have hnot := (endsInClass_iff _).2 hclass
      revert hnot
      decide +kernel
    | cons _ _ => cases hleaf

omit walker workers in
private theorem stubBytes_nil :
    stubBytes ⟨false, .stub, none⟩ [] = .error (.decode (.unexpectedEnd 0)) :=
  rfl

omit walker workers in
theorem stubBytes_greeter :
    stubBytes ⟨false, .stub, none⟩ greeter.encode = .ok greeterStub.encode :=
  ClassFile.stubBytes_eq_ok_iff.2
    ⟨greeter, greeterStub, ClassFile.decode_greeter, stub_greeter, by simp, rfl⟩

omit walker workers in
/-- The two classes are collected in order. -/
private theorem collectClasses_pair (h : disk.lookUp (.ofText "in") = .ok pair) :
    (@collectClasses (Stepwise Disk) _ Disk.walker (.ofText "in")).run.run disk =
      (.ok ([pairPlace "A.class", pairPlace "B.class"].map Path.ofNames), disk) := by
  have hsort : ∀ first second : List (Except WalkError WalkEntry),
      [(utf8Bytes "A.class", first), (utf8Bytes "B.class", second)].mergeSort
          (fun a b => nameLE a.1 b.1) =
        [(utf8Bytes "A.class", first), (utf8Bytes "B.class", second)] := by
    have horder : nameLE (utf8Bytes "A.class") (utf8Bytes "B.class") = true := by decide +kernel
    exact fun _ _ => List.mergeSort_of_pairwise (by simp [horder])
  have hopens : ∀ place ∈ [[], [utf8Bytes "p"], [utf8Bytes "p", utf8Bytes "q"]],
      Disk.refusal? (Path.below (.ofText "in") place) = none := by decide +kernel
  simp only [List.forall_mem_cons, List.not_mem_nil, IsEmpty.forall_iff, implies_true, and_true,
    Path.below, List.foldl_cons, List.foldl_nil] at hopens
  have hitems : Disk.walkTree (.ofText "in") pair =
      [.ok ⟨.ofText "in", false⟩, .ok ⟨.ofText "in/p", false⟩, .ok ⟨.ofText "in/p/q", false⟩,
        .ok ⟨.ofText "in/p/q/A.class", true⟩, .ok ⟨.ofText "in/p/q/B.class", true⟩] := by
    simp only [pair, walkTree, walkEntries, hopens, hsort, List.mergeSort_singleton,
      List.flatMap_cons, List.flatMap_nil, List.append_nil]
    decide +kernel
  have hrelative : relativeClasses (.ofText "in") (Disk.walkTree (.ofText "in") pair) =
      .ok ([pairPlace "A.class", pairPlace "B.class"].map Path.ofNames) := by
    rw [hitems]
    decide +kernel
  rw [@run_collectClasses _ Disk.walker, Disk.run_walk h]
  exact congrArg (·, disk) hrelative

/-- What comes of stubbing the classes of `pair`, the first one first. -/
def runPair (disk : Disk) (output : Path) : Except Failure DirectoryReport × Disk :=
  (@stubTree (Stepwise Disk) _ _ Disk.walker Disk.oneByOne ⟨false, .stub, none⟩ (.ofText "in")
    output).run.run disk

omit walker workers in
private theorem runPair_eq (output : Path) (h : disk.lookUp (.ofText "in") = .ok pair) :
    runPair disk output =
      let mapped := (([pairPlace "A.class", pairPlace "B.class"].map Path.ofNames).mapM
        (stubClass (m := Stepwise Disk) ⟨false, .stub, none⟩ (.ofText "in") output)).run disk
      (.ok (report mapped.1), mapped.2) :=
  @run_stubTree_of_start _ _ _ _ Disk.walker Disk.oneByOne _ (collectClasses_pair h) rfl

/-- The stubs of `pair` can be written to `out`, where something may be already. -/
def pairInto (bytes : Bytes) (entries : List (FileName × Tree Leaf)) : Disk :=
  pairWith bytes (.dir [(utf8Bytes "p", .dir [(utf8Bytes "q", .dir entries)])])

/-- The disk is full when the first stub is written. -/
def fullDisk : Disk :=
  { pairInto greeter.encode [] with
    troubles := [none, none, some ⟨.other "No space left on device (os error 28)", 4⟩] }

/-- A device where the first stub belongs. -/
def deviceDisk : Disk := pairInto greeter.encode [(utf8Bytes "A.class", .leaf .device)]

/-- Both stubs belong into the same file, and the first class is broken. -/
def linkedDisk : Disk :=
  pairInto [] [(utf8Bytes "A.class", .leaf (.regular 3)), (utf8Bytes "B.class", .leaf (.regular 3))]

/-- Workers that cannot be started. -/
@[reducible]
def idle : Workers (Stepwise Disk) where
  start _ := return .error ⟨"no threads"⟩
  mapAll action items := items.mapM action

end Directory

end ClassStub
