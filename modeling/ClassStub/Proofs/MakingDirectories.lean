import ClassStub.Proofs.Faults
import ClassStub.Proofs.Interleavings
import ClassStub.Proofs.PathBeginnings

/-!
# Making directories

`FileStore.makeDirs` makes the directories on the way to a path. It tries the nearest one first
and goes up as long as something is missing. Seen from the places, it walks down along the moves of
the path and makes what is missing, unless something is in the way.

Others may work on the disk at the same time, and they may also make directories. What is needed is
that they let stand what is there, and that no file gets in the way (`Disk.Admits`). Then the
directories are all there when `makeDirs` is done, or it has come upon what was in the way from the
beginning (`Disk.safe_makeDirs`).

The error for a file in the way says whether the directory at its place was looked for on the way or
was to be made itself. Where a step `..` leads out of a directory that is missing, both can happen
for the same file (`Disk.MayStandFor`), since the directories behind the missing one are only tried
after it was made.
-/

namespace ClassStub

open FileName FileStore Stepwise

namespace Disk

/-! ### Errors that stand for a fault -/

/-- The error may be reported where the fault is in the way. -/
def MayStandFor (moves : List FileName) (error fault : FileError) : Prop :=
  error = fault ∨ (up ∈ moves ∧ error = .alreadyExists ∧ fault = .notDirectory)

/-- The exception is the larger, the more moves there are. -/
theorem MayStandFor.mono {moves more : List FileName} {error fault : FileError}
    (h : MayStandFor moves error fault) (hsub : moves ⊆ more) : MayStandFor more error fault :=
  h.imp_right fun hexception => ⟨hsub hexception.1, hexception.2⟩

private theorem MayStandFor.onTheWay {moves : List FileName} {error fault : FileError}
    (h : MayStandFor moves error fault) (hexception : fault = .alreadyExists → up ∈ moves) :
    MayStandFor moves error (onTheWay fault) := by
  obtain rfl | ⟨habove, rfl, rfl⟩ := h
  · by_cases herror : error = .alreadyExists
    · exact .inr ⟨hexception herror, herror, if_pos herror⟩
    · exact .inl (if_neg herror).symm
  · exact .inr ⟨habove, rfl, rfl⟩

/-! ### One directory -/

/-- Something stands at a place now, and all that stands elsewhere or is held by other files is as
it was. -/
structure Sets (place : List FileName) (node : Node Leaf) (before after : Disk) : Prop where
  workplace : after.workplace = before.workplace
  troubles : after.troubles = before.troubles.tail
  node?_eq : ∀ other, after.node? other = if other = place then some node else before.node? other
  contents : ∀ number, node ≠ .leaf (.regular number) →
    after.contents number = before.contents number

/-- What the leaf at a place holds. -/
def file? (disk : Disk) (place : List FileName) : Option Bytes :=
  match disk.node? place with
  | some (.leaf leaf) => some (disk.content leaf)
  | _ => none

variable {disk after : Disk} {path : Path} {place : List FileName}

/-- A file at a place is a leaf there. -/
theorem file?_eq_some_iff {content : Bytes} : disk.file? place = some content ↔
    ∃ leaf, disk.node? place = some (.leaf leaf) ∧ content = disk.content leaf := by
  rw [file?]
  cases disk.node? place with
  | none => simp
  | some node => cases node <;> simp [eq_comm]

/-- What a file holds depends on what stands at its place and on the contents of its number. -/
theorem file?_congr {other : Disk} (hnode : other.node? place = disk.node? place)
    (hcontents : ∀ number, disk.node? place = some (.leaf (.regular number)) →
      other.contents number = disk.contents number) : other.file? place = disk.file? place := by
  rw [file?, file?, hnode]
  cases hfound : disk.node? place with
  | none => rfl
  | some node =>
    cases node with
    | dir => rfl
    | leaf leaf =>
      cases leaf with
      | device => rfl
      | regular number => exact congrArg some (hcontents number hfound)

/-- What is set somewhere else under a name of its own makes no difference. -/
theorem Sets.file?_eq {node : Node Leaf} {other : List FileName} (h : Sets place node disk after)
    (hplace : other ≠ place) (hnode : disk.node? other ≠ some node) :
    after.file? other = disk.file? other := by
  refine file?_congr ((h.node?_eq other).trans (if_neg hplace)) fun number hnumber => ?_
  refine h.contents number ?_
  rintro rfl
  exact hnode hnumber

/-- A new directory makes no difference to files. -/
theorem Sets.file?_eq_of_dir (h : Sets place .dir disk after) (hnone : disk.node? place = none)
    (other : List FileName) : after.file? other = disk.file? other := by
  by_cases hplace : other = place
  · rw [file?, file?, h.node?_eq, if_pos hplace, hplace, hnone]
  · exact file?_congr ((h.node?_eq other).trans (if_neg hplace)) fun number _ =>
      h.contents number (nomatch ·)

/-- What is set where nothing was leaves everything else standing. -/
theorem Sets.grows {node : Node Leaf} (h : Sets place node disk after)
    (hplace : disk.node? place = none ∨ disk.node? place = some node) : Grows disk after := by
  refine ⟨h.workplace, fun {other node'} hother => ?_⟩
  rw [h.node?_eq]
  split
  case isTrue heq =>
    rw [heq] at hother
    obtain hnone | hsame := hplace
    · cases hnone.symm.trans hother
    · exact hsame.symm.trans hother
  case isFalse => exact hother

/-- Waiting for the next operation changes no place. -/
theorem grows_tick (disk : Disk) : Grows disk disk.tick := ⟨rfl, id⟩

/-- A directory that is made is new, and those on the way to it are there. -/
theorem sets_makeDir (h : disk.HasWorkplace) (hmake : makeDir path disk.tick = .ok ((), after)) :
    path.validate = .ok () ∧ disk.placeOf path ∈ visits (disk.start path) path.moves ∧
      disk.node? (disk.placeOf path) = none ∧ Sets (disk.placeOf path) .dir disk after ∧
      ∃ last, reach after.root (disk.start path) path.moves = .ok last := by
  have htick : disk.tick.HasWorkplace := (grows_tick disk).hasWorkplace h
  obtain ⟨place, hlocate, hnone, rfl⟩ := makeDir_eq_ok_iff.1 hmake
  have hput := node?_put_dir htick hlocate hnone
  obtain ⟨above, name, hname, -, hreach, hshort, -⟩ := locate_name htick hlocate (by simp [hnone])
  obtain rfl := locate_eq_ok htick hlocate
  have hplace : disk.tick.placeOf path = disk.placeOf path := rfl
  have hsets : Sets (disk.placeOf path) .dir disk
      (disk.tick.put (disk.tick.placeOf path) (.dir [])) := ⟨rfl, rfl, hput, fun _ _ => rfl⟩
  have hgrows := hsets.grows (.inl hnone)
  have hdir := hsets.node?_eq (disk.placeOf path)
  rw [if_pos rfl] at hdir
  have hne := Path.ne_up_of_lastName? hname
  have hmoves := Path.moves_eq_front_append path
  rw [hname, Option.toList_some] at hmoves
  have hlast : disk.placeOf path = path.front.foldl move (disk.start path) ++ [_] :=
    placeOf_of_name hname
  -- the directories above are still there, and the new one stands below them
  obtain ⟨habove, -⟩ := (reach_eq_ok_iff (htick.start path)).1 hreach
  have hfront := hgrows.reach_eq (h.start path) hreach
  refine ⟨validate_of_locate hlocate, ?_, hnone, hsets, disk.placeOf path, ?_⟩
  · rw [hmoves, visits_append, hlast, visits, move_of_ne hne]
    exact List.mem_append_right _ List.mem_cons_self
  · rw [hmoves, reach_concat, hfront]
    refine go_eq_ok_iff.2 ⟨?_, fun _ => ⟨hshort, hdir⟩⟩
    rw [move_of_ne hne, habove, hlast]
    rfl

/-! ### One directory that is not made -/

/-- A directory can be opened by a path that can be used. -/
theorem refusal?_eq_none_iff : refusal? path = none ↔ path.validate = .ok () := by
  rw [refusal?]
  cases path.validate with
  | ok _ => simp
  | error error => simp

/-- A path that cannot be used is refused for that reason. -/
theorem refusal?_eq_some_iff {error : FileError} :
    refusal? path = some error ↔ path.validate = .error error := by
  rw [refusal?]
  cases path.validate with
  | ok _ => simp
  | error error' => simp

/-- Why a directory is not made behind the one before it: its path cannot be used, one on the way
is missing, it is there already, or something is in the way. -/
inductive Refuses (disk : Disk) (path : Path) (front : List FileName) : FileError → Prop
  | unusable {error : FileError} (hrefused : path.validate = .error error) :
      Refuses disk path front error
  | missing {step : FileName} (hvalid : path.validate = .ok ())
      (hmoves : path.moves = front ++ [step])
      (hreach : reach disk.root (disk.start path) front = .error .notFound) :
      Refuses disk path front .notFound
  | there {last : List FileName} (hvalid : path.validate = .ok ())
      (hreach : reach disk.root (disk.start path) path.moves = .ok last) :
      Refuses disk path front .alreadyExists
  | blocked {error : FileError} (hvalid : path.validate = .ok ()) (hfound : error ≠ .notFound)
      (hfault : fault? disk.root (disk.start path) path.moves = some error) :
      Refuses disk path front error

section OnePath

variable (h : disk.HasWorkplace) (hvalid : path.validate = .ok ())

include h

private theorem reach_of_isDir (hdir : isDir path disk = true) : path.validate = .ok () ∧
    ∃ last, reach disk.root (disk.start path) path.moves = .ok last := by
  cases hvalid : path.validate with
  | ok _ => exact ⟨rfl, (isDir_iff h hvalid).1 hdir⟩
  | error error => cases (isDir_of_refused hvalid).symm.trans hdir

include hvalid

variable {front : List FileName} {step : FileName} {error : FileError}

omit h in
private theorem refuses_of_reach (hmoves : path.moves = front ++ [step])
    (hreach : reach disk.root (disk.start path) front = .error error) :
    Refuses disk path front error := by
  by_cases hmissing : error = .notFound
  · subst hmissing
    exact .missing hvalid hmoves hreach
  · obtain ⟨fault, hfault, rfl⟩ := exists_fault?_of_reach hreach hmissing
    refine .blocked hvalid hmissing ?_
    rw [hmoves]
    exact fault?_append hfault (List.cons_ne_nil step [])

/-- The path leads to a directory. -/
private theorem refuses_of_none (hname : path.lastName? = none)
    (hmoves : path.moves = [] ∨ path.moves = front ++ [up])
    (herror : makeDir path disk = .error error) : Refuses disk path front error := by
  rw [makeDir_eq_error_iff, locate_of_none h hvalid hname] at herror
  obtain hreach | ⟨last, hreach, -, rfl⟩ := herror
  · obtain hnil | hmoves := hmoves
    · rw [hnil] at hreach
      cases reach_nil.symm.trans hreach
    · refine refuses_of_reach hvalid hmoves ?_
      rw [hmoves, reach_concat, bind_eq_error_iff] at hreach
      obtain hfront | ⟨above, -, hgo⟩ := hreach
      · exact hfront
      · -- the directory above is always there
        cases go_above.symm.trans hgo
  · exact .there hvalid hreach

/-- The path leads to an entry of a directory. -/
private theorem refuses_of_name (hname : path.lastName? = some step)
    (hmoves : path.moves = front ++ [step]) (herror : makeDir path disk = .error error) :
    Refuses disk path front error := by
  have hne := Path.ne_up_of_lastName? hname
  obtain rfl := Path.front_eq_of_moves hname hmoves
  rw [makeDir_eq_error_iff] at herror
  cases hreach : reach disk.root (disk.start path) path.front with
  | error error' =>
    rw [locate_of_name h hvalid hname, hreach] at herror
    obtain hlocate | ⟨last, hlocate, -⟩ := herror
    · obtain rfl : error' = error := Except.error.inj hlocate
      exact refuses_of_reach hvalid hmoves hreach
    · cases hlocate
  | ok above =>
    rw [locate_of_reach h hvalid hname hreach] at herror
    have hfault := fault?_concat (fault?_of_reach hreach) step
    rw [← ((reach_eq_ok_iff (h.start path)).1 hreach).1, ← hmoves] at hfault
    cases hshort : checkName step with
    | error long =>
      rw [hshort] at herror
      obtain hlong | ⟨place, hplace, -⟩ := herror
      · obtain rfl : long = error := Except.error.inj hlong
        obtain rfl := (checkName_eq_error_iff.1 hshort).2
        refine .blocked hvalid ?_ (hfault.trans (fault?_of_long hne hshort))
        intro h
        cases h
      · cases hplace
    | ok _ =>
      rw [hshort] at herror
      obtain hlocate | ⟨place, hplace, hnode, rfl⟩ := herror
      · cases hlocate
      · obtain rfl : above ++ [step] = place := Except.ok.inj hplace
        cases hfound : disk.node? (above ++ [step]) with
        | none => exact absurd hfound hnode
        | some node =>
          cases node with
          | dir =>
            have hgo : go disk.root above step = .ok (above ++ [step]) :=
              go_eq_ok_iff.2 ⟨(move_of_ne hne above).symm, fun _ => ⟨hshort, hfound⟩⟩
            have hlast : reach disk.root (disk.start path) path.moves =
                .ok (above ++ [step]) := by
              rw [hmoves, reach_concat, hreach]
              exact hgo
            exact .there hvalid hlast
          | leaf leaf =>
            refine .blocked hvalid ?_ (hfault.trans (fault?_of_file hne hshort ⟨leaf, hfound⟩))
            intro h
            cases h

end OnePath

/-- The next directory on the way down is not made for one of these reasons. -/
private theorem refuses_of_makeDir (h : disk.HasWorkplace) {length : Nat} {above : List Nat}
    (hdown : path.Descends (length :: above)) {error : FileError}
    (herror : makeDir (path.upTo length) disk = .error error) :
    Refuses disk (path.upTo length) (path.movesUpTo above) error := by
  cases hvalid : (path.upTo length).validate with
  | error refused =>
    rw [makeDir, locate_of_refused hvalid] at herror
    obtain rfl : refused = error := Except.error.inj herror
    exact .unusable hvalid
  | ok _ =>
    cases hdown with
    | stay hpos hmoves hname => exact refuses_of_none h hvalid hname (.inl hmoves) herror
    | enter hpos hlonger hmoves hname => exact refuses_of_name h hvalid hname hmoves herror
    | back hpos hlonger hmoves hname => exact refuses_of_none h hvalid hname (.inr hmoves) herror

/-- The places on the way to the directories above are also on the way to one below them. -/
private theorem visits_above_subset {length : Nat} {above : List Nat}
    (hdown : path.Descends (length :: above)) (place : List FileName) :
    ∀ visit ∈ visits place (path.movesUpTo above),
      visit ∈ visits place (path.upTo length).moves := by
  have hconcat : ∀ {step : FileName}, (path.upTo length).moves = path.movesUpTo above ++ [step] →
      ∀ visit ∈ visits place (path.movesUpTo above),
        visit ∈ visits place (path.upTo length).moves := by
    intro step hmoves visit hvisit
    rw [hmoves, visits_append]
    exact List.mem_append_left _ hvisit
  cases hdown with
  | stay => exact fun visit hvisit => absurd hvisit List.not_mem_nil
  | enter _ _ hmoves _ _ => exact hconcat hmoves
  | back _ _ hmoves _ _ => exact hconcat hmoves

/-! ### Working on a disk with others -/

/-- A computation with the contract may make the directories on the way to a path, on a disk that
was `before` at first. Others let stand what is there and leave the file at the place of the path
alone, and no file gets in the way. -/
structure Admits (invariant : Disk → Prop) (contract : Contract Disk) (before : Disk)
    (path : Path) : Prop where
  hasWorkplace : before.HasWorkplace
  grown : ∀ {disk}, invariant disk → Grows before disk
  hasFile_iff : ∀ {disk visit}, invariant disk → visit ∈ visits (before.start path) path.front →
    (HasFile disk.root visit ↔ HasFile before.root visit)
  calm : ∀ {disk}, invariant disk → before.troubles = [] → disk.troubles = []
  grows : ∀ {disk later}, contract.rely disk later → Grows disk later
  file?_eq : ∀ {disk later}, contract.rely disk later →
    later.file? (before.placeOf path) = disk.file? (before.placeOf path)
  look : ∀ disk, contract.guarantee disk disk
  tick : ∀ {disk}, invariant disk → invariant disk.tick ∧ contract.guarantee disk disk.tick
  dir : ∀ {disk later visit}, invariant disk → visit ∈ visits (before.start path) path.front →
    disk.node? visit = none → Sets visit .dir disk later →
      invariant later ∧ contract.guarantee disk later

/-- Why the directories of these lengths cannot be made: because of the text of the path to the
nearest one, or because of something in the way. -/
def wayFault? (disk : Disk) (path : Path) (ends : List Nat) : Option FileError :=
  (ends.head?.bind fun length => refusal? (path.upTo length)).or
    (fault? disk.root (disk.start path) (path.movesUpTo ends))

/-- If the paths can be used, then only something on the way is in the way. -/
theorem wayFault?_eq {ends : List Nat}
    (hvalid : ∀ length ∈ ends.head?, (path.upTo length).validate = .ok ()) :
    wayFault? disk path ends = fault? disk.root (disk.start path) (path.movesUpTo ends) := by
  rw [wayFault?]
  cases hends : ends.head? with
  | none => rfl
  | some length =>
    rw [Option.bind_some, refusal?_eq_none_iff.2 (hvalid length (by simp [hends]))]
    rfl

private theorem wayFault?_cons {length : Nat} (above : List Nat)
    (hvalid : (path.upTo length).validate = .ok ()) :
    wayFault? disk path (length :: above) =
      fault? disk.root (disk.start path) (path.upTo length).moves := by
  rw [wayFault?, List.head?_cons, Option.bind_some, refusal?_eq_none_iff.2 hvalid, Option.none_or]
  rfl

/-- What comes of making some directories: all of them are there, or something was in the way from
the beginning. -/
structure Makes (before : Disk) (path : Path) (ends : List Nat) (result : Except FileError Unit)
    (disk : Disk) : Prop where
  kept : disk.file? (before.placeOf path) = before.file? (before.placeOf path)
  made : result = .ok () → (∀ length ∈ ends.head?, (path.upTo length).validate = .ok ()) ∧
    ∃ last, reach disk.root (before.start path) (path.movesUpTo ends) = .ok last
  failed : ∀ error, result = .error error → before.troubles = [] →
    ∃ fault, wayFault? before path ends = some fault ∧
      MayStandFor (path.movesUpTo ends) error fault

/-- What comes of making a single directory. If it was not made, then there was a reason at some
time since the disk was `earlier`. -/
structure Tries (invariant : Disk → Prop) (before earlier : Disk) (path : Path)
    (length : Nat) (above : List Nat) (result : Except FileError Unit) (disk : Disk) : Prop where
  kept : disk.file? (before.placeOf path) = before.file? (before.placeOf path)
  made : result = .ok () → (path.upTo length).validate = .ok () ∧
    ∃ last, reach disk.root (before.start path) (path.upTo length).moves = .ok last
  failed : ∀ error, result = .error error → before.troubles = [] →
    ∃ middle, invariant middle ∧ Grows earlier middle ∧ Grows middle disk ∧
      Refuses middle (path.upTo length) (path.movesUpTo above) error

section Together

variable {invariant : Disk → Prop} {contract : Contract Disk} {before earlier : Disk}
  (hadmits : Admits invariant contract before path)

include hadmits

/-- Nothing goes wrong for other reasons if nothing was to go wrong at first. -/
theorem Admits.trouble?_eq_none (hdisk : invariant disk) (hcalm : before.troubles = []) :
    disk.trouble? = none :=
  (tick_of_calm (hadmits.calm hdisk hcalm)).2

/-- The start of the path stays a directory. -/
theorem Admits.start_isDir (hdisk : invariant disk) :
    disk.node? (before.start path) = some .dir :=
  (hadmits.grown hdisk).node?_eq (hadmits.hasWorkplace.start path)

/-- The working directory stays. -/
theorem Admits.hasWorkplace_of (hdisk : invariant disk) : disk.HasWorkplace :=
  (hadmits.grown hdisk).hasWorkplace hadmits.hasWorkplace

/-- What is in the way does not change while others work. -/
theorem Admits.fault?_eq (hdisk : invariant disk) {moves : List FileName}
    (hsub : ∀ visit ∈ visits (before.start path) moves,
      visit ∈ visits (before.start path) path.front) :
    fault? disk.root (before.start path) moves = fault? before.root (before.start path) moves :=
  fault?_congr fun visit hvisit => hadmits.hasFile_iff hdisk (hsub visit hvisit)

private theorem Admits.start_upTo {length : Nat} (hpos : 0 < length) (hdisk : invariant disk) :
    disk.start (path.upTo length) = before.start path := by
  rw [(hadmits.grown hdisk).start_eq, start, start, path.isAbsolute_upTo hpos]

/-- Others leave the file at the place of the path as it is. -/
theorem Admits.kept_of_rely {later : Disk} (hrely : contract.rely disk later)
    (hkept : disk.file? (before.placeOf path) = before.file? (before.placeOf path)) :
    later.file? (before.placeOf path) = before.file? (before.placeOf path) :=
  (hadmits.file?_eq hrely).trans hkept

/-- Directories that are there stay there. -/
theorem Admits.reach_eq {later : Disk} {moves last : List FileName} (hdisk : invariant disk)
    (hgrows : Grows disk later) (hreach : reach disk.root (before.start path) moves = .ok last) :
    reach later.root (before.start path) moves = .ok last :=
  hgrows.reach_eq (hadmits.start_isDir hdisk) hreach

section OneLength

variable {length : Nat} {above : List Nat} (hdown : path.Descends (length :: above))
  (hsub : ∀ visit ∈ visits (before.start path) (path.upTo length).moves,
    visit ∈ visits (before.start path) path.front)

include hdown hsub

private theorem safe_makeDir
    (hkept : disk.file? (before.placeOf path) = before.file? (before.placeOf path)) :
    Safe invariant contract (Tries invariant before disk path length above)
      (FileStore.makeDir (path.upTo length)) disk := by
  refine safe_act fun now hnow hrely => ?_
  have hworkplace := hadmits.hasWorkplace_of hnow
  have hstart := hadmits.start_upTo (hdown.pos_of_mem length List.mem_cons_self) hnow
  have hkeptNow := hadmits.kept_of_rely hrely hkept
  obtain ⟨htick, hguarantee⟩ := hadmits.tick hnow
  obtain ⟨trouble, htrouble, hrun⟩ | ⟨-, ⟨⟨⟩, made, hmake, hrun⟩ | ⟨error, hmake, hrun⟩⟩ :=
    attempt_cases (makeDir (path.upTo length)) now
  · rw [hrun]
    refine ⟨htick, hguarantee, fun later hlater hrely' => ⟨?_, (nomatch ·), ?_⟩⟩
    · exact hadmits.kept_of_rely hrely' hkeptNow
    · intro error _ hcalm
      cases (hadmits.trouble?_eq_none hnow hcalm).symm.trans htrouble
  · rw [hrun]
    obtain ⟨hvalid, hmem, hnone, hsets, last, hreach⟩ := sets_makeDir hworkplace hmake
    rw [hstart] at hmem hreach
    obtain ⟨hmade, hguarantee⟩ := hadmits.dir hnow (hsub _ hmem) hnone hsets
    refine ⟨hmade, hguarantee, fun later hlater hrely' =>
      ⟨?_, fun _ => ⟨hvalid, last, ?_⟩, fun _ => (nomatch ·)⟩⟩
    · exact hadmits.kept_of_rely hrely' ((hsets.file?_eq_of_dir hnone _).trans hkeptNow)
    · exact hadmits.reach_eq hmade (hadmits.grows hrely') hreach
  · rw [hrun]
    refine ⟨htick, hguarantee, fun later hlater hrely' => ⟨?_, (nomatch ·), ?_⟩⟩
    · exact hadmits.kept_of_rely hrely' hkeptNow
    · rintro _ ⟨⟩ -
      have hrefuses := refuses_of_makeDir (hadmits.hasWorkplace_of htick) hdown hmake
      exact ⟨now.tick, htick, (hadmits.grows hrely).trans (grows_tick now),
        hadmits.grows hrely', hrefuses⟩

/-- A directory that could not be made may be there all the same. If it is not, then something was
in the way. -/
private theorem safe_isDir {error : FileError}
    (htries : Tries invariant before earlier path length above (.error error) disk)
    (hfound : ∀ middle, invariant middle → Grows earlier middle → error = .notFound →
      reach middle.root (before.start path) (path.movesUpTo above) ≠ .error .notFound) :
    Safe invariant contract (Makes before path (length :: above))
      (FileStore.isDir (path.upTo length) >>= fun found =>
        if found then pure (.ok ()) else pure (.error error)) disk := by
  have hpos := hdown.pos_of_mem length List.mem_cons_self
  have hlook : Safe invariant contract (fun found now =>
      now.file? (before.placeOf path) = before.file? (before.placeOf path) ∧
      (found = true → (path.upTo length).validate = .ok () ∧
        ∃ last, reach now.root (before.start path) (path.upTo length).moves = .ok last) ∧
      (found = false → before.troubles = [] →
        wayFault? before path (length :: above) = some error))
      (FileStore.isDir (m := Stepwise Disk) (path.upTo length)) disk := by
    refine safe_act fun now hnow hrely => ⟨hnow, hadmits.look now, fun later hlater hrely' => ?_⟩
    have hworkplace := hadmits.hasWorkplace_of hnow
    have hstart := hadmits.start_upTo hpos hnow
    refine ⟨hadmits.kept_of_rely hrely' (hadmits.kept_of_rely hrely htries.kept), ?_, ?_⟩
    · intro hdir
      obtain ⟨hvalid, last, hreach⟩ := reach_of_isDir hworkplace hdir
      rw [hstart] at hreach
      exact ⟨hvalid, last, hadmits.reach_eq hnow (hadmits.grows hrely') hreach⟩
    · intro hnot hcalm
      obtain ⟨middle, hmiddle, hearlier, hgrows, hrefuses⟩ := htries.failed error rfl hcalm
      have hstartMiddle := hadmits.start_upTo hpos hmiddle
      cases hrefuses with
      | unusable hrefused =>
        rw [wayFault?, List.head?_cons, Option.bind_some, refusal?_eq_some_iff.2 hrefused,
          Option.some_or]
      | missing hvalid hmoves hreach =>
        rw [hstartMiddle] at hreach
        exact absurd hreach (hfound middle hmiddle hearlier rfl)
      | there hvalid hreach =>
        -- what was there is still there
        rw [hstartMiddle] at hreach
        have hlast := hadmits.reach_eq hmiddle (hgrows.trans (hadmits.grows hrely)) hreach
        rw [← hstart] at hlast
        cases hnot.symm.trans ((isDir_iff hworkplace hvalid).2 ⟨_, hlast⟩)
      | blocked hvalid _ hfault =>
        rw [hstartMiddle, hadmits.fault?_eq hmiddle hsub] at hfault
        rw [wayFault?_cons above hvalid, hfault]
  refine hlook.bind fun found now hnow hbetween => ?_
  obtain ⟨hkept, hdir, hfault⟩ := hbetween
  cases found with
  | true =>
    obtain ⟨hvalid, last, hreach⟩ := hdir rfl
    refine safe_pure fun later hlater hrely => ⟨hadmits.kept_of_rely hrely hkept, ?_, ?_⟩
    · exact fun _ => ⟨by simpa using hvalid, last,
        hadmits.reach_eq hnow (hadmits.grows hrely) hreach⟩
    · exact fun _ => (nomatch ·)
  | false =>
    refine safe_pure fun later hlater hrely => ⟨hadmits.kept_of_rely hrely hkept, (nomatch ·), ?_⟩
    rintro _ ⟨⟩ hcalm
    exact ⟨error, hfault rfl hcalm, .inl rfl⟩

omit hdown hsub in
private theorem Tries.safe_pure (h : Tries invariant before earlier path length above (.ok ()) disk)
    (hdisk : invariant disk) :
    Safe invariant contract (Makes before path (length :: above)) (pure (.ok ())) disk := by
  obtain ⟨hvalid, last, hreach⟩ := h.made rfl
  refine Stepwise.safe_pure fun later hlater hrely => ⟨hadmits.kept_of_rely hrely h.kept, ?_, ?_⟩
  · exact fun _ => ⟨by simpa using hvalid, last,
      hadmits.reach_eq hdisk (hadmits.grows hrely) hreach⟩
  · exact fun _ => (nomatch ·)

/-- What was in the way of the directories above is in the way of one below them. -/
private theorem exists_wayFault?_of_above {error : FileError} (hcalm : before.troubles = [])
    (htries : Tries invariant before earlier path length above (.error .notFound) disk)
    {fault : FileError} (hfault : wayFault? before path above = some fault)
    (hstands : MayStandFor (path.movesUpTo above) error fault) :
    ∃ fault, wayFault? before path (length :: above) = some fault ∧
      MayStandFor (path.upTo length).moves error fault := by
  have hpos := hdown.pos_of_mem length List.mem_cons_self
  obtain ⟨middle, hmiddle, -, -, hrefuses⟩ := htries.failed _ rfl hcalm
  cases hrefuses with
  | blocked _ hfound _ => exact absurd rfl hfound
  | unusable hrefused =>
    -- only the empty path is not found for what it is, and there is nothing above it
    rw [hdown.above_eq_nil hrefused] at hfault
    cases hfault
  | @missing step hvalid hmoves hreach =>
    have hsubFront := fun visit hvisit => hsub visit (visits_above_subset hdown _ visit hvisit)
    rw [hadmits.start_upTo hpos hmiddle] at hreach
    rw [wayFault?_eq (hdown.validate_above hvalid)] at hfault
    refine ⟨onTheWay fault, ?_, ?_⟩
    · rw [wayFault?_cons above hvalid, hmoves]
      exact fault?_append hfault (List.cons_ne_nil step [])
    · rw [hmoves]
      refine (hstands.onTheWay ?_).mono (List.subset_append_left _ _)
      rintro rfl
      by_contra hnot
      rw [← hadmits.fault?_eq hmiddle hsubFront] at hfault
      exact ne_alreadyExists_of_reach hnot hreach hfault

/-- One step further down. -/
private theorem safe_makeDirs_cons (habove : ∀ {disk : Disk},
      disk.file? (before.placeOf path) = before.file? (before.placeOf path) →
        Safe invariant contract (Makes before path above) (makeDirs path above) disk)
    (hkept : disk.file? (before.placeOf path) = before.file? (before.placeOf path)) :
    Safe invariant contract (Makes before path (length :: above))
      (makeDirs path (length :: above)) disk := by
  rw [makeDirs]
  refine (safe_makeDir hadmits hdown hsub hkept).bind fun result now hnow htries => ?_
  cases result with
  | ok _ => exact htries.safe_pure hadmits hnow
  | error error =>
    by_cases hmissing : error = .notFound
    · subst hmissing
      -- the directory above is missing, so it is made first
      refine (habove htries.kept).bind fun result now hnow hmakes => ?_
      cases result with
      | error error =>
        refine safe_pure fun later hlater hrely =>
          ⟨hadmits.kept_of_rely hrely hmakes.kept, (nomatch ·), ?_⟩
        rintro _ ⟨⟩ hcalm
        obtain ⟨fault, hfault, hstands⟩ := hmakes.failed error rfl hcalm
        exact exists_wayFault?_of_above hadmits hdown hsub hcalm htries hfault hstands
      | ok _ =>
        obtain ⟨-, last, hreach⟩ := hmakes.made rfl
        -- the directory is tried again
        refine (safe_makeDir hadmits hdown hsub hmakes.kept).bind
          fun result later hlater htries => ?_
        cases result with
        | ok _ => exact htries.safe_pure hadmits hlater
        | error error =>
          refine safe_isDir hadmits hdown hsub htries fun middle hmiddle hgrows _ hnone => ?_
          cases hnone.symm.trans (hadmits.reach_eq hnow hgrows hreach)
    · -- whatever else the error is, the directory may be there all the same
      have hsafe := safe_isDir hadmits hdown hsub htries fun _ _ _ h => absurd h hmissing
      cases error with
      | notFound => exact absurd rfl hmissing
      | _ => exact hsafe

end OneLength

/-- **The directories on the way to a path are made, unless something is in the way.** -/
theorem safe_makeDirs {ends : List Nat} (hdown : path.Descends ends)
    (hsub : ∀ visit ∈ visits (before.start path) (path.movesUpTo ends),
      visit ∈ visits (before.start path) path.front)
    (hkept : disk.file? (before.placeOf path) = before.file? (before.placeOf path)) :
    Safe invariant contract (Makes before path ends) (makeDirs path ends) disk := by
  induction ends generalizing disk with
  | nil =>
    refine safe_pure fun later hlater hrely => ⟨hadmits.kept_of_rely hrely hkept, ?_, ?_⟩
    · exact fun _ => ⟨by simp, _, reach_nil⟩
    · exact fun _ => (nomatch ·)
  | cons length above ih =>
    have hsubAbove := fun visit hvisit => hsub visit (visits_above_subset hdown _ visit hvisit)
    exact safe_makeDirs_cons hadmits hdown hsub (ih hdown.above hsubAbove) hkept

end Together

end Disk

end ClassStub
