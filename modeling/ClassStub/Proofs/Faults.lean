import ClassStub.Proofs.DiskOperations

/-!
# What is in the way of a directory

The directories along some moves can all be made, unless a name is too long or a file is in the way.
What fails can be told from the files that are there and from the moves alone (`Disk.fault?`):
directories make no difference, whether they are there already or are added meanwhile
(`Disk.fault?_congr`).

The error of going through directories that are there is that of what is in the way
(`Disk.exists_fault?_of_reach`). If one is missing, a file can only be in the way behind a step `..`
(`Disk.ne_alreadyExists_of_reach`).
-/

namespace ClassStub

open FileName

namespace Disk

/-! ### Growth -/

/-- What was there is still there. Contents may have changed. -/
structure Grows (before after : Disk) : Prop where
  workplace : after.workplace = before.workplace
  node?_eq : ∀ {place node}, before.node? place = some node → after.node? place = some node

section Growth

variable {before middle after : Disk}

theorem Grows.refl (disk : Disk) : Grows disk disk := ⟨rfl, id⟩

/-- What stays twice stays. -/
theorem Grows.trans (hfirst : Grows before middle) (hsecond : Grows middle after) :
    Grows before after :=
  ⟨hsecond.workplace.trans hfirst.workplace, fun h => hsecond.node?_eq (hfirst.node?_eq h)⟩

/-- Paths start from where they started. -/
theorem Grows.start_eq (h : Grows before after) (path : Path) :
    after.start path = before.start path := by
  rw [start, start, h.workplace]

/-- A path leads to the place that it led to. -/
theorem Grows.placeOf_eq (h : Grows before after) (path : Path) :
    after.placeOf path = before.placeOf path := by
  rw [placeOf, placeOf, h.start_eq]

/-- The working directory stays. -/
theorem Grows.hasWorkplace (h : Grows before after) (hworkplace : before.HasWorkplace) :
    after.HasWorkplace where
  isDir := h.workplace ▸ h.node?_eq hworkplace.isDir
  names := h.workplace ▸ hworkplace.names

/-- Moves that could be gone can still be gone. -/
theorem Grows.reach_eq (h : Grows before after) {place moves last : List FileName}
    (hplace : before.node? place = some .dir) (hreach : reach before.root place moves = .ok last) :
    reach after.root place moves = .ok last := by
  obtain ⟨hlast, hshorts, hdirs⟩ := (reach_eq_ok_iff hplace).1 hreach
  exact (reach_eq_ok_iff (h.node?_eq hplace)).2
    ⟨hlast, hshorts, fun visit hvisit => h.node?_eq (hdirs visit hvisit)⟩

end Growth

/-! ### What is in the way -/

/-- A file stands at the place. -/
def HasFile (root : Tree Leaf) (place : List FileName) : Prop :=
  ∃ leaf, root.node? place = some (.leaf leaf)

/-- Why the directories along some moves cannot all be made: a name is too long, or a file stands
where a directory should be. -/
def fault? (root : Tree Leaf) (place : List FileName) : List FileName → Option FileError
  | [] => none
  | step :: steps =>
    if step = up then
      fault? root place.dropLast steps
    else
      match checkName step, root.node? (place ++ [step]) with
      | .error error, _ => some error
      | .ok (), some (.leaf _) => some (if steps.isEmpty then .alreadyExists else .notDirectory)
      | .ok (), _ => fault? root (place ++ [step]) steps

section Faults

variable {root other : Tree Leaf} {place : List FileName} {step : FileName}
  {steps : List FileName}

private theorem fault?_above : fault? root place (up :: steps) = fault? root place.dropLast steps :=
  if_pos rfl

/-- A name that is too long is in the way. -/
theorem fault?_of_long {error : FileError} (hname : step ≠ up)
    (hlong : checkName step = .error error) :
    fault? root place (step :: steps) = some error := by
  rw [fault?, if_neg hname, hlong]

/-- A file is in the way. It is reported differently where it stands at the last place. -/
theorem fault?_of_file (hname : step ≠ up) (hshort : checkName step = .ok ())
    (hfile : HasFile root (place ++ [step])) :
    fault? root place (step :: steps) =
      some (if steps.isEmpty then .alreadyExists else .notDirectory) := by
  obtain ⟨content, hcontent⟩ := hfile
  rw [fault?, if_neg hname, hshort, hcontent]

private theorem fault?_of_not_file (hname : step ≠ up) (hshort : checkName step = .ok ())
    (hfile : ¬ HasFile root (place ++ [step])) :
    fault? root place (step :: steps) = fault? root (place ++ [step]) steps := by
  rw [fault?, if_neg hname, hshort]
  cases hnode : root.node? (place ++ [step]) with
  | none => rfl
  | some node =>
    cases node with
    | dir => rfl
    | leaf leaf => exact absurd ⟨leaf, hnode⟩ hfile

/-- What is in the way depends on the files that are met. -/
theorem fault?_congr {moves : List FileName}
    (hfiles : ∀ visit ∈ visits place moves, HasFile root visit ↔ HasFile other visit) :
    fault? root place moves = fault? other place moves := by
  induction moves generalizing place with
  | nil => rfl
  | cons step steps ih =>
    rw [visits, List.forall_mem_cons] at hfiles
    by_cases hname : step = up
    · rw [hname, fault?_above, fault?_above]
      refine ih ?_
      rw [hname, move, if_pos rfl] at hfiles
      exact hfiles.2
    · rw [move_of_ne hname] at hfiles
      cases hshort : checkName step with
      | error error => rw [fault?_of_long hname hshort, fault?_of_long hname hshort]
      | ok _ =>
        by_cases hfile : HasFile root (place ++ [step])
        · rw [fault?_of_file hname hshort hfile,
            fault?_of_file hname hshort (hfiles.1.1 hfile)]
        · rw [fault?_of_not_file hname hshort hfile,
            fault?_of_not_file hname hshort (mt hfiles.1.2 hfile), ih hfiles.2]

/-- Nothing is in the way of moves that can be gone. -/
private theorem fault?_of_go {next : List FileName} (h : go root place step = .ok next) :
    fault? root place (step :: steps) = fault? root next steps := by
  obtain ⟨rfl, hdir⟩ := go_eq_ok_iff.1 h
  by_cases hname : step = up
  · rw [hname, fault?_above, move, if_pos rfl]
  · rw [move_of_ne hname] at hdir ⊢
    obtain ⟨hshort, hdir⟩ := hdir hname
    refine fault?_of_not_file hname hshort ?_
    rintro ⟨content, hfile⟩
    cases hdir.symm.trans hfile

/-- Nothing is in the way where all directories are there. -/
theorem fault?_of_reach {moves last : List FileName} (h : reach root place moves = .ok last) :
    fault? root place moves = none := by
  induction moves generalizing place with
  | nil => rfl
  | cons step steps ih =>
    rw [reach_cons, bind_eq_ok_iff] at h
    obtain ⟨next, hnext, hrest⟩ := h
    rw [fault?_of_go hnext]
    exact ih hrest

/-- One move more behind moves along which all directories can be made. -/
theorem fault?_concat {moves : List FileName} (h : fault? root place moves = none)
    (step : FileName) :
    fault? root place (moves ++ [step]) = fault? root (moves.foldl move place) [step] := by
  induction moves generalizing place with
  | nil => rfl
  | cons first steps ih =>
    rw [List.cons_append, List.foldl_cons]
    by_cases hname : first = up
    · rw [hname, fault?_above] at h
      rw [hname, fault?_above, ih h, move, if_pos rfl]
    · rw [move_of_ne hname]
      cases hshort : checkName first with
      | error error => cases (fault?_of_long hname hshort).symm.trans h
      | ok _ =>
        by_cases hfile : HasFile root (place ++ [first])
        · cases (fault?_of_file hname hshort hfile).symm.trans h
        · rw [fault?_of_not_file hname hshort hfile] at h
          rw [fault?_of_not_file hname hshort hfile, ih h]

/-- What a fault at the end is when there are more moves behind it. -/
def onTheWay (fault : FileError) : FileError :=
  if fault = .alreadyExists then .notDirectory else fault

/-- What is in the way of the directories above is in the way of one below them. -/
theorem fault?_append {moves more : List FileName} {fault : FileError}
    (h : fault? root place moves = some fault) (hmore : more ≠ []) :
    fault? root place (moves ++ more) = some (onTheWay fault) := by
  induction moves generalizing place with
  | nil => exact nomatch h
  | cons first steps ih =>
    rw [List.cons_append]
    by_cases hname : first = up
    · rw [hname, fault?_above] at h ⊢
      exact ih h
    · cases hshort : checkName first with
      | error error =>
        rw [fault?_of_long hname hshort, Option.some.injEq] at h
        rw [fault?_of_long hname hshort, ← h, (checkName_eq_error_iff.1 hshort).2]
        rfl
      | ok _ =>
        by_cases hfile : HasFile root (place ++ [first])
        · rw [fault?_of_file hname hshort hfile, Option.some.injEq] at h
          rw [fault?_of_file hname hshort hfile, ← h]
          -- what was the last place is not the last one any more
          have hnot : (steps ++ more).isEmpty = false := by
            simp [hmore]
          rw [hnot, if_neg Bool.false_ne_true]
          cases steps <;> rfl
        · rw [fault?_of_not_file hname hshort hfile] at h ⊢
          exact ih h

/-- The error on the way, unless something is missing there, is that of what is in the way. -/
theorem exists_fault?_of_reach {moves : List FileName} {error : FileError}
    (h : reach root place moves = .error error) (hfound : error ≠ .notFound) :
    ∃ fault, fault? root place moves = some fault ∧ onTheWay fault = error := by
  induction moves generalizing place with
  | nil => exact nomatch h
  | cons step steps ih =>
    rw [reach_cons] at h
    cases hgo : go root place step with
    | ok next =>
      rw [hgo] at h
      rw [fault?_of_go hgo]
      exact ih h
    | error error' =>
      rw [hgo] at h
      obtain rfl : error' = error := Except.error.inj h
      obtain ⟨hname, hlong | ⟨hshort, ⟨rfl, hfile⟩ | ⟨rfl, -⟩⟩⟩ := go_eq_error_iff.1 hgo
      · refine ⟨error', fault?_of_long hname hlong, ?_⟩
        rw [(checkName_eq_error_iff.1 hlong).2]
        rfl
      · refine ⟨_, fault?_of_file hname hshort hfile, ?_⟩
        cases steps <;> rfl
      · exact absurd rfl hfound

/-- No file is below a place where nothing stands. -/
private theorem ne_alreadyExists_of_none {moves : List FileName} (habove : up ∉ moves)
    (hplace : root.node? place = none) : fault? root place moves ≠ some .alreadyExists := by
  induction moves generalizing place with
  | nil => exact (nomatch ·)
  | cons step steps ih =>
    rw [List.mem_cons, not_or] at habove
    have hname : step ≠ up := Ne.symm habove.1
    have hbelow : root.node? (place ++ [step]) = none := by
      cases hnode : root.node? (place ++ [step]) with
      | none => rfl
      | some node =>
        have hdir := Tree.node?_of_append hnode (List.cons_ne_nil _ _)
        exact nomatch hplace.symm.trans hdir
    cases hshort : checkName step with
    | error error =>
      rw [fault?_of_long hname hshort, (checkName_eq_error_iff.1 hshort).2]
      exact (nomatch ·)
    | ok _ =>
      have hfile : ¬ HasFile root (place ++ [step]) := by
        rintro ⟨content, hcontent⟩
        exact nomatch hbelow.symm.trans hcontent
      rw [fault?_of_not_file hname hshort hfile]
      exact ih habove.2 hbelow

/-- Without a step `..`, no file is behind something that is missing. -/
theorem ne_alreadyExists_of_reach {moves : List FileName} (habove : up ∉ moves)
    (h : reach root place moves = .error .notFound) :
    fault? root place moves ≠ some .alreadyExists := by
  induction moves generalizing place with
  | nil => exact nomatch h
  | cons step steps ih =>
    rw [List.mem_cons, not_or] at habove
    rw [reach_cons] at h
    cases hgo : go root place step with
    | ok next =>
      rw [hgo] at h
      rw [fault?_of_go hgo]
      exact ih habove.2 h
    | error error =>
      rw [hgo] at h
      obtain rfl : error = .notFound := Except.error.inj h
      obtain ⟨hname, hlong | ⟨hshort, ⟨heq, -⟩ | ⟨-, hnone⟩⟩⟩ := go_eq_error_iff.1 hgo
      · exact nomatch (checkName_eq_error_iff.1 hlong).2
      · exact nomatch heq
      · -- below what is missing no file can be in the way
        have hfile : ¬ HasFile root (place ++ [step]) := by
          rintro ⟨content, hcontent⟩
          exact nomatch hnone.symm.trans hcontent
        rw [fault?_of_not_file hname hshort hfile]
        exact ne_alreadyExists_of_none habove.2 hnone

end Faults

end Disk

end ClassStub
