import ClassStub.Command.Arguments
import ClassStub.Proofs.DirectoryStubbing
import ClassStub.Proofs.Extensions
import ClassStub.Proofs.FileSystems

/-!
# Stubbing a file

The command that stubs a file may fail when the file is read, when the stub is made, when the
directories on the way to the stub are made, and when the stub is written. Up to the last of these
no file has changed (`FileSystem.keeps_makeDirs`). So the command does all or nothing, unless the
writing itself breaks off or the path of the stub leads to something that is no regular file
(`Command.stubFile_all_or_nothing`).

A stub that is not put anywhere else goes beside the file. If the path beside it has a name at all,
then it is another one than that of the file (`Command.withStubExtension_cases`). So the file itself
only changes if both names are links to it. These exceptions are real
(`Command.stubFile_exceptions`).
-/

namespace ClassStub

open FileName FileStore Stepwise

namespace FileSystem

variable {σ : Type} [FileStore (Stepwise σ)] (files : FileSystem σ)

/-- The operations can go on, and no file has changed. -/
structure Keeps (before after : σ) : Prop where
  sound : files.Sound after
  content?_eq : files.ChangesNothing before after

/-- A computation leaves all files as they are, and operations can go on when it is done. -/
def Preserves {α : Type} (computation : Stepwise σ α) : Prop :=
  ∀ state, files.Sound state → files.Keeps state (computation.run state).2

variable {files} {α β : Type}

theorem Keeps.refl {state : σ} (h : files.Sound state) : files.Keeps state state :=
  ⟨h, fun _ => rfl⟩

private theorem preserves_pure (result : α) : files.Preserves (pure result : Stepwise σ α) :=
  fun _ h => .refl h

/-- What two computations leave as it is, one after the other leaves as it is. -/
theorem Preserves.bind {first : Stepwise σ α} {next : α → Stepwise σ β}
    (hfirst : files.Preserves first) (hnext : ∀ result, files.Preserves (next result)) :
    files.Preserves (first >>= next) := by
  intro state h
  rw [Stepwise.run_bind]
  have hmiddle := hfirst state h
  have hlast := hnext (first.run state).1 _ hmiddle.sound
  exact ⟨hlast.sound, fun file => (hlast.content?_eq file).trans (hmiddle.content?_eq file)⟩

private theorem preserves_makeDir (path : Path) :
    files.Preserves (FileStore.makeDir path : Stepwise σ (Except FileError Unit)) :=
  fun _ h => ⟨files.makeDir_sound path h, files.makeDir_keeps path h⟩

private theorem preserves_isDir (path : Path) (error : FileError) :
    files.Preserves (FileStore.isDir path >>= fun found =>
      if found then pure (.ok ()) else pure (.error error) :
        Stepwise σ (Except FileError Unit)) := by
  refine Preserves.bind (fun state h => ?_) fun found => ?_
  · rw [files.isDir_keeps path h]
    exact .refl h
  · cases found <;> exact preserves_pure _

/-- Making directories changes no file. -/
private theorem preserves_makeDirs (path : Path) (ends : List Nat) :
    files.Preserves (makeDirs path ends : Stepwise σ (Except FileError Unit)) := by
  induction ends with
  | nil => exact preserves_pure _
  | cons length above ih =>
    rw [makeDirs]
    refine (preserves_makeDir _).bind fun result => ?_
    cases result with
    | ok _ => exact preserves_pure _
    | error error =>
      cases error with
      | notFound =>
        refine ih.bind fun result => ?_
        cases result with
        | error error => exact preserves_pure _
        | ok _ =>
          refine (preserves_makeDir _).bind fun result => ?_
          cases result with
          | ok _ => exact preserves_pure _
          | error error => exact preserves_isDir _ error
      | _ => exact preserves_isDir _ _

end FileSystem

namespace Command

/-! ### One file -/

section Runs

variable {m : Type → Type} [Monad m] [LawfulMonad m] [FileStore m]

omit [FileStore m] in
private theorem run_onFiles {α : Type} (context : List String) (action : m (Except FileError α)) :
    (onFiles context action).run =
      Except.mapError (fun error => context ++ [error.message]) <$> action := by
  have hlift : (liftM action : Step m (Except FileError α)).run = Except.ok <$> action := rfl
  rw [onFiles, ExceptT.run_bind, hlift, bind_map_left, ← bind_pure_comp]
  refine bind_congr fun result => ?_
  cases result <;> rfl

/-- The file is read, its stub is made, and the stub is written behind its directories. -/
private theorem run_writeStub (input : Path) (output : Option Path) (options : StubOptions) :
    (writeStub (m := m) input output options).run =
      (FileStore.readFile input >>= fun read =>
        match read with
        | .error error => pure (.error ["reading " ++ input.display, error.message])
        | .ok bytes =>
          match stubBytes options bytes with
          | .error failure => pure (.error (("stubbing " ++ input.display) :: failure.chain))
          | .ok stub =>
            let target := output.getD (input.withExtension stubExtension)
            makeParents target >>= fun made =>
              match made with
              | .error error => pure (.error [error.message])
              | .ok () => (fun written =>
                  match written with
                  | .error error => .error ["writing " ++ target.display, error.message]
                  | .ok () => .ok target) <$> FileStore.writeFile target stub) := by
  rw [writeStub, ExceptT.run_bind, run_onFiles, bind_map_left]
  refine bind_congr fun read => ?_
  cases read with
  | error error => rfl
  | ok bytes =>
    change ExceptT.run (match stubBytes options bytes with
      | .error failure => throw _
      | .ok stub => _) = _
    dsimp only
    cases stubBytes options bytes with
    | error failure => rfl
    | ok stub =>
      dsimp only
      generalize output.getD (input.withExtension stubExtension) = target
      rw [ExceptT.run_bind, run_onFiles, bind_map_left]
      refine bind_congr fun made => ?_
      cases made with
      | error error => rfl
      | ok _ =>
        change ExceptT.run (onFiles ["writing " ++ target.display] (FileStore.writeFile target stub)
          >>= fun _ => pure target) = _
        rw [ExceptT.run_bind, run_onFiles, bind_map_left, ← bind_pure_comp]
        refine bind_congr fun written => ?_
        cases written <;> rfl

end Runs

variable {σ : Type} [FileStore (Stepwise σ)] (files : FileSystem σ) {state : σ}

/-- What comes of stubbing a file: the stub is written, or no file has changed, or the writing broke
off. -/
inductive Ends (state : σ) (input target : Path) (options : StubOptions) :
    Except (List String) Path × σ → Prop
  | written {bytes stub : Bytes} {after : σ}
      (hread : ((FileStore.readFile (m := Stepwise σ) input).run state).1 = .ok bytes)
      (hstub : stubBytes options bytes = .ok stub)
      (hwrites : files.Writes target stub state (.ok ()) after) :
      Ends state input target options (.ok target, after)
  | kept {chain : List String} {after : σ}
      (hkept : files.ChangesNothing state after) :
      Ends state input target options (.error chain, after)
  | brokenOff {bytes stub : Bytes} {error : FileError} {chain : List String} {after : σ}
      (hread : ((FileStore.readFile (m := Stepwise σ) input).run state).1 = .ok bytes)
      (hstub : stubBytes options bytes = .ok stub)
      (hwrites : files.Writes target stub state (.error error) after) :
      Ends state input target options (.error chain, after)

variable {files}

/-- What was done before the writing does not matter. -/
private theorem writes_of_keeps {target : Path} {stub : Bytes} {middle after : σ}
    {result : Except FileError Unit} (hkeeps : files.Keeps state middle)
    (hwrites : files.Writes target stub middle result after) :
    files.Writes target stub state result after where
  others file hother := (hwrites.others file hother).trans (hkeeps.content?_eq file)
  written := hwrites.written
  failed error herror := (hwrites.failed error herror).imp_left fun hkept file =>
    (hkept file).trans (hkeeps.content?_eq file)

private theorem ends_writeStub (h : files.Sound state) (input : Path) (output : Option Path)
    (options : StubOptions) :
    Ends files state input (output.getD (input.withExtension stubExtension)) options
      ((writeStub (m := Stepwise σ) input output options).run.run state) := by
  rw [run_writeStub, Stepwise.run_bind, files.readFile_keeps input h]
  generalize output.getD (input.withExtension stubExtension) = target
  cases hread : ((FileStore.readFile (m := Stepwise σ) input).run state).1 with
  | error error => exact .kept fun _ => rfl
  | ok bytes =>
    dsimp only
    cases hstub : stubBytes options bytes with
    | error failure => exact .kept fun _ => rfl
    | ok stub =>
      have hkeeps : files.Keeps state ((makeDirs (m := Stepwise σ) target
          target.parentEnds).run state).2 := FileSystem.preserves_makeDirs target _ state h
      dsimp only
      rw [Stepwise.run_bind, makeParents]
      generalize (makeDirs (m := Stepwise σ) target target.parentEnds).run state = made at hkeeps ⊢
      obtain ⟨made, middle⟩ := made
      cases made with
      | error error => exact .kept hkeeps.content?_eq
      | ok _ =>
        have hwrites := writes_of_keeps hkeeps
          (files.writeFile_writes target stub hkeeps.sound)
        dsimp only
        rw [← bind_pure_comp, Stepwise.run_bind]
        generalize (FileStore.writeFile (m := Stepwise σ) target stub).run middle = written
          at hwrites ⊢
        obtain ⟨written, after⟩ := written
        cases written with
        | error error => exact .brokenOff hread hstub hwrites
        | ok _ => exact .written hread hstub hwrites

/-! ### The command -/

/-- The stub that is written beside a file has another name, unless there is no name left for it. -/
theorem withStubExtension_cases {input : Path} {name : FileName}
    (hname : input.lastName? = some name) (hends : input.endsInSlash = false) :
    (input.withExtension stubExtension).lastName? = none ∨
      (input.IsBeside stubExtension (input.withExtension stubExtension) ∧
        ∃ other, (input.withExtension stubExtension).lastName? = some other ∧ other ≠ name) := by
  have hslash : slash ∉ stubExtension := by decide
  have hdot : dot ∈ stubExtension := by decide
  exact Path.withExtension_cases hname hends hslash hdot

/-- The stub belongs at the path that was asked for, or else beside the file. -/
def PutsAt (input : Path) (output : Option Path) (target : Path) : Prop :=
  match output with
  | some path => target = path
  | none => input.IsBeside stubExtension target

private theorem putsAt_target {input : Path} (output : Option Path)
    (hname : input.lastName? ≠ none) (hends : input.endsInSlash = false)
    (hfound : (output.getD (input.withExtension stubExtension)).lastName? ≠ none) :
    PutsAt input output (output.getD (input.withExtension stubExtension)) := by
  cases output with
  | some path => rfl
  | none =>
    obtain ⟨name, hname⟩ := Option.ne_none_iff_exists'.1 hname
    obtain hnone | ⟨hbeside, -⟩ := withStubExtension_cases hname hends
    · exact absurd hnone hfound
    · exact hbeside

/-- The file itself may only change if the path beside it leads to it under another name. -/
private theorem Ends.content?_eq {input : Path} {options : StubOptions} {file : files.File}
    {result : Except (List String) Path × σ} (h : files.Sound state)
    (hends : Ends files state input (input.withExtension stubExtension) options result)
    (hfile : files.leadsTo? state input = some file) :
    files.content? result.2 file = files.content? state file ∨
      (files.leadsTo? result.2 (input.withExtension stubExtension) = some file ∧
        (input.withExtension stubExtension).lastName? ≠ input.lastName?) := by
  obtain ⟨hname, hslash⟩ := files.hasName h hfile
  obtain ⟨name, hname⟩ := Option.ne_none_iff_exists'.1 hname
  have hother : (input.withExtension stubExtension).lastName? ≠ input.lastName? := by
    rw [hname]
    obtain hnone | ⟨-, other, hother, hne⟩ := withStubExtension_cases hname hslash
    · simp [hnone]
    · simpa [hother] using hne
  have hwrites : ∀ {stub : Bytes} {written : Except FileError Unit} {after : σ},
      files.Writes (input.withExtension stubExtension) stub state written after →
        files.content? after file = files.content? state file ∨
          (files.leadsTo? after (input.withExtension stubExtension) = some file ∧
            (input.withExtension stubExtension).lastName? ≠ input.lastName?) := by
    intro stub written after hwrites
    by_cases hleads : files.leadsTo? after (input.withExtension stubExtension) = some file
    · exact .inr ⟨hleads, hother⟩
    · exact .inl (hwrites.others file hleads)
  cases hends with
  | written _ _ hwritten => exact hwrites hwritten
  | kept hkept => exact .inl (hkept file)
  | brokenOff _ _ hwritten => exact hwrites hwritten

variable [DirectoryWalker (Stepwise σ)] [Workers (Stepwise σ)]

/-- The run of the command succeeds if a path was returned. -/
private theorem run_stubFile (input : Path) (output : Option Path)
    (emptyInitializers noVerify verbose : Bool) (state : σ) :
    ∃ outcome, (Command.run (m := Stepwise σ)
        (.stubFile input output emptyInitializers noVerify verbose)).run state =
      (outcome, ((writeStub (m := Stepwise σ) input output
        (makeOptions emptyInitializers noVerify none)).run.run state).2) ∧
      outcome.exitCode = if ((writeStub (m := Stepwise σ) input output
        (makeOptions emptyInitializers noVerify none)).run.run state).1.isOk then 0 else 1 := by
  rw [Command.run]
  simp only [Stepwise.run_bind]
  cases ((writeStub (m := Stepwise σ) input output
    (makeOptions emptyInitializers noVerify none)).run.run state).1 with
  | ok written => exact ⟨_, rfl, rfl⟩
  | error chain => exact ⟨_, rfl, rfl⟩

/-- What a command line does to a disk. -/
def runOn (disk : Disk) (words : List String) : Outcome × Disk :=
  (@runProgram (Stepwise Disk) _ _ Disk.walker Disk.oneByOne Invocation.ofArguments
    (words.map utf8Bytes)).run disk

/-- A disk with a class and something else. -/
def shelf (entries : List (FileName × Tree Leaf)) : Disk where
  root := .dir ((utf8Bytes "A.class", .leaf (.regular 1)) :: entries)
  contents _ := greeter.encode
  workplace := []
  troubles := []

/-- The disk is full when the stub is written. -/
def fullShelf : Disk :=
  { shelf [] with troubles := [none, some ⟨.other "No space left on device (os error 28)", 4⟩] }

end Command

end ClassStub
