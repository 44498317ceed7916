import ClassStub.Proofs.Creation
import ClassStub.Proofs.WalkOrder

/-!
# The classes of a directory and their places

The classes of a directory must not be in each other's way when they are stubbed into another one. A
class is a file, and so its place is not on the way to the place of another class
(`Directory.IsClass.eq_nil_of_append`). Hence no stub stands where a directory is made for another
one (`Directory.Stubbable.mem_visits_of_isWay`). The output is apart from the input, so that no
class is overwritten (`Directory.Stubbable.input_ne_output`).
-/

namespace ClassStub

open FileName Disk

namespace Directory

/-! ### The places of classes -/

/-- A class is at a place below the input: a regular file whose name ends in `.class`. -/
structure IsClass (disk : Disk) (input : Path) (place : List FileName) : Prop where
  regular : ∃ number, disk.node? (disk.placeOf input ++ place) = some (.leaf (.regular number))
  endsInClass : EndsInClass place

/-- The place at which the stub of a class belongs. -/
def stubPlace (disk : Disk) (output : Path) (place : List FileName) : List FileName :=
  disk.placeOf output ++ place

/-- The input is a directory, neither input nor output lies in the other, and what stands where a
stub belongs is a regular file that has no second name. -/
structure Stubbable (disk : Disk) (input output : Path) : Prop where
  proper : disk.root.IsProper IsDiskName
  workplace : disk.node? disk.workplace = some .dir
  isDir : ∃ entries, disk.lookUp input = .ok (.dir entries)
  below : ¬ disk.placeOf input <+: disk.placeOf output
  above : ¬ disk.placeOf output <+: disk.placeOf input
  plain : ∀ place leaf, IsClass disk input place →
    disk.node? (stubPlace disk output place) = some (.leaf leaf) →
      (∃ number, leaf = .regular number) ∧
        ∀ other, disk.node? other = some (.leaf leaf) → other = stubPlace disk output place

/-- The path of a class, or of its stub, below a directory. -/
def target (path : Path) (place : List FileName) : Path := path.join (.ofNames place)

/-- A directory is made at the place for some class, unless it is there. -/
def IsWay (disk : Disk) (input output : Path) (visit : List FileName) : Prop :=
  ∃ place, IsClass disk input place ∧
    visit ∈ visits (disk.start output) (target output place).front

variable {disk : Disk} {input output : Path} {place : List FileName}

/-! ### Paths to classes -/

section Target

variable (hnames : ∀ name ∈ place, IsFileName name)

include hnames

/-- No name leads up. -/
theorem up_not_mem : up ∉ place := fun hmem => (hnames _ hmem).ne_up rfl

/-- The path of a class starts where the path of its directory starts. -/
theorem start_target (disk : Disk) (path : Path) :
    disk.start (target path place) = disk.start path := by
  rw [start, start, target, Path.isAbsolute_join _ (Path.isAbsolute_ofNames hnames)]

/-- The path of a class leads to its place below that of the directory. -/
theorem placeOf_target (disk : Disk) (path : Path) :
    disk.placeOf (target path place) = disk.placeOf path ++ place := by
  rw [placeOf, start_target hnames, target, Path.moves_join_ofNames hnames, List.foldl_append,
    foldl_move_of_names (up_not_mem hnames), placeOf]

/-- The path ends in the last name of the place, and the other names are on the way. -/
theorem exists_lastName?_target (hne : place ≠ []) (path : Path) :
    ∃ name ∈ place, (target path place).lastName? = some name ∧
      (target path place).endsInSlash = false ∧
        (target path place).front = path.moves ++ place.dropLast := by
  have hlast := Path.lastName?_join_ofNames hnames hne path
  rw [List.getLast?_eq_some_getLast hne] at hlast
  refine ⟨_, List.getLast_mem hne, hlast, Path.endsInSlash_join_ofNames hnames hne path, ?_⟩
  refine Path.front_eq_of_moves hlast ?_
  rw [target, Path.moves_join_ofNames hnames, List.append_assoc,
    List.dropLast_append_getLast hne]

end Target

namespace IsClass

variable (hclass : IsClass disk input place)

include hclass

/-- The input itself is no class. -/
theorem ne_nil : place ≠ [] := by
  obtain ⟨above, stem, -, rfl⟩ := hclass.endsInClass
  simp

/-- No class is on the way to another one. -/
theorem eq_nil_of_append {more : List FileName} (hmore : IsClass disk input (place ++ more)) :
    more = [] := by
  obtain ⟨number, hnumber⟩ := hclass.regular
  obtain ⟨number', hnumber'⟩ := hmore.regular
  by_contra hne
  rw [node?, ← List.append_assoc] at hnumber'
  cases (Tree.node?_of_append hnumber' hne).symm.trans hnumber

end IsClass

namespace Stubbable

variable (h : Stubbable disk input output)

include h

/-- The working directory is there. -/
theorem hasWorkplace : disk.HasWorkplace where
  isDir := h.workplace
  names := h.proper.valid_of_mem h.workplace

/-- The input is at its place, and it can be gone to. -/
theorem exists_found : ∃ entries, disk.lookUp input = .ok (.dir entries) ∧
    disk.root.get? (disk.placeOf input) = some (.dir entries) ∧
      reach disk.root (disk.start input) input.moves = .ok (disk.placeOf input) := by
  obtain ⟨entries, hfound⟩ := h.isDir
  obtain ⟨place, hlocate, hget⟩ := lookUp_eq_dir_iff.1 hfound
  obtain rfl := locate_eq_ok h.hasWorkplace hlocate
  have hdir : disk.node? (disk.placeOf input) = some .dir :=
    Tree.node?_eq_dir_iff.2 ⟨entries, hget⟩
  exact ⟨entries, hfound, hget, (reach_eq_ok_iff_locate h.hasWorkplace
    (validate_of_locate hlocate)).2 ⟨hlocate, hdir⟩⟩

private theorem node?_input : disk.node? (disk.placeOf input) = some .dir := by
  obtain ⟨entries, -, hget, -⟩ := h.exists_found
  exact Tree.node?_eq_dir_iff.2 ⟨entries, hget⟩

/-- No place in the input is one in the output. -/
theorem input_ne_output (first second : List FileName) :
    disk.placeOf input ++ first ≠ disk.placeOf output ++ second := by
  intro heq
  have hfirst : disk.placeOf input <+: disk.placeOf input ++ first := List.prefix_append _ _
  have hsecond : disk.placeOf output <+: disk.placeOf input ++ first :=
    heq ▸ List.prefix_append _ _
  exact (List.prefix_or_prefix_of_prefix hfirst hsecond).elim h.below h.above

variable (hclass : IsClass disk input place)

include hclass

private theorem diskNames : ∀ name ∈ place, IsDiskName name := by
  obtain ⟨number, hnumber⟩ := hclass.regular
  intro name hmem
  exact h.proper.valid_of_mem hnumber name (List.mem_append_right _ hmem)

/-- The names on the way to a class are names of files. -/
theorem names : ∀ name ∈ place, IsFileName name :=
  fun name hmem => (h.diskNames hclass name hmem).toIsFileName

/-- If a directory is made where a stub belongs, it is made on the way to this stub. -/
theorem mem_visits_of_isWay (hway : IsWay disk input output (stubPlace disk output place)) :
    stubPlace disk output place ∈ visits (disk.start output) (target output place).front := by
  obtain ⟨other, hother, hvisit⟩ := hway
  obtain ⟨-, -, -, -, hfront⟩ := exists_lastName?_target (h.names hclass) hclass.ne_nil output
  obtain ⟨-, -, -, -, hfront'⟩ := exists_lastName?_target (h.names hother) hother.ne_nil output
  rw [hfront', visits_append, List.mem_append] at hvisit
  rw [hfront, visits_append, List.mem_append]
  refine .inl (hvisit.resolve_right ?_)
  intro hbelow
  -- the place would be above that of the other class
  have hup : up ∉ other.dropLast := fun hmem =>
    up_not_mem (h.names hother) (List.dropLast_subset other hmem)
  obtain ⟨first, rest, hsplit, -, heq⟩ := (mem_visits_of_names hup).1 hbelow
  obtain rfl : place = first := List.append_cancel_left heq
  have hwhole : place ++ (rest ++ [other.getLast hother.ne_nil]) = other := by
    rw [← List.append_assoc, ← hsplit, List.dropLast_append_getLast]
  have hnil := hclass.eq_nil_of_append (hwhole ▸ hother)
  exact absurd hnil (by simp)

/-- The places on the way to a stub are those of the output and of the directories that hold
classes. -/
theorem isWay_of_mem_visits {visit : List FileName}
    (hvisit : visit ∈ visits (disk.start (target output place)) (target output place).front) :
    IsWay disk input output visit := by
  rw [start_target (h.names hclass)] at hvisit
  exact ⟨place, hclass, hvisit⟩

/-! ### Reading -/

/-- The directories on the way to a class are there. -/
private theorem reach_target : reach disk.root (disk.start (target input place))
    (target input place).front = .ok (disk.placeOf input ++ place.dropLast) := by
  obtain ⟨number, hnumber⟩ := hclass.regular
  obtain ⟨entries, -, -, hreach⟩ := h.exists_found
  obtain ⟨-, -, -, -, hfront⟩ := exists_lastName?_target (h.names hclass) hclass.ne_nil input
  have hup : up ∉ place.dropLast := fun hmem =>
    up_not_mem (h.names hclass) (List.dropLast_subset place hmem)
  rw [start_target (h.names hclass), hfront, reach_append, hreach]
  refine (reach_eq_ok_iff h.node?_input).2 ⟨(foldl_move_of_names hup _).symm, ?_, ?_⟩
  · intro name hmem
    exact checkName_eq_ok_iff.2 (h.diskNames hclass name (List.dropLast_subset place hmem)).short
  · intro visit hvisit
    obtain ⟨first, rest, hsplit, -, rfl⟩ := (mem_visits_of_names hup).1 hvisit
    have hplace : place = first ++ (rest ++ [place.getLast hclass.ne_nil]) := by
      rw [← List.append_assoc, ← hsplit, List.dropLast_append_getLast]
    have hbelow := hnumber
    rw [hplace, ← List.append_assoc] at hbelow
    exact Tree.node?_of_append hbelow (by simp)

/-- A class can be read as long as it is there, if its path can be used. -/
theorem readFile_target {later : Disk} (hgrows : Grows disk later) :
    ∃ content, later.file? (disk.placeOf input ++ place) = some content ∧
      Disk.readFile (target input place) later =
        (target input place).validate.map fun _ => content := by
  obtain ⟨number, hnumber⟩ := hclass.regular
  have hfile := file?_eq_some_iff.2 ⟨_, hgrows.node?_eq hnumber, rfl⟩
  refine ⟨_, hfile, ?_⟩
  cases hvalid : (target input place).validate with
  | error error => exact readFile_of_refused hvalid
  | ok _ =>
    obtain ⟨name, hmem, hname, hends, -⟩ :=
      exists_lastName?_target (h.names hclass) hclass.ne_nil input
    have hreach := hgrows.reach_eq (h.hasWorkplace.start _) (h.reach_target hclass)
    rw [← hgrows.start_eq] at hreach
    rw [← placeOf_target (h.names hclass), ← hgrows.placeOf_eq] at hfile
    exact readFile_of_reach (hgrows.hasWorkplace h.hasWorkplace) hvalid hname hends
      (h.diskNames hclass name hmem).short hreach hfile

end Stubbable

end Directory

end ClassStub
