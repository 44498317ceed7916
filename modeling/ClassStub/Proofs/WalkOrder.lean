import ClassStub.Directory
import ClassStub.Proofs.Extensions
import ClassStub.Proofs.DiskOperations

/-!
# What a walk finds, and in which order

A walk goes through each directory in the order of the names in it, and through the content of a
directory before it goes on with the next name (`SortedWalk`). So its order is one of places: their
names are compared one after another, each by its bytes (`Tree.Precedes`). It is not the order of
the paths as strings of bytes, in which a slash would be compared with the bytes of names.

From this the class files of a directory are found completely, once each and in order
(`Directory.Lists`), if every directory can be opened. A directory that cannot be opened ends the
search. On a disk that happens where the path to a directory is too long, and then nothing is found
at all (`Directory.walk_finds_classes`).
-/

namespace ClassStub

open FileName

/-! ### The order of places -/

namespace Tree

/-- The first place comes before the second: their names are compared one after another, each by
its bytes, and a place comes before those below it. -/
def Precedes : List FileName → List FileName → Prop := List.Lex (· < ·)

private theorem precedes_irrefl (place : List FileName) : ¬ Precedes place place := by
  induction place with
  | nil => exact (nomatch ·)
  | cons name place ih =>
    intro h
    cases h with
    | cons h => exact ih h
    | rel h => exact Std.lt_irrefl h

end Tree

/-! ### Walks -/

/-- How walks through trees go. A leaf is met by itself. A directory is met, and then its entries
are walked through in the order of their names, if it can be opened by the path that leads to it. -/
structure SortedWalk {α : Type} (isFile : α → Bool) (refusal? : Path → Option FileError)
    (walk : Path → Tree α → List (Except WalkError WalkEntry)) : Prop where
  leaf : ∀ path content, walk path (.leaf content) = [.ok ⟨path, isFile content⟩]
  refused : ∀ {path error} entries, refusal? path = some error →
    walk path (.dir entries) = [.ok ⟨path, false⟩, .error ⟨path, error⟩]
  opened : ∀ {path} entries, refusal? path = none →
    ∃ sorted : List (FileName × Tree α), sorted.Perm entries ∧
      (sorted.Pairwise fun first second => first.1 ≤ second.1) ∧
      walk path (.dir entries) =
        .ok ⟨path, false⟩ :: sorted.flatMap fun entry => walk (path.join ⟨entry.1⟩) entry.2

namespace SortedWalk

variable {α : Type} {isFile : α → Bool} {refusal? : Path → Option FileError}
  {walk : Path → Tree α → List (Except WalkError WalkEntry)} {valid : FileName → Prop}
  {tree : Tree α} {path : Path}

/-- What stands at the top of a tree is a file. -/
def topIsFile (isFile : α → Bool) : Tree α → Bool
  | .leaf content => isFile content
  | .dir _ => false

/-- Every directory of a tree can be opened by the path that leads to it. -/
def Open (refusal? : Path → Option FileError) (path : Path) (tree : Tree α) : Prop :=
  ∀ place, tree.node? place = some .dir → refusal? (path.below place) = none

/-- The places that a walk comes to, with whether a file is there. -/
structure Visits (isFile : α → Bool) (path : Path) (tree : Tree α)
    (visits : List (List FileName × Bool)) (items : List (Except WalkError WalkEntry)) : Prop where
  items_eq : items = visits.map fun visit => .ok ⟨path.below visit.1, visit.2⟩
  mem_iff : ∀ place flag, (place, flag) ∈ visits ↔
    ∃ found, tree.get? place = some found ∧ flag = topIsFile isFile found
  sorted : visits.Pairwise fun first second => Tree.Precedes first.1 second.1

/-- The names of a sorted directory are different, so that the order is strict. -/
private theorem pairwise_lt {entries sorted : List (FileName × Tree α)}
    (hperm : sorted.Perm entries) (hle : sorted.Pairwise fun first second => first.1 ≤ second.1)
    (hdistinct : (entries.map Prod.fst).Nodup) :
    sorted.Pairwise fun first second => first.1 < second.1 := by
  have hne : sorted.Pairwise fun first second => first.1 ≠ second.1 :=
    List.pairwise_map.1 ((hperm.map Prod.fst).nodup_iff.2 hdistinct)
  exact (hle.and hne).imp fun h => Std.lt_of_le_of_ne h.1 h.2

/-- The walk through some entries of a directory comes to the places in them. -/
private theorem exists_visits_entries {sorted : List (FileName × Tree α)}
    (hlt : sorted.Pairwise fun first second => first.1 < second.1)
    (hentries : ∀ entry ∈ sorted, ∃ visits, Visits isFile (path.join ⟨entry.1⟩) entry.2 visits
      (walk (path.join ⟨entry.1⟩) entry.2)) :
    ∃ visits : List (List FileName × Bool),
      (sorted.flatMap fun entry => walk (path.join ⟨entry.1⟩) entry.2) =
        visits.map (fun visit => .ok ⟨path.below visit.1, visit.2⟩) ∧
      (∀ place flag, (place, flag) ∈ visits ↔ ∃ entry ∈ sorted, ∃ rest found,
        place = entry.1 :: rest ∧ entry.2.get? rest = some found ∧
          flag = topIsFile isFile found) ∧
      visits.Pairwise fun first second => Tree.Precedes first.1 second.1 := by
  induction sorted with
  | nil => exact ⟨[], rfl, by simp, .nil⟩
  | cons entry sorted ih =>
    rw [List.pairwise_cons] at hlt
    rw [List.forall_mem_cons] at hentries
    obtain ⟨visits, hvisits⟩ := hentries.1
    obtain ⟨others, hitems, hmem, hsorted⟩ := ih hlt.2 hentries.2
    have hfirst : ∀ place flag,
        (place, flag) ∈ visits.map (fun visit => (entry.1 :: visit.1, visit.2)) ↔
          ∃ rest found, place = entry.1 :: rest ∧ entry.2.get? rest = some found ∧
            flag = topIsFile isFile found := by
      intro place flag
      simp only [List.mem_map, Prod.exists, Prod.mk.injEq, hvisits.mem_iff]
      constructor
      · rintro ⟨rest, _, ⟨found, hfound, rfl⟩, rfl, rfl⟩
        exact ⟨rest, found, rfl, hfound, rfl⟩
      · rintro ⟨rest, found, rfl, hfound, rfl⟩
        exact ⟨rest, _, ⟨found, hfound, rfl⟩, rfl, rfl⟩
    refine ⟨visits.map (fun visit => (entry.1 :: visit.1, visit.2)) ++ others, ?_, ?_, ?_⟩
    · rw [List.flatMap_cons, hitems, hvisits.items_eq, List.map_append, List.map_map]
      rfl
    · intro place flag
      rw [List.mem_append, hfirst, hmem, List.exists_mem_cons_iff]
    · refine List.pairwise_append.2 ⟨?_, hsorted, ?_⟩
      · exact List.pairwise_map.2 (hvisits.sorted.imp .cons)
      · -- the name of the entry comes before those of the others
        rintro ⟨place, flag⟩ hplace ⟨place', flag'⟩ hplace'
        obtain ⟨rest, _, rfl, -⟩ := (hfirst place flag).1 hplace
        obtain ⟨other, hother, rest', _, rfl, -⟩ := (hmem place' flag').1 hplace'
        exact .rel (hlt.1 other hother)

/-- What a directory is made of, seen from the places in its entries. -/
private theorem mem_visits_dir {entries sorted : List (FileName × Tree α)}
    (hperm : sorted.Perm entries) (hdistinct : (entries.map Prod.fst).Nodup)
    (place : List FileName) (flag : Bool) :
    ((place, flag) = ([], false) ∨ ∃ entry ∈ sorted, ∃ rest found, place = entry.1 :: rest ∧
        entry.2.get? rest = some found ∧ flag = topIsFile isFile found) ↔
      ∃ found, (Tree.dir entries).get? place = some found ∧ flag = topIsFile isFile found := by
  cases place with
  | nil => simp [Tree.get?, topIsFile]
  | cons name rest =>
    simp only [Prod.mk.injEq, reduceCtorEq, false_and, false_or, List.cons.injEq, Tree.get?,
      Option.bind_eq_some_iff, Tree.lookup_eq_some_iff_mem hdistinct]
    constructor
    · rintro ⟨⟨name', tree⟩, hentry, _, found, ⟨rfl, rfl⟩, hfound, rfl⟩
      exact ⟨found, ⟨tree, hperm.mem_iff.1 hentry, hfound⟩, rfl⟩
    · rintro ⟨found, ⟨tree, hentry, hfound⟩, rfl⟩
      exact ⟨(name, tree), hperm.mem_iff.2 hentry, rest, found, ⟨rfl, rfl⟩, hfound, rfl⟩

/-- The directories in an entry of a directory are directories in that one. -/
private theorem node?_entry {entries : List (FileName × Tree α)}
    (hdistinct : (entries.map Prod.fst).Nodup) {entry : FileName × Tree α}
    (hentry : entry ∈ entries) (place : List FileName) :
    (Tree.dir entries).node? (entry.1 :: place) = entry.2.node? place := by
  rw [Tree.node?_cons_dir, (Tree.lookup_eq_some_iff_mem hdistinct).2 hentry, Option.bind_some]

/-- A leaf has no directories that could not be opened. -/
theorem open_leaf (path : Path) (content : α) : Open refusal? path (.leaf content) := by
  intro place hdir
  cases place <;> cases hdir

/-- A directory is open if it can be opened and its entries are open. -/
theorem open_dir_iff {entries : List (FileName × Tree α)}
    (hdistinct : (entries.map Prod.fst).Nodup) : Open refusal? path (.dir entries) ↔
      refusal? path = none ∧ ∀ entry ∈ entries, Open refusal? (path.join ⟨entry.1⟩) entry.2 := by
  constructor
  · refine fun hopen => ⟨hopen [] rfl, fun entry hentry place hdir => ?_⟩
    exact hopen (entry.1 :: place) ((node?_entry hdistinct hentry place).trans hdir)
  · rintro ⟨hroot, hentries⟩ place hdir
    cases place with
    | nil => exact hroot
    | cons name rest =>
      obtain ⟨tree, hlookup, hrest⟩ := Option.bind_eq_some_iff.1
        ((Tree.node?_cons_dir entries name rest).symm.trans hdir)
      exact hentries (name, tree) ((Tree.lookup_eq_some_iff_mem hdistinct).1 hlookup) rest hrest

variable (hwalk : SortedWalk isFile refusal? walk)

include hwalk

/-- **A walk comes to every place, once and in order**, if every directory can be opened. -/
private theorem exists_visits (hproper : tree.IsProper valid) (hopen : Open refusal? path tree) :
    ∃ visits, Visits isFile path tree visits (walk path tree) := by
  induction tree generalizing path with
  | leaf content =>
    refine ⟨[([], isFile content)], ⟨hwalk.leaf path content, ?_, List.pairwise_singleton _ _⟩⟩
    intro place flag
    cases place with
    | nil => simp [Tree.get?, topIsFile]
    | cons name rest => simp [Tree.get?]
  | dir entries ih =>
    cases hproper with
    | dir hnames hdistinct hentries =>
      obtain ⟨hroot, hopenEntries⟩ := (open_dir_iff hdistinct).1 hopen
      obtain ⟨sorted, hperm, hle, hitems⟩ := hwalk.opened entries hroot
      -- each entry has a walk of its own, and the names of the entries keep these apart
      have hbelow : ∀ entry ∈ sorted, ∃ visits, Visits isFile (path.join ⟨entry.1⟩) entry.2 visits
          (walk (path.join ⟨entry.1⟩) entry.2) := by
        intro entry hentry
        have hmem := hperm.mem_iff.1 hentry
        exact ih entry hmem (hentries entry hmem) (hopenEntries entry hmem)
      obtain ⟨visits, hvisits, hmem, hsorted⟩ :=
        exists_visits_entries (pairwise_lt hperm hle hdistinct) hbelow
      refine ⟨([], false) :: visits, ?_, ?_, List.pairwise_cons.2 ⟨?_, hsorted⟩⟩
      · rw [hitems, hvisits]
        rfl
      · intro place flag
        rw [List.mem_cons, hmem, mem_visits_dir hperm hdistinct]
      · rintro ⟨place, flag⟩ hplace
        obtain ⟨entry, -, rest, _, rfl, -⟩ := (hmem place flag).1 hplace
        exact .nil

/-- A walk goes on up to the first directory that cannot be opened. -/
private theorem exists_error (hproper : tree.IsProper valid) {place : List FileName}
    {error : FileError}
    (hdir : tree.node? place = some .dir) (hrefused : refusal? (path.below place) = some error)
    (hfirst : ∀ other, Tree.Precedes other place → tree.node? other = some .dir →
      refusal? (path.below other) = none) :
    ∃ (entries : List WalkEntry) (rest : List (Except WalkError WalkEntry)),
      walk path tree = entries.map .ok ++ .error ⟨path.below place, error⟩ :: rest := by
  induction tree generalizing path place with
  | leaf content =>
    cases place <;> cases hdir
  | dir entries ih =>
    cases place with
    | nil => exact ⟨[⟨path, false⟩], [], hwalk.refused entries hrefused⟩
    | cons name place =>
      cases hproper with
      | dir hnames hdistinct hentries =>
        have hroot : refusal? path = none := hfirst [] .nil rfl
        obtain ⟨sorted, hperm, hle, hitems⟩ := hwalk.opened entries hroot
        have hlt := pairwise_lt hperm hle hdistinct
        obtain ⟨tree, hlookup, hplace⟩ := Option.bind_eq_some_iff.1
          ((Tree.node?_cons_dir entries name place).symm.trans hdir)
        have hentry := (Tree.lookup_eq_some_iff_mem hdistinct).1 hlookup
        -- the entries before that of the directory are walked through
        obtain ⟨front, back, rfl⟩ := List.append_of_mem (hperm.mem_iff.2 hentry)
        rw [List.pairwise_append] at hlt
        have hfront : ∀ other ∈ front, ∃ visits, Visits isFile (path.join ⟨other.1⟩) other.2 visits
            (walk (path.join ⟨other.1⟩) other.2) := by
          intro other hother
          have hmem := hperm.mem_iff.1 (List.mem_append_left _ hother)
          refine hwalk.exists_visits (hentries other hmem) fun below hbelow => ?_
          refine hfirst (other.1 :: below) (.rel ?_) ?_
          · exact hlt.2.2 other hother (name, tree) List.mem_cons_self
          · exact (node?_entry hdistinct hmem below).trans hbelow
        obtain ⟨visits, hvisits, -⟩ := exists_visits_entries hlt.1 hfront
        obtain ⟨inside, rest, hinside⟩ := @ih (name, tree) hentry (path.join ⟨name⟩)
          (hentries _ hentry) place hplace hrefused fun below hbelow hdir =>
            hfirst (name :: below) (.cons hbelow)
              ((node?_entry hdistinct hentry below).trans hdir)
        refine ⟨⟨path, false⟩ :: (visits.map fun visit => ⟨path.below visit.1, visit.2⟩) ++ inside,
          rest ++ back.flatMap fun entry => walk (path.join ⟨entry.1⟩) entry.2, ?_⟩
        rw [hitems, List.flatMap_append, List.flatMap_cons, hvisits, hinside]
        simp [Path.below]

/-- A walk fails at something if there is a directory that cannot be opened. -/
private theorem exists_error_mem (hproper : tree.IsProper valid)
    (hnot : ¬ Open refusal? path tree) :
    ∃ error, .error error ∈ walk path tree := by
  induction tree generalizing path with
  | leaf content => exact absurd (open_leaf path content) hnot
  | dir entries ih =>
    cases hproper with
    | dir hnames hdistinct hentries =>
      cases hroot : refusal? path with
      | some error =>
        rw [hwalk.refused entries hroot]
        exact ⟨_, List.mem_cons_of_mem _ List.mem_cons_self⟩
      | none =>
        obtain ⟨sorted, hperm, -, hitems⟩ := hwalk.opened entries hroot
        rw [open_dir_iff hdistinct, hroot, not_and] at hnot
        obtain ⟨entry, hmem, hclosed⟩ := not_forall₂.1 (hnot rfl)
        obtain ⟨error, herror⟩ := ih entry hmem (hentries entry hmem) hclosed
        refine ⟨error, ?_⟩
        rw [hitems]
        exact List.mem_cons_of_mem _ (List.mem_flatMap.2 ⟨entry, hperm.mem_iff.2 hmem, herror⟩)

end SortedWalk

namespace Disk

/-! ### Walks through disks -/

private theorem walkEntries_eq_map (path : Path) (entries : List (FileName × Tree Leaf)) :
    walkEntries path entries =
      entries.map fun entry => (entry.1, walkTree (path.join ⟨entry.1⟩) entry.2) := by
  induction entries with
  | nil => rfl
  | cons entry entries ih => rw [walkEntries, ih, List.map_cons]

/-- The walks through a disk are sorted. -/
theorem sortedWalk_walkTree : SortedWalk Leaf.isRegular refusal? walkTree where
  leaf _ _ := rfl
  refused entries hrefused := by rw [walkTree, hrefused]
  opened {path} entries hopened := by
    refine ⟨entries.mergeSort fun a b => nameLE a.1 b.1, List.mergeSort_perm _ _, ?_, ?_⟩
    · refine (List.pairwise_mergeSort ?_ ?_ entries).imp fun {a b} h => of_decide_eq_true h
      · intro a b c hab hbc
        exact decide_eq_true (Std.le_trans (of_decide_eq_true hab) (of_decide_eq_true hbc))
      · exact fun a b => Bool.or_eq_true_iff.2
          (Std.le_total.imp decide_eq_true decide_eq_true)
    · rw [walkTree, hopened, walkEntries_eq_map]
      have hsort := List.map_mergeSort (l := entries)
        (r := fun a b => nameLE a.1 b.1) (s := fun a b => nameLE a.1 b.1)
        (f := fun entry => (entry.1, walkTree (path.join ⟨entry.1⟩) entry.2))
        fun _ _ _ _ => rfl
      dsimp only
      rw [← hsort, List.flatMap_map]

/-- A walk through a disk lists the tree at the root and changes nothing. -/
theorem run_walk {disk : Disk} {root : Path} {tree : Tree Leaf}
    (hroot : disk.lookUp root = .ok tree) :
    (walker.walk root).run disk = (walkTree root tree, disk) := by
  have hwalk : walk root disk = walkTree root tree := by
    rw [walk, hroot]
  exact congrArg (·, disk) hwalk

end Disk

namespace Directory

/-! ### The class files of a directory -/

/-- The last name of a place is that of a class: it ends in `.class`, with something in front. -/
def EndsInClass (place : List FileName) : Prop :=
  ∃ above stem, stem ≠ [] ∧ place = above ++ [stem ++ dot :: classExtension]

/-- The places are those of the class files among all files, each of them once and in order. -/
structure Lists (isFile : List FileName → Prop) (places : List (List FileName)) : Prop where
  mem_iff : ∀ place, place ∈ places ↔ isFile place ∧ EndsInClass place
  nodup : places.Nodup
  sorted : places.Pairwise Tree.Precedes

/-- The places of classes among those that a walk comes to. -/
def classPlace? (visit : List FileName × Bool) : Option (List FileName) :=
  if visit.2 && visit.1.getLast?.bind Path.extensionOf? == some classExtension then
    some visit.1
  else
    none

/-- A place ends in a class if its last name has the extension of classes. -/
theorem endsInClass_iff (place : List FileName) :
    place.getLast?.bind Path.extensionOf? = some classExtension ↔ EndsInClass place := by
  have hextension : ∀ name : FileName, Path.extensionOf? name = some classExtension ↔
      ∃ stem, stem ≠ [] ∧ name = stem ++ dot :: classExtension :=
    fun name => Path.extensionOf?_eq_some_iff (by decide)
  rw [Option.bind_eq_some_iff]
  constructor
  · rintro ⟨name, hname, hclass⟩
    obtain ⟨above, rfl⟩ := List.getLast?_eq_some_iff.1 hname
    obtain ⟨stem, hstem, rfl⟩ := (hextension name).1 hclass
    exact ⟨above, stem, hstem, rfl⟩
  · rintro ⟨above, stem, hstem, rfl⟩
    exact ⟨_, List.getLast?_concat, (hextension _).2 ⟨stem, hstem, rfl⟩⟩

private theorem classPlace?_eq_some_iff {visit : List FileName × Bool} {place : List FileName} :
    classPlace? visit = some place ↔ visit = (place, true) ∧ EndsInClass place := by
  obtain ⟨other, flag⟩ := visit
  rw [classPlace?, ← endsInClass_iff]
  cases flag with
  | false => simp
  | true =>
    by_cases hclass : other.getLast?.bind Path.extensionOf? = some classExtension
    · simp only [hclass, Bool.true_and, beq_self_eq_true, if_pos, Option.some.injEq,
        Prod.mk.injEq, and_true]
      constructor
      · rintro rfl
        exact ⟨rfl, hclass⟩
      · exact And.left
    · simp only [hclass, Bool.true_and, beq_iff_eq, if_false, reduceCtorEq, false_iff, not_and,
        Prod.mk.injEq, and_true]
      rintro rfl
      exact hclass

/-- Of the places that a walk comes to, those of classes are kept. They are given by the names that
lead to them from the directory. -/
private theorem relativeClass?_below (root : Path) {visit : List FileName × Bool}
    (hnames : ∀ name ∈ visit.1, IsFileName name) (hroot : visit.1 = [] → visit.2 = false) :
    relativeClass? root ⟨root.below visit.1, visit.2⟩ =
      (classPlace? visit).map Path.ofNames := by
  obtain ⟨place, flag⟩ := visit
  cases flag with
  | false => rfl
  | true =>
    have hne : place ≠ [] := fun hnil => nomatch hroot hnil
    have hjoin := Path.below_eq_join root hne hnames
    have hfile : (root.join (Path.ofNames place)).fileName? = place.getLast? := by
      have hlast := hnames _ (List.getLast_mem hne)
      rw [Path.fileName?, Path.moves_join_ofNames hnames, List.getLast?_append,
        List.getLast?_eq_some_getLast hne, Option.some_or, Option.filter_some,
        if_pos (bne_iff_ne.2 hlast.ne_up)]
    rw [relativeClass?, classPlace?]
    dsimp only
    rw [hjoin, Path.extension?, hfile, Path.stripPrefix?_join root hnames hne]
    cases place.getLast?.bind Path.extensionOf? == some classExtension <;> rfl

/-! ### The search for classes -/

section Search

variable {α σ : Type} {isFile : α → Bool} {refusal? : Path → Option FileError}
  {walk : Path → Tree α → List (Except WalkError WalkEntry)}
  {entries : List (FileName × Tree α)} {root : Path}

private theorem relativeClasses_ok (root : Path) (entries : List WalkEntry) :
    relativeClasses root (entries.map .ok) = .ok (entries.filterMap (relativeClass? root)) := by
  have hentries : ((entries.map Except.ok).mapM fun item : Except WalkError WalkEntry =>
      item.mapError Failure.walk) = .ok entries := by
    induction entries with
    | nil => rfl
    | cons entry entries ih =>
      rw [List.map_cons, List.mapM_cons, ih]
      rfl
  rw [relativeClasses, hentries]
  rfl

private theorem relativeClasses_error (root : Path) (entries : List WalkEntry) (error : WalkError)
    (rest : List (Except WalkError WalkEntry)) :
    relativeClasses root (entries.map .ok ++ .error error :: rest) = .error (.walk error) := by
  have hentries : ((entries.map Except.ok ++ Except.error error :: rest).mapM
      fun item : Except WalkError WalkEntry => item.mapError Failure.walk) =
        .error (.walk error) := by
    induction entries with
    | nil => rfl
    | cons entry entries ih =>
      rw [List.map_cons, List.cons_append, List.mapM_cons, ih]
      rfl
  rw [relativeClasses, hentries]
  rfl

private theorem exists_relativeClasses_error (root : Path)
    {items : List (Except WalkError WalkEntry)}
    (h : ∃ error, .error error ∈ items) :
    ∃ error, relativeClasses root items = .error (.walk error) := by
  have hentries : ∃ error, (items.mapM fun item : Except WalkError WalkEntry =>
      item.mapError Failure.walk) = .error (.walk error) := by
    obtain ⟨error, hmem⟩ := h
    induction items with
    | nil => exact absurd hmem List.not_mem_nil
    | cons item items ih =>
      rw [List.mapM_cons]
      cases item with
      | error first => exact ⟨first, rfl⟩
      | ok entry =>
        obtain ⟨later, hlater⟩ := ih ((List.mem_cons.1 hmem).resolve_left (nomatch ·))
        rw [hlater]
        exact ⟨later, rfl⟩
  obtain ⟨error, herror⟩ := hentries
  rw [relativeClasses, herror]
  exact ⟨error, rfl⟩

/-- Collecting the classes is a walk and a look at what it met. -/
theorem run_collectClasses [DirectoryWalker (Stepwise σ)] (root : Path) (state : σ) :
    (collectClasses (m := Stepwise σ) root).run.run state =
      let walked := (DirectoryWalker.walk (m := Stepwise σ) root).run state
      (relativeClasses root walked.1, walked.2) := by
  have hlift : (liftM (DirectoryWalker.walk (m := Stepwise σ) root) :
      ExceptT Failure (Stepwise σ) (List (Except WalkError WalkEntry))).run =
        Except.ok <$> DirectoryWalker.walk root := rfl
  rw [collectClasses, ExceptT.run_bind, hlift, bind_map_left, Stepwise.run_bind]
  generalize (DirectoryWalker.walk (m := Stepwise σ) root).run state = walked
  change (ofExcept (m := Stepwise σ) (relativeClasses root walked.1)).run.run walked.2 = _
  cases hclasses : relativeClasses root walked.1 <;> simp only [hclasses] <;> rfl

/-- The class files among the files of a directory. -/
private theorem lists_classPlaces {visits : List (List FileName × Bool)}
    {items : List (Except WalkError WalkEntry)}
    (hvisits : SortedWalk.Visits isFile root (.dir entries) visits items) :
    Lists (fun place => ∃ content, (Tree.dir entries).node? place = some (.leaf content) ∧
      isFile content = true) (visits.filterMap classPlace?) := by
  have hmem : ∀ place, place ∈ visits.filterMap classPlace? ↔
      (∃ content, (Tree.dir entries).node? place = some (.leaf content) ∧
        isFile content = true) ∧ EndsInClass place := by
    intro place
    simp only [List.mem_filterMap, classPlace?_eq_some_iff, Tree.node?_eq_leaf_iff]
    constructor
    · rintro ⟨_, hvisit, rfl, hclass⟩
      obtain ⟨found, hfound, hfile⟩ := (hvisits.mem_iff place true).1 hvisit
      cases found with
      | dir entries => cases hfile
      | leaf content => exact ⟨⟨content, hfound, hfile.symm⟩, hclass⟩
    · rintro ⟨⟨content, hfound, hfile⟩, hclass⟩
      exact ⟨_, (hvisits.mem_iff place true).2 ⟨_, hfound, hfile.symm⟩, rfl, hclass⟩
  have hsorted : (visits.filterMap classPlace?).Pairwise Tree.Precedes := by
    refine List.pairwise_filterMap.2 (hvisits.sorted.imp fun {first second} h => ?_)
    intro place hplace place' hplace'
    obtain ⟨rfl, -⟩ := classPlace?_eq_some_iff.1 hplace
    obtain ⟨rfl, -⟩ := classPlace?_eq_some_iff.1 hplace'
    exact h
  -- sorted strictly, the places are distinct
  refine ⟨hmem, hsorted.imp fun {first second} h => ?_, hsorted⟩
  rintro rfl
  exact Tree.precedes_irrefl _ h

section Run

variable [DirectoryWalker (Stepwise σ)] (hwalk : SortedWalk isFile refusal? walk)
  (hproper : (Tree.dir entries).IsProper IsFileName) {state later : σ}
  (hrun : (DirectoryWalker.walk (m := Stepwise σ) root).run state =
    (walk root (.dir entries), later))

include hwalk hproper hrun

/-- If all directories can be opened, then the classes are collected, each once and in order. -/
theorem collectClasses_of_open (hopen : SortedWalk.Open refusal? root (.dir entries)) :
    ∃ places, (collectClasses (m := Stepwise σ) root).run.run state =
        (.ok (places.map Path.ofNames), later) ∧
      Lists (fun place => ∃ content, (Tree.dir entries).node? place = some (.leaf content) ∧
        isFile content = true) places := by
  obtain ⟨visits, hvisits⟩ := hwalk.exists_visits hproper hopen
  -- no item of the walk is an error
  have hitems : visits.map (fun visit => Except.ok ⟨root.below visit.1, visit.2⟩) =
      (visits.map fun visit => WalkEntry.mk (root.below visit.1) visit.2).map
        (Except.ok : WalkEntry → Except WalkError WalkEntry) := by
    rw [List.map_map]
    rfl
  refine ⟨_, ?_, lists_classPlaces hvisits⟩
  rw [run_collectClasses, hrun]
  dsimp only
  rw [hvisits.items_eq, hitems, relativeClasses_ok, List.filterMap_map, List.map_filterMap]
  refine congrArg (fun places => (Except.ok places, later)) (List.filterMap_congr ?_)
  rintro ⟨place, flag⟩ hvisit
  obtain ⟨found, hfound, rfl⟩ := (hvisits.mem_iff place flag).1 hvisit
  refine relativeClass?_below root ?_ ?_
  · exact hproper.valid_of_mem (congrArg (Option.map Tree.top) hfound)
  · rintro rfl
    cases hfound
    rfl

private theorem collectClasses_of_refused {place : List FileName} {error : FileError}
    (hdir : (Tree.dir entries).node? place = some .dir)
    (hrefused : refusal? (root.below place) = some error)
    (hfirst : ∀ other, Tree.Precedes other place → (Tree.dir entries).node? other = some .dir →
      refusal? (root.below other) = none) :
    (collectClasses (m := Stepwise σ) root).run.run state =
      (.error (.walk ⟨root.below place, error⟩), later) := by
  obtain ⟨items, rest, hitems⟩ := hwalk.exists_error hproper hdir hrefused hfirst
  rw [run_collectClasses, hrun]
  dsimp only
  rw [hitems, relativeClasses_error]

/-- If a directory cannot be opened, then the walk fails. -/
theorem collectClasses_of_not_open (hnot : ¬ SortedWalk.Open refusal? root (.dir entries)) :
    ∃ error, (collectClasses (m := Stepwise σ) root).run.run state =
      (.error (.walk error), later) := by
  obtain ⟨error, herror⟩ :=
    exists_relativeClasses_error root (hwalk.exists_error_mem hproper hnot)
  rw [run_collectClasses, hrun]
  exact ⟨error, congrArg (·, later) herror⟩

end Run

end Search

/-- The entries of a directory in which a class of another directory comes before the class of the
same name, a directory has the name of a class, and two files are no classes. -/
def crowded : List (FileName × Tree Leaf) :=
  [(utf8Bytes "a.class", .leaf (.regular 1)), (utf8Bytes ".class", .leaf (.regular 2)),
    (utf8Bytes "b.class", .dir [(utf8Bytes "c.class.txt", .leaf (.regular 3)),
      (utf8Bytes "d.class", .leaf (.regular 4))]),
    (utf8Bytes "a", .dir [(utf8Bytes "X.class", .leaf (.regular 5))])]

/-- A disk with a single directory. -/
def diskOf (entries : List (FileName × Tree Leaf)) : Disk where
  root := .dir [(utf8Bytes "in", .dir entries)]
  contents _ := []
  workplace := []
  troubles := []

private theorem isProper_crowded : (Tree.dir crowded).IsProper IsFileName := by
  simp only [crowded, Tree.isProper_dir_iff, List.forall_mem_cons, List.not_mem_nil,
    IsEmpty.forall_iff, implies_true, Tree.IsProper.leaf, List.map_cons, List.map_nil]
  decide +kernel

private theorem open_crowded : SortedWalk.Open Disk.refusal? (.ofText "in") (.dir crowded) := by
  have hdistinct := (Tree.isProper_dir_iff.1 isProper_crowded).2.1
  rw [SortedWalk.open_dir_iff hdistinct, crowded]
  simp only [List.forall_mem_cons, SortedWalk.open_leaf, List.not_mem_nil, IsEmpty.forall_iff,
    implies_true, and_true, true_and]
  rw [SortedWalk.open_dir_iff (by decide +kernel), SortedWalk.open_dir_iff (by decide +kernel)]
  simp only [List.forall_mem_cons, SortedWalk.open_leaf, List.not_mem_nil, IsEmpty.forall_iff,
    implies_true, and_true]
  decide +kernel

private theorem run_walk_diskOf (entries : List (FileName × Tree Leaf)) :
    (Disk.walker.walk (.ofText "in")).run (diskOf entries) =
      (Disk.walkTree (.ofText "in") (.dir entries), diskOf entries) :=
  Disk.run_walk rfl

/-- A name that is long and not too long. -/
def longName : FileName := List.replicate 200 0x64

/-- A class in a directory with a long name. -/
def deep : List (FileName × Tree Leaf) :=
  [(longName, .dir [(utf8Bytes "A.class", .leaf (.regular 1))])]

/-- A long path that leads to the directory `in`. -/
def roundabout : Path := ⟨(List.replicate 2000 [dot, slash]).flatten ++ utf8Bytes "in"⟩

theorem isProper_deep : (Tree.dir deep).IsProper IsFileName := by
  simp only [deep, Tree.isProper_dir_iff, List.forall_mem_cons, List.not_mem_nil,
    IsEmpty.forall_iff, implies_true, Tree.IsProper.leaf, List.map_cons, List.map_nil]
  decide +kernel

theorem lookUp_roundabout : (diskOf deep).lookUp roundabout = .ok (.dir deep) := by
  have hlocate : (diskOf deep).locate roundabout = .ok [utf8Bytes "in"] := by decide +kernel
  exact Disk.lookUp_eq_dir_iff.2 ⟨_, hlocate, rfl⟩

end Directory

end ClassStub
