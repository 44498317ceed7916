import Mathlib.Data.List.Basic
import ClassStub.Files.Tree

/-!
# Trees seen from their places

A tree is determined by what stands at each place: nothing, a directory, or a leaf with a content
(`Tree.node?`). In this view the operations on trees are simple. Putting a leaf or an empty
directory somewhere changes what stands at that one place (`Tree.node?_put`), and what is above
anything is a directory (`Tree.node?_of_append`).

A tree from a disk is *proper*: the entries of each directory have names of their own
(`Tree.IsProper`).
-/

namespace ClassStub

/-- What stands at a place, without what is below a directory. -/
inductive Node (α : Type) where
  | dir
  | leaf (content : α)
  deriving DecidableEq

namespace Tree

variable {α β : Type}

/-- What stands at the top of a tree. -/
def top : Tree α → Node α
  | dir _ => .dir
  | leaf content => .leaf content

/-- What stands at a place of a tree. -/
def node? (tree : Tree α) (place : List FileName) : Option (Node α) := (tree.get? place).map top

/-- What holds of leaves, and of a directory if it holds of its entries, holds of every tree. -/
@[induction_eliminator]
theorem induction {P : Tree α → Prop} (leaf : ∀ content, P (.leaf content))
    (dir : ∀ entries, (∀ entry ∈ entries, P entry.2) → P (.dir entries)) (tree : Tree α) :
    P tree :=
  @Tree.rec α P (fun entries => ∀ entry ∈ entries, P entry.2) (fun entry => P entry.2) leaf dir
    (fun _ hmem => absurd hmem List.not_mem_nil)
    (fun _ _ hfirst hrest => List.forall_mem_cons.2 ⟨hfirst, hrest⟩) (fun _ _ h => h) tree

/-! ### Places -/

/-- A place below another one is looked up from there. -/
theorem get?_append (tree : Tree α) (above below : List FileName) :
    tree.get? (above ++ below) = (tree.get? above).bind (get? below) := by
  induction above generalizing tree with
  | nil => rfl
  | cons name above ih =>
    cases tree with
    | leaf content => rfl
    | dir entries =>
      rw [List.cons_append, get?, get?]
      cases entries.lookup name with
      | none => rfl
      | some found => exact ih found

private theorem node?_nil (tree : Tree α) : tree.node? [] = some tree.top := rfl

/-- The first name of a place is that of an entry. -/
theorem node?_cons_dir (entries : List (FileName × Tree α)) (name : FileName)
    (names : List FileName) :
    (dir entries).node? (name :: names) = (entries.lookup name).bind (·.node? names) := by
  rw [node?, get?]
  cases entries.lookup name <;> rfl

/-- What stands below a place stands in the tree at that place. -/
theorem node?_append (tree : Tree α) (above below : List FileName) :
    tree.node? (above ++ below) = (tree.get? above).bind (·.node? below) := by
  rw [node?, get?_append]
  cases tree.get? above <;> rfl

/-- A directory at a place has some entries. -/
theorem node?_eq_dir_iff {tree : Tree α} {place : List FileName} :
    tree.node? place = some .dir ↔ ∃ entries, tree.get? place = some (.dir entries) := by
  rw [node?, Option.map_eq_some_iff]
  constructor
  · rintro ⟨found, hfound, htop⟩
    cases found with
    | leaf content => exact nomatch htop
    | dir entries => exact ⟨entries, hfound⟩
  · rintro ⟨entries, hfound⟩
    exact ⟨_, hfound, rfl⟩

/-- A leaf at a place is the whole tree there. -/
theorem node?_eq_leaf_iff {tree : Tree α} {place : List FileName} {content : α} :
    tree.node? place = some (.leaf content) ↔ tree.get? place = some (.leaf content) := by
  rw [node?, Option.map_eq_some_iff]
  constructor
  · rintro ⟨found, hfound, htop⟩
    cases found with
    | dir entries => exact nomatch htop
    | leaf content' =>
      obtain rfl : content' = content := Node.leaf.inj htop
      exact hfound
  · intro hfound
    exact ⟨_, hfound, rfl⟩

/-- Only directories have something below them. -/
theorem node?_of_append {tree : Tree α} {above below : List FileName} {node : Node α}
    (h : tree.node? (above ++ below) = some node) (hbelow : below ≠ []) :
    tree.node? above = some .dir := by
  rw [node?_append, Option.bind_eq_some_iff] at h
  obtain ⟨found, hfound, hnode⟩ := h
  rw [node?, hfound]
  cases found with
  | dir entries => rfl
  | leaf content =>
    obtain ⟨name, names, rfl⟩ := List.exists_cons_of_ne_nil hbelow
    exact nomatch hnode

/-! ### Putting something at a place -/

/-- An entry that is replaced everywhere is found where it was found before. -/
private theorem lookup_map_replace (entries : List (FileName × Tree α)) (name other : FileName)
    (new : Tree α) :
    (entries.map fun entry => if entry.1 == name then (name, new) else entry).lookup other =
      if other = name then (entries.lookup name).map fun _ => new else entries.lookup other := by
  induction entries with
  | nil => simp
  | cons entry entries ih =>
    obtain ⟨key, found⟩ := entry
    rw [List.map_cons]
    by_cases hkey : key = name
    · subst hkey
      rw [if_pos (beq_self_eq_true key), List.lookup_cons, ih, List.lookup_cons_self]
      by_cases hother : other = key
      · simp [hother]
      · rw [beq_false_of_ne hother, if_neg hother, if_neg hother, List.lookup_cons,
          beq_false_of_ne hother]
    · rw [if_neg (by simpa using hkey), List.lookup_cons, ih, List.lookup_cons,
        beq_false_of_ne (Ne.symm hkey)]
      by_cases hother : other = key
      · have hne : other ≠ name := fun heq => hkey (hother.symm.trans heq)
        simp [hother, hkey]
      · rw [beq_false_of_ne hother, List.lookup_cons, beq_false_of_ne hother]

private theorem lookup_setEntry (entries : List (FileName × Tree α)) (name other : FileName)
    (new : Tree α) : (setEntry entries name new).lookup other =
      if other = name then some new else entries.lookup other := by
  rw [setEntry]
  split
  case isTrue hsome =>
    obtain ⟨old, hold⟩ := Option.isSome_iff_exists.1 hsome
    rw [lookup_map_replace, hold]
    rfl
  case isFalse hnone =>
    rw [Option.not_isSome_iff_eq_none] at hnone
    rw [List.lookup_append, List.lookup_cons, List.lookup_nil]
    by_cases hother : other = name
    · rw [if_pos hother, hother, hnone, beq_self_eq_true]
      rfl
    · rw [if_neg hother, beq_false_of_ne hother]
      exact Option.or_none

/-- What is put at a place stands there afterwards, and all other places are as they were. It must
be something with nothing below it, and the place must be in a directory and not itself one. -/
theorem node?_put {tree new : Tree α} {place : List FileName}
    (hnew : ∀ names, names ≠ [] → new.node? names = none)
    (habove : ∀ above below, place = above ++ below → below ≠ [] → tree.node? above = some .dir)
    (hplace : tree.node? place ≠ some .dir) (other : List FileName) :
    (tree.put place new).node? other =
      if other = place then some new.top else tree.node? other := by
  induction place generalizing tree other with
  | nil =>
    rw [put]
    by_cases hother : other = []
    · rw [if_pos hother, hother, node?_nil]
    · rw [if_neg hother, hnew other hother]
      cases tree with
      | dir entries => exact absurd rfl hplace
      | leaf content =>
        obtain ⟨name, names, rfl⟩ := List.exists_cons_of_ne_nil hother
        rfl
  | cons name names ih =>
    -- the tree has something below it, so it is a directory
    have htop := habove [] (name :: names) rfl (List.cons_ne_nil _ _)
    cases tree with
    | leaf content => exact nomatch htop
    | dir entries =>
      rw [put]
      cases other with
      | nil => simp [node?_nil, top]
      | cons first rest =>
        rw [node?_cons_dir, lookup_setEntry]
        by_cases hfirst : first = name
        · subst hfirst
          rw [if_pos rfl, Option.bind_some]
          have hsub : ∀ names', (dir entries).node? (first :: names') =
              (entries.lookup first).bind (·.node? names') := node?_cons_dir entries first
          cases hfound : entries.lookup first with
          | none =>
            -- a name that is new in its directory is the last one
            have hlast : names = [] := by
              by_contra hne
              have h := habove [first] names rfl hne
              rw [hsub, hfound] at h
              exact nomatch h
            subst hlast
            rw [Option.getD_none, put]
            by_cases hrest : rest = []
            · rw [hrest, if_pos rfl, node?_nil]
            · rw [hnew rest hrest, if_neg (by simpa using hrest), hsub, hfound, Option.bind_none]
          | some found =>
            have habove' : ∀ above below, names = above ++ below → below ≠ [] →
                found.node? above = some .dir := by
              intro above below heq hne
              have h := habove (first :: above) below (by rw [heq, List.cons_append]) hne
              rwa [hsub, hfound, Option.bind_some] at h
            have hplace' : found.node? names ≠ some .dir := by
              rwa [hsub, hfound, Option.bind_some] at hplace
            rw [Option.getD_some, ih habove' hplace' rest, hsub, hfound, Option.bind_some]
            simp
        · rw [if_neg hfirst, if_neg (fun heq => hfirst (List.cons.inj heq).1), node?_cons_dir]

/-! ### Proper trees -/

/-- Each directory of the tree has entries of different names, which are names that entries may
have. -/
inductive IsProper (valid : FileName → Prop) : Tree α → Prop
  | leaf (content : α) : IsProper valid (.leaf content)
  | dir {entries : List (FileName × Tree α)} (hnames : ∀ entry ∈ entries, valid entry.1)
      (hdistinct : (entries.map Prod.fst).Nodup)
      (hentries : ∀ entry ∈ entries, IsProper valid entry.2) : IsProper valid (.dir entries)

variable {valid : FileName → Prop}

/-- The trees in a proper directory are proper, and its names are valid and distinct. -/
theorem isProper_dir_iff {entries : List (FileName × Tree α)} :
    (dir entries).IsProper valid ↔ (∀ entry ∈ entries, valid entry.1) ∧
      (entries.map Prod.fst).Nodup ∧ ∀ entry ∈ entries, entry.2.IsProper valid := by
  constructor
  · intro h
    cases h with
    | dir hnames hdistinct hentries => exact ⟨hnames, hdistinct, hentries⟩
  · intro h
    exact .dir h.1 h.2.1 h.2.2

/-- Where names differ, each entry is the one that is found by its name. -/
theorem lookup_eq_some_iff_mem {entries : List (FileName × Tree α)}
    (hdistinct : (entries.map Prod.fst).Nodup) {name : FileName} {tree : Tree α} :
    entries.lookup name = some tree ↔ (name, tree) ∈ entries := by
  induction entries with
  | nil => simp
  | cons entry entries ih =>
    obtain ⟨key, found⟩ := entry
    rw [List.map_cons, List.nodup_cons] at hdistinct
    rw [List.lookup_cons, List.mem_cons, Prod.mk.injEq]
    by_cases hname : name = key
    · subst hname
      have hnot : (name, tree) ∉ entries := by
        intro hmem
        exact hdistinct.1 (List.mem_map.2 ⟨(name, tree), hmem, rfl⟩)
      simp [hnot, eq_comm]
    · simp [beq_false_of_ne hname, hname, ih hdistinct.2]

/-- The trees in a proper tree are proper. -/
theorem IsProper.get? {tree found : Tree α} (h : tree.IsProper valid) {place : List FileName}
    (hget : tree.get? place = some found) : found.IsProper valid := by
  induction place generalizing tree with
  | nil =>
    obtain rfl := Option.some.inj hget
    exact h
  | cons name names ih =>
    cases h with
    | leaf content => exact nomatch hget
    | dir hnames hdistinct hentries =>
      rw [Tree.get?, Option.bind_eq_some_iff] at hget
      obtain ⟨sub, hsub, hget⟩ := hget
      exact ih (hentries _ ((lookup_eq_some_iff_mem hdistinct).1 hsub)) hget

/-- The names may be asked less of. -/
theorem IsProper.mono {tree : Tree α} (h : tree.IsProper valid) {valid' : FileName → Prop}
    (hvalid : ∀ {name}, valid name → valid' name) : tree.IsProper valid' := by
  induction h with
  | leaf content => exact .leaf content
  | dir hnames hdistinct _ ih =>
    exact .dir (fun entry hmem => hvalid (hnames entry hmem)) hdistinct ih

/-- The names that lead to something in a proper tree are names that entries may have. -/
theorem IsProper.valid_of_mem {tree : Tree α} (h : tree.IsProper valid) {place : List FileName}
    {node : Node α} (hnode : tree.node? place = some node) : ∀ name ∈ place, valid name := by
  induction place generalizing tree with
  | nil =>
    intro name hmem
    exact absurd hmem List.not_mem_nil
  | cons name names ih =>
    cases h with
    | leaf content => exact nomatch hnode
    | dir hnames hdistinct hentries =>
      rw [node?_cons_dir, Option.bind_eq_some_iff] at hnode
      obtain ⟨sub, hsub, hnode⟩ := hnode
      have hmem := (lookup_eq_some_iff_mem hdistinct).1 hsub
      exact List.forall_mem_cons.2 ⟨hnames _ hmem, ih (hentries _ hmem) hnode⟩

/-! ### Leaves -/

/-- What stands at a place is among the leaves. -/
theorem mem_leaves_of_node? {tree : Tree α} {place : List FileName} {content : α}
    (h : tree.node? place = some (.leaf content)) : content ∈ tree.leaves := by
  -- what is in an entry is in the directory
  have hentries : ∀ {entries : List (FileName × Tree α)} {name found},
      entries.lookup name = some found → ∀ content ∈ found.leaves,
        content ∈ leavesOfEntries entries := by
    intro entries name found hfound content hmem
    induction entries with
    | nil => cases hfound
    | cons entry entries ih =>
      rw [leavesOfEntries, List.mem_append]
      rw [List.lookup_cons] at hfound
      split at hfound
      · cases hfound
        exact .inl hmem
      · exact .inr (ih hfound)
  induction place generalizing tree with
  | nil =>
    cases tree with
    | dir entries => cases h
    | leaf content' =>
      obtain rfl : content' = content := Node.leaf.inj (Option.some.inj h)
      exact List.mem_singleton_self _
  | cons name names ih =>
    cases tree with
    | leaf content' => cases h
    | dir entries =>
      rw [node?_cons_dir, Option.bind_eq_some_iff] at h
      obtain ⟨found, hfound, hnode⟩ := h
      exact hentries hfound content (ih hnode)

end Tree

end ClassStub
