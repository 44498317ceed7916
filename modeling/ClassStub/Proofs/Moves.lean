import ClassStub.Proofs.Paths
import ClassStub.Proofs.Steps
import ClassStub.Proofs.Trees

/-!
# Moves in a tree

A move leads from a directory into one of its entries, or with `..` to the directory above. Where
moves lead is a matter of the moves alone (`move`); the tree only decides whether they can be gone
(`Disk.reach_eq_ok_iff`). The steps of a path are followed as the moves among them
(`Disk.follow_eq_reach`).
-/

namespace ClassStub

open FileName

/-- The place to which a move leads. -/
def move (place : List FileName) (step : FileName) : List FileName :=
  if step = up then place.dropLast else place ++ [step]

/-- The places at which one stands after each of some moves. -/
def visits (place : List FileName) : List FileName → List (List FileName)
  | [] => []
  | step :: steps => move place step :: visits (move place step) steps

/-- The places on a way are those on its first part, and then those on the second. -/
theorem visits_append (place first second : List FileName) :
    visits place (first ++ second) =
      visits place first ++ visits (first.foldl move place) second := by
  induction first generalizing place with
  | nil => rfl
  | cons step first ih =>
    rw [List.cons_append, visits, visits, ih, List.cons_append, List.foldl_cons]

/-- A step other than `..` goes down. -/
theorem move_of_ne {step : FileName} (h : step ≠ up) (place : List FileName) :
    move place step = place ++ [step] := if_neg h

/-- Names lead down from a place. -/
theorem foldl_move_of_names {names : List FileName} (hnames : up ∉ names) (place : List FileName) :
    names.foldl move place = place ++ names := by
  induction names generalizing place with
  | nil => rw [List.foldl_nil, List.append_nil]
  | cons name names ih =>
    rw [List.mem_cons, not_or] at hnames
    obtain ⟨hname, hnames⟩ := hnames
    rw [List.foldl_cons, move_of_ne (Ne.symm hname), ih hnames, List.append_assoc,
      List.singleton_append]

/-- Names lead down through the places above them. -/
theorem mem_visits_of_names {names : List FileName} (hnames : up ∉ names)
    {start place : List FileName} :
    place ∈ visits start names ↔
      ∃ above below, names = above ++ below ∧ above ≠ [] ∧ place = start ++ above := by
  induction names generalizing start with
  | nil => simp [visits]
  | cons name names ih =>
    rw [List.mem_cons, not_or] at hnames
    obtain ⟨hname, hnames⟩ := hnames
    rw [visits, List.mem_cons, move_of_ne (Ne.symm hname), ih hnames]
    constructor
    · rintro (rfl | ⟨above, below, rfl, -, rfl⟩)
      · exact ⟨[name], names, rfl, List.cons_ne_nil _ _, rfl⟩
      · exact ⟨name :: above, below, rfl, List.cons_ne_nil _ _, by simp⟩
    · rintro ⟨above, below, heq, hne, rfl⟩
      obtain ⟨first, above, rfl⟩ := List.exists_cons_of_ne_nil hne
      rw [List.cons_append, List.cons.injEq] at heq
      obtain ⟨rfl, heq⟩ := heq
      by_cases habove : above = []
      · exact .inl (by rw [habove])
      · exact .inr ⟨above, below, heq, habove, by simp⟩

namespace Disk

/-! ### Following moves -/

/-- One move from a directory to a directory. -/
def go (root : Tree Leaf) (place : List FileName) (step : FileName) :
    Except FileError (List FileName) :=
  if step = up then
    .ok place.dropLast
  else do
    checkName step
    match root.node? (place ++ [step]) with
    | some .dir => return place ++ [step]
    | some (.leaf _) => throw .notDirectory
    | none => throw .notFound

/-- The directory above is always there. -/
theorem go_above {root : Tree Leaf} {place : List FileName} :
    go root place up = .ok place.dropLast := if_pos rfl

/-- Moves from a directory through directories. -/
def reach (root : Tree Leaf) (place : List FileName) (moves : List FileName) :
    Except FileError (List FileName) := moves.foldlM (go root) place

variable {root : Tree Leaf} {place : List FileName}

theorem reach_nil : reach root place [] = .ok place := rfl

theorem reach_cons (step : FileName) (moves : List FileName) :
    reach root place (step :: moves) = go root place step >>= (reach root · moves) := rfl

/-- A way can be gone in two parts. -/
theorem reach_append (first second : List FileName) :
    reach root place (first ++ second) =
      reach root place first >>= (reach root · second) := by
  rw [reach, List.foldlM_append]
  rfl

/-- The last step of a way is gone from where the others lead. -/
theorem reach_concat (front : List FileName) (step : FileName) :
    reach root place (front ++ [step]) = reach root place front >>= (go root · step) := by
  rw [reach_append]
  cases reach root place front with
  | error error => rfl
  | ok next =>
    change (go root next step >>= fun last => Except.ok last) = go root next step
    cases go root next step <;> rfl

/-- A name may be as long as a name can be. -/
theorem checkName_eq_ok_iff {name : FileName} :
    checkName name = .ok () ↔ name.length ≤ maxNameBytes := by
  rw [checkName]
  split
  case isTrue hlong => simp [Nat.not_le.2 hlong]
  case isFalse hshort => simp [Nat.not_lt.1 hshort]

theorem checkName_eq_error_iff {name : FileName} {error : FileError} :
    checkName name = .error error ↔ maxNameBytes < name.length ∧ error = .nameTooLong := by
  rw [checkName]
  split
  case isTrue hlong => simp [hlong, eq_comm]
  case isFalse hshort => simp [hshort]

/-- A move leads to a place that does not depend on the tree. An entry must be a directory. -/
theorem go_eq_ok_iff {step : FileName} {next : List FileName} :
    go root place step = .ok next ↔ next = move place step ∧
      (step ≠ up → checkName step = .ok () ∧ root.node? next = some .dir) := by
  rw [go, move]
  split
  case isTrue habove =>
    rw [Except.ok.injEq, eq_comm]
    simp [habove]
  case isFalse hname =>
    rw [bind_unit_eq_ok_iff]
    -- below, only a directory can be entered
    cases hnode : root.node? (place ++ [step]) with
    | none =>
      constructor
      · rintro ⟨-, h⟩
        exact nomatch h
      · rintro ⟨rfl, h⟩
        rw [(h hname).2] at hnode
        exact nomatch hnode
    | some node =>
      cases node with
      | leaf content =>
        constructor
        · rintro ⟨-, h⟩
          exact nomatch h
        · rintro ⟨rfl, h⟩
          rw [(h hname).2] at hnode
          exact nomatch hnode
      | dir =>
        constructor
        · rintro ⟨hshort, h⟩
          obtain rfl := pure_eq_ok_iff.1 h
          exact ⟨rfl, fun _ => ⟨hshort, hnode⟩⟩
        · rintro ⟨rfl, h⟩
          exact ⟨(h hname).1, rfl⟩

/-- What a failing move met. -/
theorem go_eq_error_iff {step : FileName} {error : FileError} :
    go root place step = .error error ↔ step ≠ up ∧
      (checkName step = .error error ∨ checkName step = .ok () ∧
        ((error = .notDirectory ∧ ∃ content, root.node? (place ++ [step]) = some (.leaf content)) ∨
          (error = .notFound ∧ root.node? (place ++ [step]) = none))) := by
  rw [go]
  split
  case isTrue habove => simp [habove]
  case isFalse hname =>
    cases hshort : checkName step with
    | error error' =>
      change Except.error error' = _ ↔ _
      simp [hname]
    | ok =>
      cases hnode : root.node? (place ++ [step]) with
      | none =>
        change Except.error FileError.notFound = _ ↔ _
        simp [hname, eq_comm]
      | some node =>
        cases node with
        | dir =>
          change Except.ok _ = _ ↔ _
          simp
        | leaf content =>
          change Except.error FileError.notDirectory = _ ↔ _
          simp [hname, eq_comm]

/-- Moves that can be gone are those with short names, through directories. -/
theorem reach_eq_ok_iff (hplace : root.node? place = some .dir) {moves last : List FileName} :
    reach root place moves = .ok last ↔ last = moves.foldl move place ∧
      (∀ step ∈ moves, checkName step = .ok ()) ∧
        ∀ visit ∈ visits place moves, root.node? visit = some .dir := by
  induction moves generalizing place with
  | nil =>
    rw [reach_nil, Except.ok.injEq, eq_comm]
    simp [visits]
  | cons step moves ih =>
    -- the directory above a directory is one, too
    have habove : step = up → checkName step = .ok () ∧
        root.node? (move place step) = some .dir := by
      rintro rfl
      refine ⟨rfl, ?_⟩
      rw [move, if_pos rfl]
      by_cases hnil : place = []
      · rwa [hnil] at hplace ⊢
      · rw [← List.dropLast_append_getLast hnil] at hplace
        exact Tree.node?_of_append hplace (List.cons_ne_nil _ _)
    have hgo : ∀ next, go root place step = .ok next ↔ next = move place step ∧
        checkName step = .ok () ∧ root.node? (move place step) = some .dir := by
      intro next
      rw [go_eq_ok_iff]
      constructor
      · rintro ⟨rfl, h⟩
        by_cases hstep : step = up
        · exact ⟨rfl, habove hstep⟩
        · exact ⟨rfl, h hstep⟩
      · rintro ⟨rfl, h⟩
        exact ⟨rfl, fun _ => h⟩
    rw [reach_cons, bind_eq_ok_iff, List.foldl_cons, visits, List.forall_mem_cons,
      List.forall_mem_cons]
    constructor
    · rintro ⟨next, hnext, hrest⟩
      obtain ⟨rfl, hshort, hdir⟩ := (hgo next).1 hnext
      obtain ⟨hlast, hshorts, hdirs⟩ := (ih hdir).1 hrest
      exact ⟨hlast, ⟨hshort, hshorts⟩, hdir, hdirs⟩
    · rintro ⟨hlast, ⟨hshort, hshorts⟩, hdir, hdirs⟩
      exact ⟨_, (hgo _).2 ⟨rfl, hshort, hdir⟩, (ih hdir).2 ⟨hlast, hshorts, hdirs⟩⟩

/-- Where moves lead that can be gone, there is a directory. -/
theorem node?_of_reach (hplace : root.node? place = some .dir) {moves last : List FileName}
    (h : reach root place moves = .ok last) : root.node? last = some .dir := by
  induction moves generalizing place with
  | nil =>
    obtain rfl := Except.ok.inj (reach_nil.symm.trans h)
    exact hplace
  | cons step moves ih =>
    have hfirst := (reach_eq_ok_iff hplace).1 h
    rw [reach_cons, bind_eq_ok_iff] at h
    obtain ⟨next, hnext, hrest⟩ := h
    obtain ⟨rfl, -⟩ := go_eq_ok_iff.1 hnext
    exact ih (hfirst.2.2 _ List.mem_cons_self) hrest

/-- Each name of the trail is with the directory to which it leads. -/
def Leads (root : Tree Leaf) : List (FileName × Tree Leaf) → Prop
  | [] => True
  | (name, tree) :: above =>
    root.get? (((name, tree) :: above).map Prod.fst).reverse = some tree ∧ Leads root above

/-- What stands at the end of a trail. -/
private theorem Leads.get?_head {trail : List (FileName × Tree Leaf)} (h : Leads root trail) :
    root.get? (trail.map Prod.fst).reverse =
      some ((trail.head?.map Prod.snd).getD root) := by
  cases trail with
  | nil => rfl
  | cons entry above => exact h.1

/-- Steps are followed as the moves among them. -/
theorem follow_eq_reach {trail : List (FileName × Tree Leaf)} (h : Leads root trail)
    (steps : List FileName) :
    follow root trail steps =
      reach root (trail.map Prod.fst).reverse (steps.filter (· != here)) := by
  induction steps generalizing trail with
  | nil => rfl
  | cons step steps ih =>
    rw [follow]
    by_cases hhere : step = here
    · rw [if_pos hhere, ih h, hhere]
      rfl
    · have hkept : (step != here) = true := by simpa using hhere
      rw [if_neg hhere, List.filter_cons, if_pos hkept, reach_cons, go]
      by_cases habove : step = up
      · -- the step `..` takes the last entry off the trail, if there is one
        have htail : Leads root trail.tail := by
          cases trail with
          | nil => exact h
          | cons entry above => exact h.2
        have hnames : (trail.tail.map Prod.fst).reverse =
            (trail.map Prod.fst).reverse.dropLast := by
          rw [List.map_tail, List.dropLast_reverse]
        rw [if_pos habove, if_pos habove, ih htail, hnames]
        rfl
      · rw [if_neg habove, if_neg habove, Tree.node?, Tree.get?_append, h.get?_head,
          Option.bind_some]
        cases checkName step with
        | error error => rfl
        | ok _ =>
          cases hfound : ((trail.head?.map Prod.snd).getD root).get? [step] with
          | none => rfl
          | some found =>
            cases found with
            | leaf content => rfl
            | dir entries =>
              -- the directory that was found is put on the trail
              have hentry : Leads root ((step, .dir entries) :: trail) := by
                refine ⟨?_, h⟩
                rw [List.map_cons, List.reverse_cons, Tree.get?_append, h.get?_head,
                  Option.bind_some, hfound]
              dsimp only
              rw [ih hentry, List.map_cons, List.reverse_cons]
              rfl

end Disk

end ClassStub
