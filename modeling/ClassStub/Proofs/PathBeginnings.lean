import ClassStub.Proofs.Paths

/-!
# The beginnings of a path

`FileStore.makeDirs` works on beginnings of a path, which are given by their lengths. These
beginnings end with the steps of the path, and so they lead down to the nearest directory, one move
at a time (`Path.Descends`, `Path.descends_parentEnds`). From there, a path that ends in a name
makes one move more (`Path.moves_eq_concat`). A beginning of a path that can be used can be used,
too (`Path.validate_upTo`).
-/

namespace ClassStub

open FileName

namespace Path

/-! ### The beginnings of a path -/

/-- Two lists of pieces are joined by a slash. -/
theorem glue_append {first second : List Bytes} (hfirst : first ≠ []) (hsecond : second ≠ []) :
    glue (first ++ second) = glue first ++ slash :: glue second := by
  induction first with
  | nil => exact absurd rfl hfirst
  | cons piece first ih =>
    cases first with
    | nil =>
      obtain ⟨next, others, rfl⟩ := List.exists_cons_of_ne_nil hsecond
      rw [glue, List.singleton_append, List.intercalate_cons_cons, glue, glue,
        List.intercalate_singleton, List.append_assoc, List.singleton_append]
    | cons next first =>
      have hrest := ih (List.cons_ne_nil _ _)
      rw [glue, glue, List.cons_append] at hrest
      rw [glue, glue, List.cons_append, List.cons_append, List.intercalate_cons_cons, hrest,
        List.intercalate_cons_cons, List.append_assoc, List.append_assoc, List.append_assoc]

/-- The length of a text behind whose pieces another piece comes. -/
def lengthBefore (front : List Bytes) : Nat :=
  if front.isEmpty then 0 else (glue front).length + 1

private theorem length_glue_concat (front : List Bytes) (piece : Bytes) :
    (glue (front ++ [piece])).length = lengthBefore front + piece.length := by
  rw [lengthBefore]
  cases front with
  | nil => simp [glue]
  | cons first front =>
    rw [glue_append (List.cons_ne_nil _ _) (List.cons_ne_nil _ _)]
    simp [glue]
    omega

/-- The beginnings of some pieces that end with a step, the shortest first. Pieces that come
before all of them are given beside. -/
def stepFronts (front : List Bytes) : List Bytes → List (List Bytes)
  | [] => []
  | piece :: rest =>
    let later := stepFronts (front ++ [piece]) rest
    if piece.isEmpty || (piece == here && !front.isEmpty) then later
    else (front ++ [piece]) :: later

private theorem stepEnds_eq (front rest : List Bytes) :
    stepEnds (lengthBefore front) rest = (stepFronts front rest).map (glue · |>.length) := by
  induction rest generalizing front with
  | nil => rfl
  | cons piece rest ih =>
    have hbefore : lengthBefore (front ++ [piece]) = lengthBefore front + piece.length + 1 := by
      rw [← length_glue_concat, lengthBefore, if_neg (by simp)]
    have hzero : (lengthBefore front != 0) = !front.isEmpty := by
      rw [lengthBefore]
      cases front <;> simp
    rw [stepEnds, stepFronts, ← hbefore, ih, hzero]
    split
    · rfl
    · rw [List.map_cons, length_glue_concat]

/-- The beginning of a path that is as long as some of its first pieces consists of these. -/
private theorem upTo_glue {path : Path} {front rest : List Bytes}
    (hpieces : pieces path.bytes = front ++ rest) (hne : front ≠ []) :
    path.upTo (glue front).length = ⟨glue front⟩ := by
  have htext := glue_pieces path.bytes
  rw [upTo, ← htext, hpieces]
  by_cases hrest : rest = []
  · rw [hrest, List.append_nil, List.take_length]
  · rw [glue_append hne hrest, List.take_left]

private theorem pieces_upTo_glue {path : Path} {front rest : List Bytes}
    (hpieces : pieces path.bytes = front ++ rest) (hne : front ≠ []) :
    pieces (path.upTo (glue front).length).bytes = front := by
  have hslash := slash_not_mem_pieces path.bytes
  rw [hpieces, List.forall_mem_append] at hslash
  rw [upTo_glue hpieces hne, pieces_glue hslash.1 hne]

/-! ### The way down -/

/-- The moves of the first of some beginnings of a path, if there is one. -/
def movesUpTo (path : Path) : List Nat → List FileName
  | [] => []
  | length :: _ => (path.upTo length).moves

/-- The beginnings of a path that have the given lengths lead down to the first of them, each by
one move more than the next: into an entry, or to the directory above. The last of them may also
stay where the path starts, as a single `.` or the slash of an absolute path. -/
inductive Descends (path : Path) : List Nat → Prop
  | nil : Descends path []
  | stay {length : Nat} (hpos : 0 < length) (hmoves : (path.upTo length).moves = [])
      (hname : (path.upTo length).lastName? = none) : Descends path [length]
  | enter {length : Nat} {above : List Nat} {name : FileName} (hpos : 0 < length)
      (hlonger : ∀ other ∈ above, other ≤ length)
      (hmoves : (path.upTo length).moves = path.movesUpTo above ++ [name])
      (hname : (path.upTo length).lastName? = some name) (habove : Descends path above) :
      Descends path (length :: above)
  | back {length : Nat} {above : List Nat} (hpos : 0 < length)
      (hlonger : ∀ other ∈ above, other ≤ length)
      (hmoves : (path.upTo length).moves = path.movesUpTo above ++ [up])
      (hname : (path.upTo length).lastName? = none) (habove : Descends path above) :
      Descends path (length :: above)

/-- The directories above lie one in another as well. -/
theorem Descends.above {path : Path} {length : Nat} {above : List Nat}
    (h : Descends path (length :: above)) : Descends path above := by
  cases h with
  | stay => exact .nil
  | enter _ _ _ _ habove => exact habove
  | back _ _ _ _ habove => exact habove

/-- Each beginning has at least one byte. -/
theorem Descends.pos_of_mem {path : Path} {ends : List Nat} (h : Descends path ends) :
    ∀ length ∈ ends, 0 < length := by
  induction h with
  | nil => simp
  | stay hpos => simpa using hpos
  | enter hpos _ _ _ _ ih => exact List.forall_mem_cons.2 ⟨hpos, ih⟩
  | back hpos _ _ _ _ ih => exact List.forall_mem_cons.2 ⟨hpos, ih⟩

/-- A beginning that ends in a name leads to it from the one before. -/
private theorem Descends.moves_upTo {path : Path} {length : Nat} {above : List Nat}
    {name : FileName}
    (h : Descends path (length :: above)) (hname : (path.upTo length).lastName? = some name) :
    (path.upTo length).moves = path.movesUpTo above ++ [name] := by
  cases h with
  | stay _ _ hnone => exact nomatch hnone.symm.trans hname
  | enter _ _ hmoves hname' _ => rw [hmoves, Option.some.inj (hname'.symm.trans hname)]
  | back _ _ _ hnone _ => exact nomatch hnone.symm.trans hname

private theorem lastName?_eq (path : Path) : path.lastName? =
    (stepsOf (pieces path.bytes)).getLast?.filter fun step => step != here && step != up :=
  rfl

/-- One piece more, which is a step, leads down by one move. -/
private theorem Descends.concat {path : Path} {front rest : List Bytes} {piece : Bytes}
    {above : List Nat} (h : Descends path above)
    (hpieces : pieces path.bytes = front ++ piece :: rest)
    (hmoves : path.movesUpTo above = movesOf front)
    (hlonger : ∀ other ∈ above, other ≤ lengthBefore front)
    (hpiece : piece ≠ []) (hfirst : piece = here → above = []) :
    Descends path ((glue (front ++ [piece])).length :: above) := by
  have hsplit : pieces path.bytes = (front ++ [piece]) ++ rest := by
    rw [hpieces, List.append_assoc, List.singleton_append]
  have hupTo := pieces_upTo_glue hsplit (by simp)
  have hstep : stepsOf [piece] = [piece] := by
    simp [stepsOf, hpiece]
  have hlength := length_glue_concat front piece
  have hpos : 0 < piece.length := List.length_pos_of_ne_nil hpiece
  have hlonger' : ∀ other ∈ above, other ≤ (glue (front ++ [piece])).length := by
    intro other hmem
    have hother := hlonger other hmem
    omega
  have hlast : (path.upTo (glue (front ++ [piece])).length).lastName? =
      (some piece).filter fun step => step != here && step != up := by
    rw [lastName?_eq, hupTo, stepsOf_append, hstep, List.getLast?_concat]
  have hall : (path.upTo (glue (front ++ [piece])).length).moves =
      path.movesUpTo above ++ movesOf [piece] := by
    rw [moves_eq, hupTo, movesOf_append, hmoves]
  rw [movesOf, hstep] at hall
  -- the piece stays, leads up, or is a name
  by_cases hhere : piece = here
  · obtain rfl := hfirst hhere
    refine .stay (by omega) ?_ ?_
    · rw [hall, hhere]
      rfl
    · rw [hlast, hhere]
      rfl
  · by_cases habove : piece = up
    · refine .back (by omega) hlonger' ?_ ?_ h
      · rw [hall, habove]
        rfl
      · rw [hlast, habove]
        rfl
    · refine @Descends.enter path _ above piece (by omega) hlonger' ?_ ?_ h
      · rw [hall, List.filter_cons, if_pos (by simpa using hhere)]
        rfl
      · rw [hlast, Option.filter_some, if_pos (by simpa using ⟨hhere, habove⟩)]

/-- All beginnings that end with a step lead down to the last of them. -/
private theorem Descends.stepFronts {path : Path} {front rest : List Bytes} {above : List Nat}
    (h : Descends path above) (hpieces : pieces path.bytes = front ++ rest)
    (hmoves : path.movesUpTo above = movesOf front)
    (hlonger : ∀ other ∈ above, other ≤ lengthBefore front) (hfirst : front = [] → above = []) :
    Descends path (((Path.stepFronts front rest).map (glue · |>.length)).reverse ++ above) := by
  induction rest generalizing front above with
  | nil => exact h
  | cons piece rest ih =>
    have hsplit : pieces path.bytes = (front ++ [piece]) ++ rest := by
      rw [hpieces, List.append_assoc, List.singleton_append]
    have hbefore : lengthBefore (front ++ [piece]) = (glue (front ++ [piece])).length + 1 := by
      rw [lengthBefore, if_neg (by simp)]
    have hlength := length_glue_concat front piece
    have hlonger' : ∀ other ∈ above, other ≤ lengthBefore (front ++ [piece]) := by
      intro other hmem
      have hother := hlonger other hmem
      omega
    rw [Path.stepFronts]
    split
    case isTrue hskip =>
      -- an empty piece is no step, and a piece `.` makes no move
      refine ih h hsplit ?_ hlonger' (by simp)
      rw [movesOf_append, hmoves]
      rw [Bool.or_eq_true, Bool.and_eq_true, List.isEmpty_iff, beq_iff_eq] at hskip
      obtain rfl | ⟨rfl, -⟩ := hskip <;> exact (List.append_nil _).symm
    case isFalse hstep =>
      have hpiece : piece ≠ [] := by
        rintro rfl
        exact hstep rfl
      have hdot : piece = here → above = [] := by
        rintro rfl
        have hne : here ≠ [] := List.cons_ne_nil _ _
        refine hfirst (List.isEmpty_iff.1 ?_)
        simpa [hne] using hstep
      have hdown := h.concat hpieces hmoves hlonger hpiece hdot
      rw [List.map_cons, List.reverse_cons, List.append_assoc, List.singleton_append]
      refine ih hdown hsplit ?_ ?_ (by simp)
      · rw [movesUpTo, moves_eq, pieces_upTo_glue hsplit (by simp)]
      · intro other hmem
        obtain rfl | hmem := List.mem_cons.1 hmem
        · omega
        · exact hlonger' other hmem

private theorem upTo_one {path : Path} (h : path.isAbsolute = true) : path.upTo 1 = ⟨[slash]⟩ := by
  rw [isAbsolute, beq_iff_eq, List.head?_eq_some_iff] at h
  obtain ⟨rest, hrest⟩ := h
  rw [upTo, hrest]
  rfl

/-- Where the way down starts: at the slash of an absolute path. -/
private theorem descends_start (path : Path) :
    Descends path (if path.isAbsolute then [1] else []) := by
  cases habsolute : path.isAbsolute with
  | false => exact .nil
  | true =>
    have hslash := upTo_one habsolute
    refine .stay Nat.one_pos ?_ ?_
    · rw [hslash]
      rfl
    · rw [hslash]
      rfl

private theorem descends_stepEnds (path : Path) :
    Descends path ((stepEnds 0 (pieces path.bytes)).reverse ++
      if path.isAbsolute then [1] else []) := by
  have hstart := descends_start path
  cases habsolute : path.isAbsolute with
  | false =>
    rw [habsolute] at hstart
    have hends := stepEnds_eq [] (pieces path.bytes)
    rw [show lengthBefore [] = 0 from rfl] at hends
    rw [hends]
    exact hstart.stepFronts rfl rfl (by simp) fun _ => rfl
  | true =>
    have hslash := upTo_one habsolute
    rw [habsolute] at hstart
    rw [isAbsolute, beq_iff_eq, List.head?_eq_some_iff] at habsolute
    obtain ⟨rest, hrest⟩ := habsolute
    -- the piece before the slash is empty
    have hpieces : pieces path.bytes = [[]] ++ pieces rest := by
      rw [hrest]
      rfl
    have hends := stepEnds_eq [[]] (pieces rest)
    rw [show lengthBefore [[]] = 1 from rfl] at hends
    rw [hpieces, show stepEnds 0 ([[]] ++ pieces rest) = stepEnds 1 (pieces rest) from rfl, hends]
    refine hstart.stepFronts hpieces ?_ (by simp [lengthBefore, glue]) (by simp)
    rw [if_pos rfl, movesUpTo, hslash]
    rfl

/-- The directories on the way to a path lead down to the nearest one. -/
theorem descends_parentEnds (path : Path) : Descends path path.parentEnds := by
  have hdown := descends_stepEnds path
  rw [parentEnds]
  cases hends : (stepEnds 0 (pieces path.bytes)).reverse with
  | nil =>
    rw [hends] at hdown
    exact hdown
  | cons length above =>
    rw [hends, List.cons_append] at hdown
    exact hdown.above

private theorem stepFronts_concat (front rest : List Bytes) {piece : Bytes}
    (hpiece : piece ≠ []) (hhere : piece ≠ here) :
    stepFronts front (rest ++ [piece]) = stepFronts front rest ++ [front ++ rest ++ [piece]] := by
  induction rest generalizing front with
  | nil => simp [stepFronts, hpiece, hhere]
  | cons first rest ih =>
    rw [List.cons_append, stepFronts, stepFronts, ih]
    split <;> simp

/-- The name at the end of a path is its last piece, which is neither empty nor a dot. -/
theorem exists_pieces_of_lastName? {path : Path} {name : FileName}
    (hname : path.lastName? = some name) (hends : path.endsInSlash = false) :
    ∃ front, pieces path.bytes = front ++ [name] ∧ name ≠ [] ∧ name ≠ here := by
  obtain ⟨front, piece, hpieces⟩ : ∃ front piece, pieces path.bytes = front ++ [piece] :=
    ⟨_, _, (List.dropLast_append_getLast (pieces_ne_nil path.bytes)).symm⟩
  have hbytes := glue_pieces path.bytes
  rw [hpieces] at hbytes
  -- an empty last piece would be a slash at the end
  have hpiece : piece ≠ [] := by
    rintro rfl
    cases front with
    | nil =>
      rw [lastName?_eq, hpieces] at hname
      cases hname
    | cons first front =>
      rw [glue_append (List.cons_ne_nil _ _) (List.cons_ne_nil _ _)] at hbytes
      rw [endsInSlash, ← hbytes, show glue [[]] = [] from rfl, List.getLast?_concat] at hends
      exact absurd hends (by simp)
  have hstep : stepsOf [piece] = [piece] := by
    rw [stepsOf, List.filter_singleton, show (!piece.isEmpty) = true by simpa using hpiece]
    rfl
  rw [lastName?_eq, hpieces, stepsOf_append, hstep, List.getLast?_concat,
    Option.filter_eq_some_iff, Bool.and_eq_true, bne_iff_ne] at hname
  obtain rfl := Option.some.inj hname.1
  exact ⟨front, hpieces, hpiece, hname.2.1⟩

/-- A path that ends in a name leads to it by one move from the nearest directory. -/
theorem moves_eq_concat {path : Path} {name : FileName} (hname : path.lastName? = some name)
    (hends : path.endsInSlash = false) :
    path.moves = path.movesUpTo path.parentEnds ++ [name] := by
  have hdown := descends_stepEnds path
  obtain ⟨front, hpieces, hpiece, hhere⟩ := exists_pieces_of_lastName? hname hends
  have hall : path.upTo (glue (pieces path.bytes)).length = path := by
    rw [glue_pieces, upTo, List.take_length]
  -- so the longest of the beginnings is the path itself
  have hends := stepEnds_eq [] (pieces path.bytes)
  rw [hpieces, stepFronts_concat [] front hpiece hhere, List.nil_append, List.map_append, ← hpieces,
    show lengthBefore [] = 0 from rfl] at hends
  rw [hends, List.reverse_append, List.map_singleton, List.reverse_singleton,
    List.singleton_append, List.cons_append] at hdown
  have hparents : path.parentEnds = ((stepFronts [] front).map (glue · |>.length)).reverse ++
      if path.isAbsolute then [1] else [] := by
    rw [parentEnds, hends, List.reverse_append, List.map_singleton, List.reverse_singleton]
    rfl
  have hlast : (path.upTo (glue (pieces path.bytes)).length).lastName? = some name := by
    rw [hall, hname]
  rw [hparents, ← hdown.moves_upTo hlast, hall]

/-! ### Paths that can be used -/

/-- A beginning of a path starts where the path starts. -/
theorem isAbsolute_upTo (path : Path) {length : Nat} (hpos : 0 < length) :
    (path.upTo length).isAbsolute = path.isAbsolute := by
  rw [isAbsolute, isAbsolute, upTo, List.head?_take, if_neg (Nat.pos_iff_ne_zero.1 hpos)]

private theorem validate_eq_ok_iff {path : Path} : path.validate = .ok () ↔
    0 ∉ path.bytes ∧ path.bytes ≠ [] ∧ path.bytes.length ≤ maxPathBytes := by
  rw [validate]
  split
  case isTrue hzero =>
    rw [List.contains_iff_mem] at hzero
    simp [hzero]
  case isFalse hzero =>
    rw [List.contains_iff_mem] at hzero
    split
    case isTrue hempty =>
      rw [List.isEmpty_iff] at hempty
      simp [hempty]
    case isFalse hempty =>
      rw [List.isEmpty_iff] at hempty
      split
      case isTrue hlong => simp [Nat.not_le.2 hlong]
      case isFalse hshort => simp [hzero, hempty, Nat.not_lt.1 hshort]

/-- Only the empty path is not found for what it is. -/
private theorem validate_ne_notFound {path : Path} (h : path.bytes ≠ []) :
    path.validate ≠ .error .notFound := by
  rw [validate, List.isEmpty_eq_false_iff.2 h, if_neg Bool.false_ne_true]
  split
  · simp
  · split <;> simp

/-- A beginning of a path that can be used can be used, too. -/
theorem validate_upTo {path : Path} (h : path.validate = .ok ()) {length : Nat}
    (hpos : 0 < length) : (path.upTo length).validate = .ok () := by
  obtain ⟨hzero, hempty, hsize⟩ := validate_eq_ok_iff.1 h
  refine validate_eq_ok_iff.2 ⟨fun hmem => hzero (List.mem_of_mem_take hmem), ?_, ?_⟩
  · rw [upTo, ne_eq, List.take_eq_nil_iff, not_or]
    exact ⟨Nat.ne_of_gt hpos, hempty⟩
  · rw [upTo, List.length_take]
    omega

private theorem upTo_upTo (path : Path) {first second : Nat} (hle : second ≤ first) :
    (path.upTo first).upTo second = path.upTo second := by
  rw [upTo, upTo, upTo, List.take_take, Nat.min_eq_left hle]

/-- If a path can be used, then so can the path of the directory above it. -/
theorem Descends.validate_above {path : Path} {length : Nat} {above : List Nat}
    (h : Descends path (length :: above)) (hvalid : (path.upTo length).validate = .ok ()) :
    ∀ other ∈ above.head?, (path.upTo other).validate = .ok () := by
  intro other hother
  have hmem := List.mem_of_mem_head? hother
  have hlonger : other ≤ length := by
    cases h with
    | stay => exact absurd hmem List.not_mem_nil
    | enter _ hlonger _ _ _ => exact hlonger other hmem
    | back _ hlonger _ _ _ => exact hlonger other hmem
  rw [← upTo_upTo path hlonger]
  exact validate_upTo hvalid (h.above.pos_of_mem other hmem)

/-- Nothing is above the empty path. -/
theorem Descends.above_eq_nil {path : Path} {length : Nat} {above : List Nat}
    (h : Descends path (length :: above))
    (hrefused : (path.upTo length).validate = .error .notFound) : above = [] := by
  have hempty : (path.upTo length).moves = [] := by
    have hbytes : (path.upTo length).bytes = [] := by
      by_contra hne
      exact validate_ne_notFound hne hrefused
    rw [moves_eq, hbytes]
    rfl
  cases h with
  | stay => rfl
  | enter _ _ hmoves _ _ => simp [hempty] at hmoves
  | back _ _ hmoves _ _ => simp [hempty] at hmoves

end Path

end ClassStub
