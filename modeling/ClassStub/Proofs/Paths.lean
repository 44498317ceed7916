import Mathlib.Data.List.Basic
import ClassStub.Files.Disk

/-!
# The steps of a path

A path is read as a list of moves: from a directory into one of its entries, or with `..` to the
directory above (`Path.moves`). Here it is shown how paths are put together and taken apart in terms
of moves.

The moves of a path that leads on from a directory are those of the directory and then those behind
it (`Path.moves_join`). Taking the directory off again leaves what was joined to it
(`Path.stripPrefix?_join`). A path that ends in a name leads to it from the directory to which the
other moves lead (`Path.front`).
-/

namespace ClassStub

open FileName

/-- A name that an entry of a directory may have. -/
structure IsFileName (name : FileName) : Prop where
  ne_empty : name ≠ []
  ne_here : name ≠ here
  ne_up : name ≠ up
  no_slash : slash ∉ name

instance (name : FileName) : Decidable (IsFileName name) :=
  decidable_of_iff (name ≠ [] ∧ name ≠ here ∧ name ≠ up ∧ slash ∉ name)
    ⟨fun ⟨hempty, hhere, hup, hslash⟩ => ⟨hempty, hhere, hup, hslash⟩,
    fun h => ⟨h.ne_empty, h.ne_here, h.ne_up, h.no_slash⟩⟩

namespace Path

/-! ### Pieces -/

/-- The bytes with slashes between some pieces. -/
def glue (front : List Bytes) : Bytes := [slash].intercalate front

/-- A slash separates the pieces in front of it from those behind it. -/
theorem pieces_append_slash (first second : Bytes) :
    pieces (first ++ slash :: second) = pieces first ++ pieces second :=
  List.splitOn_append_cons_self first second

/-- Even the empty path has a piece, which is empty. -/
theorem pieces_ne_nil (bytes : Bytes) : pieces bytes ≠ [] := List.splitOn_ne_nil slash bytes

/-- Nothing is lost when bytes are cut into pieces. -/
theorem glue_pieces (bytes : Bytes) : glue (pieces bytes) = bytes := List.intercalate_splitOn slash

/-- Pieces without slashes are the pieces of what they are joined to. -/
theorem pieces_glue {front : List Bytes} (hslash : ∀ piece ∈ front, slash ∉ piece)
    (hne : front ≠ []) : pieces (glue front) = front := List.splitOn_intercalate slash hslash hne

/-- A name is a single piece. -/
theorem pieces_of_no_slash {name : Bytes} (h : slash ∉ name) : pieces name = [name] := by
  have hpieces : pieces (glue [name]) = [name] := pieces_glue (by simpa using h) (by simp)
  rwa [glue, List.intercalate_singleton] at hpieces

/-- The first byte of a path starts a piece unless it is a slash. -/
private theorem exists_pieces_cons {byte : UInt8} (h : byte ≠ slash) (rest : Bytes) :
    ∃ piece others, pieces rest = piece :: others ∧
      pieces (byte :: rest) = (byte :: piece) :: others := by
  obtain ⟨piece, others, hpieces⟩ := List.exists_cons_of_ne_nil (pieces_ne_nil rest)
  refine ⟨piece, others, hpieces, ?_⟩
  rw [pieces] at hpieces
  rw [pieces, List.splitOn_cons_eq_if_modifyHead, if_neg (by simpa using h), hpieces]
  rfl

/-- No piece contains a slash. -/
theorem slash_not_mem_pieces (bytes : Bytes) : ∀ piece ∈ pieces bytes, slash ∉ piece := by
  induction bytes with
  | nil => simp [pieces]
  | cons byte rest ih =>
    by_cases hslash : byte = slash
    · rw [hslash]
      exact List.forall_mem_cons.2 ⟨List.not_mem_nil, ih⟩
    · obtain ⟨piece, others, hrest, hpieces⟩ := exists_pieces_cons hslash rest
      rw [hrest, List.forall_mem_cons] at ih
      rw [hpieces, List.forall_mem_cons, List.mem_cons, not_or]
      exact ⟨⟨Ne.symm hslash, ih.1⟩, ih.2⟩

/-- The steps that pieces stand for. -/
def stepsOf (front : List Bytes) : List FileName := front.filter (!·.isEmpty)

/-- The moves that pieces stand for. -/
def movesOf (front : List Bytes) : List FileName := (stepsOf front).filter (· != here)

theorem steps_eq (path : Path) : path.steps = stepsOf (pieces path.bytes) := rfl

theorem moves_eq (path : Path) : path.moves = movesOf (pieces path.bytes) := rfl

/-- Steps are found piece by piece. -/
theorem stepsOf_append (first second : List Bytes) :
    stepsOf (first ++ second) = stepsOf first ++ stepsOf second := List.filter_append ..

/-- Moves are found piece by piece. -/
theorem movesOf_append (first second : List Bytes) :
    movesOf (first ++ second) = movesOf first ++ movesOf second := by
  rw [movesOf, stepsOf_append, List.filter_append, movesOf, movesOf]

private theorem movesOf_singleton (piece : Bytes) :
    movesOf [piece] = if isIdle piece then [] else [piece] := by
  rw [movesOf, stepsOf, isIdle]
  cases hempty : piece.isEmpty <;> cases hhere : piece == here <;> simp [hempty, hhere, bne]

/-! ### Joined paths -/

/-- The bytes of a path as far as a name behind it. -/
def leadIn (path : Path) : Bytes :=
  if path.bytes.isEmpty || path.endsInSlash then path.bytes else path.bytes ++ [slash]

private theorem bytes_join (path : Path) {relative : Path}
    (hrelative : relative.isAbsolute = false) :
    (path.join relative).bytes = path.leadIn ++ relative.bytes := by
  rw [join, if_neg (by rw [hrelative]; exact Bool.false_ne_true), leadIn]
  split
  · rfl
  · rw [List.append_assoc, List.singleton_append]

/-- A slash at the end of a path makes an empty piece, which is no step. -/
private theorem exists_pieces_leadIn (path : Path) :
    ∃ front, (∀ relative, pieces (path.leadIn ++ relative) = front ++ pieces relative) ∧
      stepsOf front = path.steps := by
  rw [leadIn, steps_eq]
  by_cases hempty : path.bytes = []
  · refine ⟨[], fun relative => ?_, by rw [hempty]; rfl⟩
    rw [hempty, if_pos (by simp)]
    rfl
  · rw [List.isEmpty_eq_false_iff.2 hempty, Bool.false_or]
    cases hends : path.endsInSlash with
    | true =>
      rw [endsInSlash, beq_iff_eq, List.getLast?_eq_some_iff] at hends
      obtain ⟨front, hfront⟩ := hends
      refine ⟨pieces front, fun relative => ?_, ?_⟩
      · rw [if_pos rfl, hfront, List.append_assoc, List.singleton_append, pieces_append_slash]
      · rw [hfront, pieces_append_slash, stepsOf_append]
        exact (List.append_nil _).symm
    | false =>
      refine ⟨pieces path.bytes, fun relative => ?_, rfl⟩
      rw [if_neg Bool.false_ne_true, List.append_assoc, List.singleton_append, pieces_append_slash]

private theorem steps_join (path : Path) {relative : Path}
    (hrelative : relative.isAbsolute = false) :
    (path.join relative).steps = path.steps ++ relative.steps := by
  obtain ⟨front, hpieces, hfront⟩ := exists_pieces_leadIn path
  rw [steps_eq, bytes_join path hrelative, hpieces, stepsOf_append, hfront, ← steps_eq]

/-- The moves of a joined path are those of its parts. -/
theorem moves_join (path : Path) {relative : Path} (hrelative : relative.isAbsolute = false) :
    (path.join relative).moves = path.moves ++ relative.moves := by
  rw [moves, steps_join path hrelative, List.filter_append, moves, moves]

/-- A joined path starts where its first part starts. -/
theorem isAbsolute_join (path : Path) {relative : Path} (hrelative : relative.isAbsolute = false) :
    (path.join relative).isAbsolute = path.isAbsolute := by
  have hhead : relative.bytes.head? ≠ some slash := by simpa [isAbsolute] using hrelative
  rw [isAbsolute, isAbsolute, bytes_join path hrelative, leadIn]
  by_cases hempty : path.bytes = []
  · simp [hempty, hhead]
  · obtain ⟨byte, rest, hrest⟩ := List.exists_cons_of_ne_nil hempty
    split <;> simp [hrest]

/-! ### Names -/

section Names

variable {names : List FileName} (hnames : ∀ name ∈ names, IsFileName name)

include hnames

private theorem pieces_ofNames (hne : names ≠ []) : pieces (ofNames names).bytes = names :=
  pieces_glue (fun name hmem => (hnames name hmem).no_slash) hne

private theorem stepsOf_names : stepsOf names = names :=
  List.filter_eq_self.2 fun name hmem => by simpa using (hnames name hmem).ne_empty

private theorem movesOf_names : movesOf names = names := by
  rw [movesOf, stepsOf_names hnames]
  exact List.filter_eq_self.2 fun name hmem => by simpa using (hnames name hmem).ne_here

private theorem steps_ofNames : (ofNames names).steps = names := by
  by_cases hne : names = []
  · rw [hne]
    rfl
  · rw [steps_eq, pieces_ofNames hnames hne, stepsOf_names hnames]

private theorem moves_ofNames : (ofNames names).moves = names := by
  by_cases hne : names = []
  · rw [hne]
    rfl
  · rw [moves_eq, pieces_ofNames hnames hne, movesOf_names hnames]

/-- Names start with something else than a slash. -/
theorem isAbsolute_ofNames : (ofNames names).isAbsolute = false := by
  by_cases hne : names = []
  · rw [hne]
    rfl
  · rw [Bool.eq_false_iff, isAbsolute, ne_eq, beq_iff_eq, List.head?_eq_some_iff]
    rintro ⟨rest, hrest⟩
    have hpieces := pieces_ofNames hnames hne
    rw [hrest, show slash :: rest = [] ++ slash :: rest from rfl, pieces_append_slash] at hpieces
    have hmem : ([] : FileName) ∈ names := by
      rw [← hpieces]
      exact List.mem_append_left _ List.mem_cons_self
    exact (hnames [] hmem).ne_empty rfl

/-- The names behind a directory are moves. -/
theorem moves_join_ofNames (path : Path) :
    (path.join (ofNames names)).moves = path.moves ++ names := by
  rw [moves_join path (isAbsolute_ofNames hnames), moves_ofNames hnames]

section Nonempty

variable (hne : names ≠ [])

include hne

/-- A path ends in the last of the names behind a directory. -/
theorem lastName?_join_ofNames (path : Path) :
    (path.join (ofNames names)).lastName? = names.getLast? := by
  have hname := hnames _ (List.getLast_mem hne)
  rw [lastName?, steps_join path (isAbsolute_ofNames hnames), steps_ofNames hnames,
    List.getLast?_append, List.getLast?_eq_some_getLast hne, Option.some_or, Option.filter_some,
    if_pos]
  simpa using ⟨hname.ne_here, hname.ne_up⟩

/-- Names end with something else than a slash. -/
theorem endsInSlash_join_ofNames (path : Path) :
    (path.join (ofNames names)).endsInSlash = false := by
  rw [Bool.eq_false_iff, endsInSlash, ne_eq, beq_iff_eq, List.getLast?_eq_some_iff,
    bytes_join path (isAbsolute_ofNames hnames)]
  rintro ⟨end_, hend⟩
  -- the piece behind a slash at the end would be the last name
  obtain ⟨front, hpieces, -⟩ := exists_pieces_leadIn path
  have hlast := congrArg List.getLast? (hpieces (ofNames names).bytes)
  rw [hend, pieces_append_slash, pieces_ofNames hnames hne, List.getLast?_append,
    List.getLast?_append, List.getLast?_eq_some_getLast hne] at hlast
  exact (hnames _ (List.getLast_mem hne)).ne_empty (Option.some.inj hlast).symm

end Nonempty

end Names

/-! ### Places below a directory -/

/-- A slash stands between a name and what is behind it. -/
private theorem leadIn_join_name (path : Path) {name : FileName} (hname : IsFileName name) :
    (path.join ⟨name⟩).leadIn = path.leadIn ++ (name ++ [slash]) := by
  have hnames : ∀ other ∈ [name], IsFileName other := List.forall_mem_singleton.2 hname
  have hsingle : ofNames [name] = ⟨name⟩ := congrArg Path.mk (List.intercalate_singleton ..)
  have hbytes := bytes_join path (isAbsolute_ofNames hnames)
  have hends := endsInSlash_join_ofNames hnames (List.cons_ne_nil _ _) path
  rw [hsingle] at hbytes hends
  have hnot : (path.join ⟨name⟩).bytes ≠ [] := by
    rw [hbytes]
    exact List.append_ne_nil_of_right_ne_nil _ hname.ne_empty
  rw [leadIn, List.isEmpty_eq_false_iff.2 hnot, hends, if_neg (by simp), hbytes, List.append_assoc]

/-- Joining one name after another is joining all of them. -/
theorem below_eq_join (path : Path) {names : List FileName} (hne : names ≠ [])
    (hnames : ∀ name ∈ names, IsFileName name) : path.below names = path.join (ofNames names) := by
  induction names generalizing path with
  | nil => exact absurd rfl hne
  | cons name names ih =>
    have hbelow : path.below (name :: names) = (path.join ⟨name⟩).below names := rfl
    have hall := isAbsolute_ofNames hnames
    rw [List.forall_mem_cons] at hnames
    by_cases hlast : names = []
    · rw [hlast]
      exact congrArg (fun bytes => path.join ⟨bytes⟩) (List.intercalate_singleton ..).symm
    · obtain ⟨next, others, rfl⟩ := List.exists_cons_of_ne_nil hlast
      have hrest := isAbsolute_ofNames hnames.2
      have hglue : (ofNames (name :: next :: others)).bytes =
          name ++ [slash] ++ (ofNames (next :: others)).bytes := List.intercalate_cons_cons ..
      rw [hbelow, ih _ hlast hnames.2]
      refine congrArg Path.mk (?_ : (Path.join _ _).bytes = (Path.join _ _).bytes)
      rw [bytes_join _ hrest, bytes_join _ hall, leadIn_join_name path hnames.1, hglue]
      simp only [List.append_assoc]

/-! ### Taking a directory off -/

private theorem components_join (path : Path) {names : List FileName}
    (hnames : ∀ name ∈ names, IsFileName name) :
    (path.join (ofNames names)).components = path.components ++ names := by
  have hrelative := isAbsolute_ofNames hnames
  rw [components, components, isAbsolute_join path hrelative, moves_join_ofNames hnames,
    steps_join path hrelative, steps_ofNames hnames, ← List.append_assoc]
  congr 2
  cases path.isAbsolute with
  | true => rfl
  | false =>
    cases path.steps with
    | cons step steps => rfl
    | nil =>
      cases names with
      | nil => rfl
      | cons name names =>
        have hhere := (hnames name List.mem_cons_self).ne_here
        simp [hhere]

/-- Only the empty path has no components. -/
private theorem bytes_eq_nil_of_components {path : Path} (h : path.components = []) :
    path.bytes = [] := by
  obtain ⟨hstart, hmoves⟩ := List.append_eq_nil_iff.1 h
  by_contra hne
  obtain ⟨byte, rest, hrest⟩ := List.exists_cons_of_ne_nil hne
  have hslash : byte ≠ slash := by
    rintro rfl
    rw [isAbsolute, hrest, if_pos (by simp)] at hstart
    exact List.cons_ne_nil _ _ hstart
  rw [isAbsolute, hrest, if_neg (by simpa using hslash)] at hstart
  -- the path starts with a step, which is a move or the step `.`
  obtain ⟨piece, others, -, hpieces⟩ := exists_pieces_cons hslash rest
  have hsteps : path.steps = (byte :: piece) :: stepsOf others := by
    rw [steps_eq, hrest, hpieces]
    rfl
  rw [moves, hsteps] at hmoves
  rw [hsteps] at hstart
  by_cases hhere : byte :: piece = here
  · simp [hhere] at hstart
  · simp [hhere] at hmoves

/-- Behind some moves, idle pieces may be left before the next move. -/
private theorem exists_dropMoves (front rest : List Bytes) :
    ∃ idle, (∀ piece ∈ idle, isIdle piece = true) ∧
      dropMoves (movesOf front).length (front ++ rest) = idle ++ rest := by
  induction front with
  | nil => exact ⟨[], by simp, by simp [movesOf, stepsOf, dropMoves]⟩
  | cons piece front ih =>
    have hmoves : movesOf (piece :: front) = movesOf [piece] ++ movesOf front :=
      movesOf_append [piece] front
    obtain ⟨idle, hidle, hdrop⟩ := ih
    rw [hmoves, movesOf_singleton]
    cases hpiece : isIdle piece with
    | false => exact ⟨idle, hidle, by simpa [dropMoves, hpiece] using hdrop⟩
    | true =>
      cases hlength : (movesOf front).length with
      | zero =>
        -- the first piece stays where it is
        rw [hlength, dropMoves] at hdrop
        refine ⟨piece :: idle, List.forall_mem_cons.2 ⟨hpiece, hidle⟩, ?_⟩
        rw [if_pos rfl, List.nil_append, hlength, dropMoves, List.cons_append, hdrop,
          List.cons_append]
      | succ n =>
        rw [hlength] at hdrop
        refine ⟨idle, hidle, ?_⟩
        rw [if_pos rfl, List.nil_append, hlength, List.cons_append, dropMoves, if_pos hpiece, hdrop]

private theorem dropWhile_isIdle {idle names : List FileName}
    (hidle : ∀ piece ∈ idle, isIdle piece = true) (hnames : ∀ name ∈ names, IsFileName name) :
    (idle ++ names).dropWhile isIdle = names := by
  rw [List.dropWhile_append_of_pos hidle]
  cases names with
  | nil => rfl
  | cons name names =>
    have hname := hnames name List.mem_cons_self
    exact List.dropWhile_cons_of_neg (by simp [isIdle, hname.ne_empty, hname.ne_here])

/-- **What was joined to a directory is left when the directory is taken off.** -/
theorem stripPrefix?_join (path : Path) {names : List FileName}
    (hnames : ∀ name ∈ names, IsFileName name) (hne : names ≠ []) :
    (path.join (ofNames names)).stripPrefix? path = some (ofNames names) := by
  have hrelative := isAbsolute_ofNames hnames
  rw [stripPrefix?]
  by_cases hempty : path.components = []
  · -- a path without components is empty, and nothing is taken off
    have hbytes := bytes_eq_nil_of_components hempty
    rw [if_pos (List.isEmpty_iff.2 hempty), join, hrelative, if_neg Bool.false_ne_true, hbytes,
      if_pos (by simp), List.nil_append]
  · have hbeginning : path.components.isPrefixOf (path.join (ofNames names)).components = true := by
      rw [components_join path hnames, List.isPrefixOf_iff_prefix]
      exact List.prefix_append _ _
    rw [if_neg (by simpa using hempty), if_pos hbeginning]
    obtain ⟨front, hpieces, hfront⟩ := exists_pieces_leadIn path
    have hmoves : path.moves = movesOf front := by
      rw [moves, ← hfront, movesOf]
    obtain ⟨idle, hidle, hdrop⟩ := exists_dropMoves front names
    rw [bytes_join path hrelative, hpieces, pieces_ofNames hnames hne, hmoves, hdrop]
    -- nothing of the names is idle, so nothing is trimmed at either end
    have hreverse : ∀ name ∈ names.reverse, IsFileName name := fun name hmem =>
      hnames name (List.mem_reverse.1 hmem)
    have hback : names.reverse.dropWhile isIdle = names.reverse :=
      @dropWhile_isIdle [] _ (by simp) hreverse
    rw [dropWhile_isIdle hidle hnames]
    dsimp only
    rw [hback, List.reverse_reverse]

/-! ### The last name of a path -/

/-- The moves of a path without its last name. -/
def front (path : Path) : List FileName :=
  (if path.lastName?.isSome then path.steps.dropLast else path.steps).filter (· != here)

/-- The moves of a path are those in front of its last name, and this name. -/
theorem moves_eq_front_append (path : Path) : path.moves = path.front ++ path.lastName?.toList := by
  rw [front]
  cases hname : path.lastName? with
  | none => exact (List.append_nil _).symm
  | some name =>
    rw [lastName?, Option.filter_eq_some_iff, List.getLast?_eq_some_iff] at hname
    obtain ⟨⟨above, hsteps⟩, hstep⟩ := hname
    rw [Bool.and_eq_true] at hstep
    rw [Option.isSome_some, if_pos rfl, moves, hsteps, List.dropLast_concat, List.filter_append,
      List.filter_singleton, hstep.1]
    rfl

/-- The moves in front of the last name are found by taking it off. -/
theorem front_eq_of_moves {path : Path} {before : List FileName} {name : FileName}
    (hname : path.lastName? = some name) (hmoves : path.moves = before ++ [name]) :
    path.front = before := by
  rw [moves_eq_front_append, hname] at hmoves
  exact List.append_cancel_right hmoves

/-- A path that does not end in a name has all its moves in front. -/
theorem front_eq_moves {path : Path} (hname : path.lastName? = none) : path.front = path.moves := by
  rw [moves_eq_front_append path, hname]
  exact (List.append_nil _).symm

/-- A last name is not the step `..`. -/
theorem ne_up_of_lastName? {path : Path} {name : FileName} (hname : path.lastName? = some name) :
    name ≠ up := by
  rw [lastName?, Option.filter_eq_some_iff, Bool.and_eq_true, bne_iff_ne] at hname
  exact bne_iff_ne.1 hname.2.2

end Path

end ClassStub
