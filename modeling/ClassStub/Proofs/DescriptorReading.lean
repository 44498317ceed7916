import Mathlib.Data.List.TakeWhile
import ClassStub.Descriptor

/-!
# Reading what was written

Each reader of the parts of a method descriptor takes back what the writer of this part puts in
front of any characters, and takes nothing else. A part is read without looking behind it: a
bracket or a letter tells what follows, and the name of a class ends at the first semicolon. So
the readers are described by equivalences that leave open what comes next (`read?_eq_some_iff` and
the like), and a text is the descriptor that it spells if and only if the descriptor is written as
this text (`MethodDescriptor.ofString?_eq_some_iff`).

Of the written forms only those can be read in which no class name is empty or holds a semicolon.
-/

namespace ClassStub

/-- Characters are cut at the first one that fails a test. -/
private theorem takeWhile_dropWhile_append_cons {p : Char → Bool} {front : List Char}
    (hfront : ∀ c ∈ front, p c = true) {stop : Char} (hstop : ¬p stop = true) (back : List Char) :
    (front ++ stop :: back).takeWhile p = front ∧
      (front ++ stop :: back).dropWhile p = stop :: back := by
  constructor
  · rw [List.takeWhile_append_of_pos hfront, List.takeWhile_cons_of_neg hstop, List.append_nil]
  · rw [List.dropWhile_append_of_pos hfront, List.dropWhile_cons_of_neg hstop]

/-! ### Element types -/

/-- The name of a class, if the type is one, can be told from what follows it. -/
def ElementType.IsProper : ElementType → Prop
  | object name => name ≠ [] ∧ ';' ∉ name
  | _ => True

namespace ElementType

variable {chars rest : List Char} {type : ElementType}

/-- The name of a class is read up to its semicolon. -/
private theorem read?_object {name : List Char} (hne : name ≠ []) (hname : ';' ∉ name) :
    read? ('L' :: (name ++ ';' :: rest)) = some (object name, rest) := by
  have hinside : ∀ c ∈ name, (c != ';') = true := by
    intro c hmem
    refine bne_iff_ne.2 ?_
    rintro rfl
    exact hname hmem
  have hsemicolon : ¬(';' != ';') = true := by decide
  obtain ⟨htake, hdrop⟩ := takeWhile_dropWhile_append_cons hinside hsemicolon rest
  obtain ⟨c, name, rfl⟩ := List.exists_cons_of_ne_nil hne
  rw [read?, htake, hdrop]

/-- An element type is read back from its letters, whatever follows. -/
theorem read?_toChars_append (h : type.IsProper) (rest : List Char) :
    read? (type.toChars ++ rest) = some (type, rest) := by
  cases type with
  | object name =>
    have hchars : (object name).toChars ++ rest = 'L' :: (name ++ ';' :: rest) := by
      simp [toChars]
    rw [hchars, read?_object h.1 h.2]
  | _ => rfl

/-- What was read is what is written, and it stood in front of the rest. -/
private theorem eq_of_read? (h : read? chars = some (type, rest)) :
    type.IsProper ∧ chars = type.toChars ++ rest := by
  unfold read? at h
  split at h
  case h_9 chars =>
    split at h
    case h_1 c name other rest' htake hdrop =>
      simp only [Option.some.injEq, Prod.mk.injEq] at h
      obtain ⟨rfl, rfl⟩ := h
      have hsplit := List.takeWhile_append_dropWhile (p := (· != ';')) (l := chars)
      have hstop := List.head?_dropWhile_not (· != ';') chars
      have hinside : ∀ d ∈ c :: name, (d != ';') = true := by
        rw [← htake]
        exact fun d hmem => List.mem_takeWhile_imp (p := (· != ';')) hmem
      rw [htake, hdrop] at hsplit
      rw [hdrop] at hstop
      obtain rfl : other = ';' := by simpa using hstop
      refine ⟨⟨List.cons_ne_nil c name, fun hmem => ?_⟩, ?_⟩
      · exact absurd (hinside ';' hmem) (by decide)
      · rw [← hsplit]
        simp [toChars]
    case h_2 => exact nomatch h
  case h_10 => exact nomatch h
  all_goals
    simp only [Option.some.injEq, Prod.mk.injEq] at h
    obtain ⟨rfl, rfl⟩ := h
    exact ⟨trivial, rfl⟩

/-- An element type is read from its letters, and only from those. -/
theorem read?_eq_some_iff :
    read? chars = some (type, rest) ↔ type.IsProper ∧ chars = type.toChars ++ rest := by
  constructor
  · exact eq_of_read?
  · rintro ⟨hproper, rfl⟩
    exact read?_toChars_append hproper rest

/-- An element type starts with a letter, which ends the brackets in front of it. -/
private theorem exists_toChars_eq_cons (type : ElementType) :
    ∃ c back, type.toChars = c :: back ∧ c ≠ '[' ∧ c ≠ ')' := by
  cases type with
  | object name => exact ⟨'L', name ++ [';'], rfl, by decide, by decide⟩
  | _ => exact ⟨_, [], rfl, by decide, by decide⟩

end ElementType

/-! ### Types -/

/-- The element type can be read. -/
def FieldType.IsProper (type : FieldType) : Prop := type.element.IsProper

namespace FieldType

variable {chars rest : List Char} {type : FieldType} {types before : List FieldType}

/-- A field type is read back from its letters, whatever follows. -/
theorem read?_toChars_append (h : type.IsProper) (rest : List Char) :
    read? (type.toChars ++ rest) = some (type, rest) := by
  obtain ⟨dimensions, element⟩ := type
  obtain ⟨c, back, hchars, hbracket, -⟩ := element.exists_toChars_eq_cons
  have hbrackets : ∀ d ∈ List.replicate dimensions '[', (d == '[') = true := by
    intro d hmem
    rw [List.eq_of_mem_replicate hmem]
    rfl
  have hletter : ¬(c == '[') = true := by
    rw [beq_iff_eq]
    exact hbracket
  obtain ⟨htake, hdrop⟩ := takeWhile_dropWhile_append_cons hbrackets hletter (back ++ rest)
  rw [← List.cons_append, ← hchars] at htake hdrop
  rw [toChars, List.append_assoc, read?, htake, hdrop, ElementType.read?_toChars_append h,
    Option.map_some, List.length_replicate]

private theorem eq_of_read? (h : read? chars = some (type, rest)) :
    type.IsProper ∧ chars = type.toChars ++ rest := by
  rw [read?, Option.map_eq_some_iff] at h
  obtain ⟨⟨element, rest'⟩, helement, heq⟩ := h
  rw [Prod.mk.injEq] at heq
  obtain ⟨rfl, rfl⟩ := heq
  obtain ⟨hproper, hdrop⟩ := ElementType.read?_eq_some_iff.1 helement
  refine ⟨hproper, ?_⟩
  have hbrackets : chars.takeWhile (· == '[') =
      List.replicate (chars.takeWhile (· == '[')).length '[' := by
    refine List.eq_replicate_iff.2 ⟨rfl, fun c hmem => beq_iff_eq.1 ?_⟩
    exact List.mem_takeWhile_imp (p := (· == '[')) hmem
  rw [toChars, List.append_assoc, ← hbrackets, ← hdrop, List.takeWhile_append_dropWhile]

/-- A field type is read from its letters, and only from those. -/
theorem read?_eq_some_iff :
    read? chars = some (type, rest) ↔ type.IsProper ∧ chars = type.toChars ++ rest := by
  constructor
  · exact eq_of_read?
  · rintro ⟨hproper, rfl⟩
    exact read?_toChars_append hproper rest

/-- No type starts with a closing parenthesis. -/
private theorem toChars_append_ne (type : FieldType) (rest back : List Char) :
    type.toChars ++ rest ≠ ')' :: back := by
  obtain ⟨_ | dimensions, element⟩ := type
  · obtain ⟨c, front, hchars, -, hparenthesis⟩ := element.exists_toChars_eq_cons
    rw [toChars, hchars]
    simp [hparenthesis]
  · simp [toChars, List.replicate_succ]

/-- One type is read behind the others. -/
private theorem readListOnto_toChars_append (h : type.IsProper) (before : List FieldType)
    (rest : List Char) :
    readListOnto before (type.toChars ++ rest) = readListOnto (type :: before) rest := by
  rw [readListOnto.eq_def]
  split
  case h_1 back heq => exact absurd heq (type.toChars_append_ne rest back)
  case h_2 =>
    have hread := read?_toChars_append h rest
    split
    case h_1 type' rest' hread' =>
      obtain ⟨rfl, rfl⟩ := Prod.mk.inj (Option.some.inj (hread.symm.trans hread'))
      rfl
    case h_2 hread' => cases hread.symm.trans hread'

private theorem readListOnto_flatMap_append (h : ∀ type ∈ types, type.IsProper)
    (before : List FieldType) (rest : List Char) :
    readListOnto before (types.flatMap toChars ++ ')' :: rest) =
      some (before.reverse ++ types, rest) := by
  induction types generalizing before with
  | nil => simp [readListOnto]
  | cons type types ih =>
    obtain ⟨hfirst, hothers⟩ := List.forall_mem_cons.1 h
    rw [List.flatMap_cons, List.append_assoc, readListOnto_toChars_append hfirst, ih hothers,
      List.reverse_cons, List.append_assoc, List.singleton_append]

private theorem eq_of_readListOnto (h : readListOnto before chars = some (types, rest)) :
    ∃ added : List FieldType, types = before.reverse ++ added ∧
      (∀ type ∈ added, type.IsProper) ∧ chars = added.flatMap toChars ++ ')' :: rest := by
  induction before, chars using readListOnto.induct with
  | case1 before back =>
    rw [readListOnto, Option.some.injEq, Prod.mk.injEq] at h
    obtain ⟨rfl, rfl⟩ := h
    exact ⟨[], by simp, by simp, by simp⟩
  | case2 before chars hparenthesis type back hread hshorter ih =>
    obtain ⟨hproper, rfl⟩ := read?_eq_some_iff.1 hread
    rw [readListOnto_toChars_append hproper] at h
    obtain ⟨added, rfl, hadded, rfl⟩ := ih h
    refine ⟨type :: added, by simp, List.forall_mem_cons.2 ⟨hproper, hadded⟩, ?_⟩
    rw [List.flatMap_cons, List.append_assoc]
  | case3 before chars hparenthesis hread =>
    rw [readListOnto.eq_def] at h
    split at h
    case h_1 back => exact absurd rfl (hparenthesis back)
    case h_2 =>
      split at h
      case h_1 hread' => exact nomatch hread.symm.trans hread'
      case h_2 => exact nomatch h

end FieldType

/-! ### Method descriptors -/

namespace MethodDescriptor

variable {chars : List Char} {text : String} {descriptor : MethodDescriptor}

/-- The characters of a result. -/
def resultToChars : Option FieldType → List Char
  | some type => type.toChars
  | none => ['V']

/-- A descriptor is written as its parameters in parentheses and its result behind them. -/
theorem toChars_eq (descriptor : MethodDescriptor) :
    descriptor.toChars = '(' :: (descriptor.parameters.flatMap FieldType.toChars ++
      ')' :: resultToChars descriptor.result) := by
  obtain ⟨parameters, result⟩ := descriptor
  cases result <;> simp [toChars, resultToChars]

/-- All types of the descriptor can be read. -/
structure IsProper (descriptor : MethodDescriptor) : Prop where
  parameters : ∀ type ∈ descriptor.parameters, type.IsProper
  result : ∀ type ∈ descriptor.result, type.IsProper

private theorem readResult?_eq_some_iff {result : Option FieldType} :
    readResult? chars = some result ↔
      (∀ type ∈ result, type.IsProper) ∧ chars = resultToChars result := by
  have hvoid : FieldType.read? ['V'] = none := rfl
  constructor
  · intro h
    unfold readResult? at h
    split at h
    case h_1 =>
      obtain rfl := Option.some.inj h
      exact ⟨by simp, rfl⟩
    case h_2 =>
      split at h
      case h_1 type hread =>
        obtain rfl := Option.some.inj h
        obtain ⟨hproper, rfl⟩ := FieldType.read?_eq_some_iff.1 hread
        exact ⟨by simpa using hproper, by simp [resultToChars]⟩
      case h_2 => exact nomatch h
  · rintro ⟨hproper, rfl⟩
    cases result with
    | none => rfl
    | some type =>
      have hread := FieldType.read?_toChars_append (hproper type rfl) []
      rw [List.append_nil] at hread
      unfold readResult?
      split
      case h_1 heq =>
        -- `V` alone is no type
        rw [show type.toChars = ['V'] from heq, hvoid] at hread
        exact nomatch hread
      case h_2 => rw [resultToChars, hread]

/-- **A text spells a descriptor exactly when the descriptor is written as this text.** -/
theorem ofString?_eq_some_iff :
    ofString? text = some descriptor ↔ descriptor.IsProper ∧ text.toList = descriptor.toChars := by
  rw [toChars_eq]
  constructor
  · intro h
    unfold ofString? at h
    split at h
    case h_1 chars htext =>
      simp only [Option.bind_eq_bind, Option.bind_eq_some_iff, Option.some.injEq,
        Prod.exists] at h
      obtain ⟨parameters, rest, hparameters, result, hresult, rfl⟩ := h
      obtain ⟨added, rfl, hadded, rfl⟩ := FieldType.eq_of_readListOnto hparameters
      obtain ⟨hproper, rfl⟩ := readResult?_eq_some_iff.1 hresult
      exact ⟨⟨hadded, hproper⟩, htext⟩
    case h_2 => exact nomatch h
  · rintro ⟨hproper, htext⟩
    unfold ofString?
    rw [htext]
    change (FieldType.readListOnto [] _ >>= _) = _
    rw [FieldType.readListOnto_flatMap_append hproper.parameters]
    change (readResult? _ >>= _) = _
    rw [readResult?_eq_some_iff.2 ⟨hproper.result, rfl⟩]
    rfl

/-- A text is a descriptor if it is written so and its parameters do not take up too many slots. -/
theorem parse_eq_ok_iff :
    parse text = .ok descriptor ↔ descriptor.IsProper ∧ text.toList = descriptor.toChars ∧
      descriptor.parameterSlots < UInt16.size := by
  rw [← and_assoc, ← ofString?_eq_some_iff, parse]
  cases ofString? text with
  | none => simp
  | some found =>
    by_cases hslots : found.parameterSlots < UInt16.size
    · simp only [if_pos hslots, Except.ok.injEq, Option.some.injEq]
      exact ⟨fun h => ⟨h, h ▸ hslots⟩, And.left⟩
    · simp only [if_neg hslots, Option.some.injEq]
      refine ⟨(nomatch ·), ?_⟩
      rintro ⟨rfl, hslots'⟩
      exact absurd hslots' hslots

private theorem eq_of_parse_eq_error {error : DescriptorError} (h : parse text = .error error) :
    error = .invalidMethodDescriptor text := by
  rw [parse] at h
  split at h
  · split at h
    · exact nomatch h
    · exact (Except.error.inj h).symm
  · exact (Except.error.inj h).symm

/-- A text that is no descriptor is refused with itself. -/
theorem parse_eq_error_iff {error : DescriptorError} :
    parse text = .error error ↔
      error = .invalidMethodDescriptor text ∧ ∀ descriptor, parse text ≠ .ok descriptor := by
  constructor
  · intro h
    exact ⟨eq_of_parse_eq_error h, fun _ hok => nomatch h.symm.trans hok⟩
  · rintro ⟨rfl, h⟩
    cases hparse : parse text with
    | ok descriptor => exact absurd hparse (h descriptor)
    | error error => rw [eq_of_parse_eq_error hparse]

end MethodDescriptor

end ClassStub
