/-!
# Method descriptors

A method descriptor such as `(IJ[Ljava/lang/String;)V` lists the types of the parameters between
parentheses and then the type of the result. A value of type `long` or `double` takes two slots
of a frame and any other value takes one; an array is a single slot whatever it holds.

`MethodDescriptor.ofString?` reads a descriptor and `MethodDescriptor.toChars` writes one.
`MethodDescriptor.parse` also refuses a descriptor whose parameters need more slots than a
16-bit count can say.
-/

namespace ClassStub

/-- What a string that should be a method descriptor may be instead. -/
inductive DescriptorError where
  /-- The text does not follow the grammar, or has too many parameter slots. -/
  | invalidMethodDescriptor (descriptor : String)
  deriving DecidableEq, Inhabited

/-- The wording of a descriptor error. -/
def DescriptorError.message : DescriptorError → String
  | invalidMethodDescriptor descriptor => "Invalid method descriptor: " ++ descriptor

/-! ### Types -/

/-- A type that is not an array. -/
inductive ElementType where
  | byte
  | char
  | double
  | float
  | int
  | long
  | short
  | boolean
  /-- A class or interface, by its internal name. -/
  | object (name : List Char)
  deriving DecidableEq, Inhabited

/-- A type of a parameter or result: an element type under some number of array dimensions. -/
structure FieldType where
  dimensions : Nat
  element : ElementType
  deriving DecidableEq, Inhabited

/-- The slots that a value of the type takes. -/
def FieldType.slots (type : FieldType) : Nat :=
  match type.dimensions, type.element with
  | 0, .long => 2
  | 0, .double => 2
  | _, _ => 1

/-- The types of a method's parameters and result; there is no result type for `void`. -/
structure MethodDescriptor where
  parameters : List FieldType
  result : Option FieldType
  deriving DecidableEq, Inhabited

/-- The slots that the parameters take together. -/
def MethodDescriptor.parameterSlots (descriptor : MethodDescriptor) : Nat :=
  descriptor.parameters.foldr (fun type slots => type.slots + slots) 0

/-- The slots that the result takes. -/
def MethodDescriptor.returnSlots (descriptor : MethodDescriptor) : Nat :=
  match descriptor.result with
  | some type => type.slots
  | none => 0

/-! ### Writing -/

/-- The characters of an element type. -/
def ElementType.toChars : ElementType → List Char
  | byte => ['B']
  | char => ['C']
  | double => ['D']
  | float => ['F']
  | int => ['I']
  | long => ['J']
  | short => ['S']
  | boolean => ['Z']
  | object name => 'L' :: name ++ [';']

/-- The characters of a type: one bracket for each dimension, then the element type. -/
def FieldType.toChars (type : FieldType) : List Char :=
  List.replicate type.dimensions '[' ++ type.element.toChars

/-- The characters of a method descriptor. -/
def MethodDescriptor.toChars (descriptor : MethodDescriptor) : List Char :=
  '(' :: descriptor.parameters.flatMap FieldType.toChars ++
    ')' :: (match descriptor.result with
      | some type => type.toChars
      | none => ['V'])

/-! ### Reading -/

/-- Reads an element type, and returns it with the characters behind it. The name of a class
is not empty and ends at the first semicolon. -/
def ElementType.read? : List Char → Option (ElementType × List Char)
  | 'B' :: rest => some (.byte, rest)
  | 'C' :: rest => some (.char, rest)
  | 'D' :: rest => some (.double, rest)
  | 'F' :: rest => some (.float, rest)
  | 'I' :: rest => some (.int, rest)
  | 'J' :: rest => some (.long, rest)
  | 'S' :: rest => some (.short, rest)
  | 'Z' :: rest => some (.boolean, rest)
  | 'L' :: rest =>
    match rest.takeWhile (· != ';'), rest.dropWhile (· != ';') with
    | c :: name, _ :: rest => some (.object (c :: name), rest)
    | _, _ => none
  | _ => none

theorem ElementType.length_of_read? {chars rest : List Char} {type : ElementType}
    (h : read? chars = some (type, rest)) : rest.length < chars.length := by
  unfold read? at h
  split at h
  case h_9 chars =>
    have hlen := congrArg List.length
      (List.takeWhile_append_dropWhile (p := (· != ';')) (l := chars))
    split at h
    case h_1 _ hdrop =>
      simp only [Option.some.injEq, Prod.mk.injEq] at h
      rw [List.length_append, hdrop, List.length_cons, h.2] at hlen
      rw [List.length_cons]
      omega
    case h_2 => exact absurd h (by simp)
  case h_10 => exact absurd h (by simp)
  all_goals
    simp only [Option.some.injEq, Prod.mk.injEq] at h
    simp [h.2]

/-- Reads a type, and returns it with the characters behind it. -/
def FieldType.read? (chars : List Char) : Option (FieldType × List Char) :=
  let dimensions := (chars.takeWhile (· == '[')).length
  (ElementType.read? (chars.dropWhile (· == '['))).map fun (element, rest) =>
    (⟨dimensions, element⟩, rest)

theorem FieldType.length_of_read? {chars rest : List Char} {type : FieldType}
    (h : read? chars = some (type, rest)) : rest.length < chars.length := by
  simp only [read?, Option.map_eq_some_iff, Prod.mk.injEq, Prod.exists] at h
  obtain ⟨_, _, helement, _, rfl⟩ := h
  have := ElementType.length_of_read? helement
  have := (List.dropWhile_suffix (l := chars) (· == '[')).length_le
  omega

/-- Reads types up to the closing parenthesis, behind the types `before`, which stand in
reverse order. -/
def FieldType.readListOnto (before : List FieldType) (chars : List Char) :
    Option (List FieldType × List Char) :=
  match chars with
  | ')' :: rest => some (before.reverse, rest)
  | chars =>
    match h : read? chars with
    | some (type, rest) =>
      have := FieldType.length_of_read? h
      readListOnto (type :: before) rest
    | none => none
  termination_by chars.length

/-- Reads the type of a result, which must end where the characters end. -/
def MethodDescriptor.readResult? : List Char → Option (Option FieldType)
  | ['V'] => some none
  | chars =>
    match FieldType.read? chars with
    | some (type, []) => some (some type)
    | _ => none

/-- The method descriptor that a text spells. -/
def MethodDescriptor.ofString? (text : String) : Option MethodDescriptor :=
  match text.toList with
  | '(' :: chars => do
    let (parameters, rest) ← FieldType.readListOnto [] chars
    let result ← readResult? rest
    some ⟨parameters, result⟩
  | _ => none

/-- The method descriptor that a text spells, provided that its parameter slots can be counted
in sixteen bits. -/
def MethodDescriptor.parse (text : String) : Except DescriptorError MethodDescriptor :=
  match ofString? text with
  | some descriptor =>
    if descriptor.parameterSlots < UInt16.size then
      .ok descriptor
    else
      .error (.invalidMethodDescriptor text)
  | none => .error (.invalidMethodDescriptor text)

/-! ### Slots of a descriptor given as text -/

/-- The parameter slots of the descriptor that a text spells. -/
def parameterSlots (text : String) : Except DescriptorError Nat :=
  (MethodDescriptor.parse text).map MethodDescriptor.parameterSlots

/-- The result slots of the descriptor that a text spells. -/
def returnSlots (text : String) : Except DescriptorError Nat :=
  (MethodDescriptor.parse text).map MethodDescriptor.returnSlots

end ClassStub
