import ClassStub.Bytes
import ClassStub.Proofs.DescriptorReading
import ClassStub.Proofs.Steps
import ClassStub.Proofs.Utf8

/-!
# The grammar of method descriptors

A method descriptor is a string of bytes. `SpellsDescriptor` is its grammar, with the number of
slots that the parameters and the result take: the name of a class is any bytes other than a
semicolon, and at least one, an array may have any number of brackets, and `void` stands for a
result only.

The readers of `ClassStub.Descriptor` see characters. This makes no difference, because all that
they look for are characters of a single byte, and such a byte belongs to no other character: the
bytes between two of them, those of a class name, are the encoding of some characters whatever
they are (`SpellsType.exists_type`). So the slots of a text are counted exactly if its bytes follow
the grammar and the parameters take no more slots than sixteen bits can say
(`slots_eq_ok_iff`).
-/

namespace ClassStub

/-! ### The grammar -/

/-- The bytes spell a type, whose values take so many slots. -/
inductive SpellsType : Bytes → Nat → Prop
  | narrow {c : Char} (hmem : c ∈ ['B', 'C', 'F', 'I', 'S', 'Z']) : SpellsType [byteOf c] 1
  | wide {c : Char} (hmem : c ∈ ['J', 'D']) : SpellsType [byteOf c] 2
  | object {name : Bytes} (hne : name ≠ []) (hname : byteOf ';' ∉ name) :
      SpellsType (byteOf 'L' :: (name ++ [byteOf ';'])) 1
  | array {bytes : Bytes} {width : Nat} (h : SpellsType bytes width) :
      SpellsType (byteOf '[' :: bytes) 1

/-- The bytes spell types one after another, whose values take so many slots together. -/
inductive SpellsTypes : Bytes → Nat → Prop
  | nil : SpellsTypes [] 0
  | cons {first rest : Bytes} {width slots : Nat} (hfirst : SpellsType first width)
      (hrest : SpellsTypes rest slots) : SpellsTypes (first ++ rest) (width + slots)

/-- The bytes spell the type of a result, or that there is none. -/
inductive SpellsResult : Bytes → Nat → Prop
  | void : SpellsResult [byteOf 'V'] 0
  | type {bytes : Bytes} {width : Nat} (h : SpellsType bytes width) : SpellsResult bytes width

/-- The bytes spell a method descriptor with so many slots for parameters and for the result. -/
inductive SpellsDescriptor : Bytes → Nat → Nat → Prop
  | mk {parameters result : Bytes} {slots width : Nat} (hparameters : SpellsTypes parameters slots)
      (hresult : SpellsResult result width) :
      SpellsDescriptor (byteOf '(' :: (parameters ++ byteOf ')' :: result)) slots width

/-! ### From bytes to descriptors -/

/-- The bytes of some characters. -/
private def utf8 (chars : List Char) : Bytes := chars.flatMap String.utf8EncodeChar

private theorem utf8_append (first second : List Char) :
    utf8 (first ++ second) = utf8 first ++ utf8 second :=
  List.flatMap_append

private theorem utf8_cons {c : Char} (h : c.toNat < 0x80) (chars : List Char) :
    utf8 (c :: chars) = byteOf c :: utf8 chars := by
  rw [utf8, List.flatMap_cons, utf8EncodeChar_of_lt h, List.singleton_append, utf8]

/-- A letter stands for an element type. -/
private theorem exists_element_narrow {c : Char} (hmem : c ∈ ['B', 'C', 'F', 'I', 'S', 'Z']) :
    c.toNat < 0x80 ∧ ∃ element : ElementType, element.IsProper ∧ element.toChars = [c] ∧
      FieldType.slots ⟨0, element⟩ = 1 := by
  simp only [List.mem_cons, List.not_mem_nil, or_false] at hmem
  rcases hmem with rfl | rfl | rfl | rfl | rfl | rfl
  · exact ⟨by decide, .byte, trivial, rfl, rfl⟩
  · exact ⟨by decide, .char, trivial, rfl, rfl⟩
  · exact ⟨by decide, .float, trivial, rfl, rfl⟩
  · exact ⟨by decide, .int, trivial, rfl, rfl⟩
  · exact ⟨by decide, .short, trivial, rfl, rfl⟩
  · exact ⟨by decide, .boolean, trivial, rfl, rfl⟩

private theorem exists_element_wide {c : Char} (hmem : c ∈ ['J', 'D']) :
    c.toNat < 0x80 ∧ ∃ element : ElementType, element.IsProper ∧ element.toChars = [c] ∧
      FieldType.slots ⟨0, element⟩ = 2 := by
  simp only [List.mem_cons, List.not_mem_nil, or_false] at hmem
  rcases hmem with rfl | rfl
  · exact ⟨by decide, .long, trivial, rfl, rfl⟩
  · exact ⟨by decide, .double, trivial, rfl, rfl⟩

/-- Characters whose bytes start with those of a type start with this type. -/
private theorem SpellsType.exists_type {bytes rest : Bytes} {width : Nat}
    (h : SpellsType bytes width) {chars : List Char} (heq : utf8 chars = bytes ++ rest) :
    ∃ (type : FieldType) (back : List Char), type.IsProper ∧ type.slots = width ∧
      chars = type.toChars ++ back ∧ utf8 back = rest := by
  induction h generalizing chars with
  | narrow hmem =>
    obtain ⟨hc, element, hproper, hchars, hslots⟩ := exists_element_narrow hmem
    obtain ⟨back, rfl, hback⟩ := exists_cons_of_utf8 hc heq
    exact ⟨⟨0, element⟩, back, hproper, hslots, by simp [FieldType.toChars, hchars], hback⟩
  | wide hmem =>
    obtain ⟨hc, element, hproper, hchars, hslots⟩ := exists_element_wide hmem
    obtain ⟨back, rfl, hback⟩ := exists_cons_of_utf8 hc heq
    exact ⟨⟨0, element⟩, back, hproper, hslots, by simp [FieldType.toChars, hchars], hback⟩
  | @object name hne hname =>
    rw [List.cons_append, List.append_assoc, List.singleton_append] at heq
    obtain ⟨behind, rfl, hbehind⟩ := exists_cons_of_utf8 (by decide) heq
    obtain ⟨front, back, rfl, rfl, hback⟩ := exists_split_of_utf8 (by decide) hbehind hname
    refine ⟨⟨0, .object front⟩, back, ⟨?_, fun hmem => hname ?_⟩, rfl, ?_, hback⟩
    · rintro rfl
      exact hne rfl
    · exact List.mem_flatMap.2 ⟨';', hmem, (mem_utf8EncodeChar_iff (by decide)).2 rfl⟩
    · simp [FieldType.toChars, ElementType.toChars]
  | array _ ih =>
    obtain ⟨behind, rfl, hbehind⟩ := exists_cons_of_utf8 (by decide) heq
    obtain ⟨type, back, hproper, -, rfl, hback⟩ := ih hbehind
    refine ⟨⟨type.dimensions + 1, type.element⟩, back, hproper, rfl, ?_, hback⟩
    simp [FieldType.toChars, List.replicate_succ]

private theorem SpellsTypes.exists_types {bytes rest : Bytes} {slots : Nat}
    (h : SpellsTypes bytes slots) {chars : List Char} (heq : utf8 chars = bytes ++ rest) :
    ∃ (types : List FieldType) (back : List Char), (∀ type ∈ types, type.IsProper) ∧
      MethodDescriptor.parameterSlots ⟨types, none⟩ = slots ∧
      chars = types.flatMap FieldType.toChars ++ back ∧ utf8 back = rest := by
  induction h generalizing chars with
  | nil => exact ⟨[], chars, by simp, rfl, rfl, heq⟩
  | cons hfirst _ ih =>
    rw [List.append_assoc] at heq
    obtain ⟨type, behind, hproper, hwidth, rfl, hbehind⟩ := hfirst.exists_type heq
    obtain ⟨types, back, hothers, hslots, rfl, hback⟩ := ih hbehind
    refine ⟨type :: types, back, List.forall_mem_cons.2 ⟨hproper, hothers⟩, ?_, ?_, hback⟩
    · rw [MethodDescriptor.parameterSlots, List.foldr_cons, hwidth, ← hslots,
        MethodDescriptor.parameterSlots]
    · rw [List.flatMap_cons, List.append_assoc]

private theorem SpellsResult.exists_result {bytes : Bytes} {width : Nat}
    (h : SpellsResult bytes width) {chars : List Char} (heq : utf8 chars = bytes) :
    ∃ result : Option FieldType, (∀ type ∈ result, type.IsProper) ∧
      MethodDescriptor.returnSlots ⟨[], result⟩ = width ∧
      chars = MethodDescriptor.resultToChars result := by
  have hend : ∀ {back : List Char}, utf8 back = [] → back = [] := by
    intro back hback
    cases back with
    | nil => rfl
    | cons c back => simp [utf8] at hback
  cases h with
  | void =>
    obtain ⟨back, rfl, hback⟩ := exists_cons_of_utf8 (by decide) heq
    obtain rfl := hend hback
    exact ⟨none, by simp, rfl, rfl⟩
  | type htype =>
    rw [← List.append_nil bytes] at heq
    obtain ⟨type, back, hproper, hwidth, rfl, hback⟩ := htype.exists_type heq
    obtain rfl := hend hback
    exact ⟨some type, by simpa using hproper, hwidth, by simp [MethodDescriptor.resultToChars]⟩

/-! ### From descriptors to bytes -/

private theorem spellsType_utf8 {type : FieldType} (h : type.IsProper) :
    SpellsType (utf8 type.toChars) type.slots := by
  -- by induction on the brackets; the element type is what is left
  obtain ⟨dimensions, element⟩ := type
  induction dimensions with
  | zero =>
    change SpellsType (utf8 element.toChars) _
    cases element with
    | object name =>
      -- the name ends at the first semicolon, which it must not contain itself
      have hutf8 : utf8 (ElementType.object name).toChars =
          byteOf 'L' :: (utf8 name ++ [byteOf ';']) := by
        rw [ElementType.toChars, List.cons_append, utf8_cons (by decide), utf8_append,
          utf8_cons (by decide)]
        rfl
      rw [hutf8]
      refine .object (fun hnil => h.1 ?_) fun hmem => h.2 ?_
      · cases name with
        | nil => rfl
        | cons c name => simp [utf8] at hnil
      · obtain ⟨c, hc, hbyte⟩ := List.mem_flatMap.1 hmem
        rwa [← (mem_utf8EncodeChar_iff (by decide)).1 hbyte]
    | long | double => exact .wide (by simp)
    | _ => exact .narrow (by simp)
  | succ dimensions ih =>
    have hutf8 : utf8 (FieldType.toChars ⟨dimensions + 1, element⟩) =
        byteOf '[' :: utf8 (FieldType.toChars ⟨dimensions, element⟩) := by
      rw [FieldType.toChars, List.replicate_succ, List.cons_append, utf8_cons (by decide),
        FieldType.toChars]
    rw [hutf8]
    exact .array (ih h)

private theorem spellsTypes_utf8 {types : List FieldType} (h : ∀ type ∈ types, type.IsProper) :
    SpellsTypes (utf8 (types.flatMap FieldType.toChars))
      (MethodDescriptor.parameterSlots ⟨types, none⟩) := by
  induction types with
  | nil => exact .nil
  | cons type types ih =>
    obtain ⟨hfirst, hothers⟩ := List.forall_mem_cons.1 h
    rw [List.flatMap_cons, utf8_append]
    exact .cons (spellsType_utf8 hfirst) (ih hothers)

private theorem spellsResult_utf8 {result : Option FieldType}
    (h : ∀ type ∈ result, type.IsProper) :
    SpellsResult (utf8 (MethodDescriptor.resultToChars result))
      (MethodDescriptor.returnSlots ⟨[], result⟩) := by
  cases result with
  | none => exact .void
  | some type => exact .type (spellsType_utf8 (h type rfl))

/-- The grammar describes the written forms of descriptors, as bytes. -/
private theorem spellsDescriptor_utf8_iff {chars : List Char} {slots width : Nat} :
    SpellsDescriptor (utf8 chars) slots width ↔ ∃ descriptor : MethodDescriptor,
      descriptor.IsProper ∧ chars = descriptor.toChars ∧ descriptor.parameterSlots = slots ∧
        descriptor.returnSlots = width := by
  constructor
  · intro h
    generalize hbytes : utf8 chars = bytes at h
    obtain ⟨hparameters, hresult⟩ := h
    obtain ⟨behind, rfl, hbehind⟩ := exists_cons_of_utf8 (by decide) hbytes
    obtain ⟨types, back, htypes, hslots, rfl, hback⟩ := hparameters.exists_types hbehind
    obtain ⟨last, rfl, hlast⟩ := exists_cons_of_utf8 (by decide) hback
    obtain ⟨result, hproper, hwidth, rfl⟩ := hresult.exists_result hlast
    exact ⟨⟨types, result⟩, ⟨htypes, hproper⟩, (MethodDescriptor.toChars_eq ⟨types, result⟩).symm,
      hslots, hwidth⟩
  · rintro ⟨⟨types, result⟩, hproper, rfl, rfl, rfl⟩
    rw [MethodDescriptor.toChars_eq, utf8_cons (by decide), utf8_append, utf8_cons (by decide)]
    exact .mk (spellsTypes_utf8 hproper.parameters) (spellsResult_utf8 hproper.result)

/-! ### The slots of a text -/

/-- The text is a method descriptor, and its slots can be counted in sixteen bits. -/
def HasSlots (text : String) (slots width : Nat) : Prop :=
  SpellsDescriptor text.toUTF8.toList slots width ∧ slots ≤ 65535

variable {text : String} {slots width : Nat}

/-- The grammar describes what the parser accepts, with the slots that it counts. -/
theorem hasSlots_iff_exists_parse :
    HasSlots text slots width ↔ ∃ descriptor, MethodDescriptor.parse text = .ok descriptor ∧
      descriptor.parameterSlots = slots ∧ descriptor.returnSlots = width := by
  rw [HasSlots, toList_toUTF8]
  change SpellsDescriptor (utf8 text.toList) slots width ∧ _ ↔ _
  rw [spellsDescriptor_utf8_iff]
  simp only [MethodDescriptor.parse_eq_ok_iff]
  constructor
  · rintro ⟨⟨descriptor, hproper, hchars, rfl, rfl⟩, hle⟩
    exact ⟨descriptor, ⟨hproper, hchars, Nat.lt_succ_of_le hle⟩, rfl, rfl⟩
  · rintro ⟨descriptor, ⟨hproper, hchars, hlt⟩, rfl, rfl⟩
    exact ⟨⟨descriptor, hproper, hchars, rfl, rfl⟩, Nat.le_of_lt_succ hlt⟩

/-- A text without slots is one that is not parsed. -/
theorem not_exists_hasSlots_iff :
    (¬∃ slots width, HasSlots text slots width) ↔
      MethodDescriptor.parse text = .error (.invalidMethodDescriptor text) := by
  rw [MethodDescriptor.parse_eq_error_iff, and_iff_right rfl]
  simp only [hasSlots_iff_exists_parse]
  constructor
  · intro h descriptor hparse
    exact h ⟨_, _, descriptor, hparse, rfl, rfl⟩
  · rintro h ⟨slots, width, descriptor, hparse, -, -⟩
    exact h descriptor hparse

/-- **The slots of the parameters and of the result are counted for the texts that follow the
grammar, as the grammar counts them, and all other texts are refused.** -/
theorem slots_eq_ok_iff :
    (∀ text slots width, parameterSlots text = .ok slots ∧ returnSlots text = .ok width ↔
      HasSlots text slots width) ∧
    (∀ text, parameterSlots text = .error (.invalidMethodDescriptor text) ↔
      ¬∃ slots width, HasSlots text slots width) ∧
    (∀ text, returnSlots text = .error (.invalidMethodDescriptor text) ↔
      ¬∃ slots width, HasSlots text slots width) := by
  refine ⟨fun text slots width => ?_, fun text => ?_, fun text => ?_⟩
  · rw [hasSlots_iff_exists_parse, parameterSlots, returnSlots, map_eq_ok_iff, map_eq_ok_iff]
    constructor
    · rintro ⟨⟨descriptor, hparse, hslots⟩, other, hparse', hwidth⟩
      obtain rfl := Except.ok.inj (hparse.symm.trans hparse')
      exact ⟨descriptor, hparse, hslots, hwidth⟩
    · rintro ⟨descriptor, hparse, hslots, hwidth⟩
      exact ⟨⟨descriptor, hparse, hslots⟩, descriptor, hparse, hwidth⟩
  · rw [not_exists_hasSlots_iff, parameterSlots, map_eq_error_iff]
  · rw [not_exists_hasSlots_iff, returnSlots, map_eq_error_iff]

-- an array takes one slot, whatever it holds
example : parameterSlots "(I[JLp/A;)D" = .ok 3 ∧ returnSlots "(I[JLp/A;)D" = .ok 2 :=
  ⟨by cbv, by cbv⟩

end ClassStub
