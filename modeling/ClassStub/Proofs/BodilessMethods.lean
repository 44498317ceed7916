import ClassStub.Proofs.ClassFormat
import ClassStub.Proofs.Stubbing

/-!
# Methods without a body

Stubbing leaves a method alone that has no body. Whether it has one is decided by the names of
its attributes, and these are looked up while the pool grows. In an interface no text `Code` is
ever appended. In a class it is, for the helper, if the class does not hold it; and then an
attribute whose name lay behind the pool of the class may turn into a `Code` attribute.

`ClassFile.bodiless_methods_kept` says that this is the only way in which a method without a body
can be changed, and `ClassFile.bodiless_method_replaced` that it happens.
-/

namespace ClassStub

variable {policy : InitializerPolicy} {helper? : Option UInt16} {pool grown : ConstantPool}
  {texts : List String}

namespace Member

/-- A method that has a body in a later pool only is neither abstract nor native, and has an
attribute whose name is behind the pool and is `Code` in the later one. -/
private theorem exists_of_hasBody_of_growsTo {method : Member} (h : pool.GrowsTo texts grown)
    (hbody : method.hasBody pool = false) (hlater : method.hasBody grown = true) :
    method.isBodiless = false ∧ ∃ attr ∈ method.attributes,
      pool.size < attr.nameIndex.toNat ∧ attr.name grown = .ok Attribute.codeName := by
  rw [hasBody, Bool.and_eq_true, Bool.not_eq_true', codePosition?, List.findIdx?_isSome,
    List.any_eq_true] at hlater
  obtain ⟨hbodiless, attr, hmem, hnamed⟩ := hlater
  refine ⟨hbodiless, attr, hmem, Nat.lt_of_not_le fun hle => ?_, Attribute.isNamed_iff.1 hnamed⟩
  -- within the pool the name was the same before, so the method had a body there
  have hsame : attr.isNamed pool Attribute.codeName = true := by
    rw [← Attribute.isNamed_of_le h hle]
    exact hnamed
  rw [hasBody, hbodiless, Bool.not_false, Bool.true_and, codePosition?, Bool.eq_false_iff, Ne,
    List.findIdx?_isSome, List.any_eq_true] at hbody
  exact hbody ⟨attr, hmem, hsame⟩

private theorem StubbedTo.eq_of_hasBody {method stubbed : Member}
    (h : method.StubbedTo policy helper? pool stubbed) (hbody : method.hasBody pool = false) :
    stubbed = method := by
  cases h with
  | kept => rfl
  | replaced hreplaced =>
    rw [hbody] at hreplaced
    exact nomatch hreplaced

end Member

namespace ClassFile

variable {c o : ClassFile} {position : Nat} {method : Member}

/-- **A method without a body is kept**, with all its attributes and at its position. The one
exception is a method of a class that is neither abstract nor native and has an attribute whose
name index lies behind the pool of the class, if stubbing appends the text `Code` just there. -/
theorem bodiless_methods_kept {bytes : Bytes} (hdecode : decode bytes = .ok c)
    (hstub : c.stub policy = .ok o) (hget : c.methods[position]? = some method)
    (hbody : method.hasBody c.pool = false) :
    o.methods[position]? = some method ∨
      (c.isModule = false ∧ c.isInterface = false ∧ method.isBodiless = false ∧
        ∃ attr ∈ method.attributes, c.pool.size < attr.nameIndex.toNat ∧
          attr.name o.pool = .ok Attribute.codeName) := by
  have hsize := (decode_eq_ok_iff.1 hdecode).1.pool.size_le
  cases hmodule : c.isModule with
  | true =>
    rw [stub, if_pos hmodule, pure_eq_ok_iff] at hstub
    exact .inl (hstub ▸ hget)
  | false =>
    cases isStub_of_stub hmodule hsize hstub with
    | ofInterface hinterface hgrows _ hmethods =>
      obtain ⟨stubbed, hstubbed, hrelated⟩ := exists_of_getElem? hmethods.flip hget
      have hlater := Member.hasBody_of_growsTo hgrows RaiseRefs.codeName_not_mem_texts method
      rw [hrelated.eq_of_hasBody (hlater.trans hbody)] at hstubbed
      exact .inl hstubbed
    | @ofClass _ pool _ _ helper methods hclass hgrows _ _ _ _ hmethods =>
      obtain ⟨stubbed, hstubbed, hrelated⟩ := exists_of_getElem? hmethods.flip hget
      -- the helper's texts may give a name to an attribute that had none
      cases hlater : method.hasBody pool with
      | true =>
        exact .inr ⟨rfl, hclass, Member.exists_of_hasBody_of_growsTo hgrows hbody hlater⟩
      | false =>
        rw [hrelated.eq_of_hasBody hlater] at hstubbed
        have hlt := (List.getElem?_eq_some_iff.1 hstubbed).1
        exact .inl ((List.getElem?_append_left hlt).trans hstubbed)

/-- A class with a native method and a method whose only attribute has a name behind the pool.
The text `Code` is appended there for the helper. -/
def danglingName : ClassFile where
  magic := magicNumber
  minorVersion := 0
  majorVersion := 52
  pool := ⟨#[.utf8 "p/A", .classRef 1, .utf8 objectClassName, .classRef 3, .utf8 "n", .utf8 "m",
    .utf8 "()V"]⟩
  access := ⟨0x0021⟩
  thisClass := 2
  superClass := 4
  interfaces := []
  fields := []
  methods := [⟨⟨0x0101⟩, 5, 7, []⟩, ⟨⟨0x0001⟩, 6, 7, [⟨18, [7]⟩]⟩]
  attributes := []

/-- The bytes of `danglingName`. -/
def danglingNameBytes : Bytes :=
  [0xCA, 0xFE, 0xBA, 0xBE, 0, 0, 0, 52, 0, 8,
    1, 0, 3, 0x70, 0x2F, 0x41, 7, 0, 1,
    1, 0, 16, 0x6A, 0x61, 0x76, 0x61, 0x2F, 0x6C, 0x61, 0x6E, 0x67, 0x2F, 0x4F, 0x62, 0x6A, 0x65,
    0x63, 0x74, 7, 0, 3, 1, 0, 1, 0x6E, 1, 0, 1, 0x6D, 1, 0, 3, 0x28, 0x29, 0x56,
    0, 0x21, 0, 2, 0, 4, 0, 0, 0, 0,
    0, 2, 1, 1, 0, 5, 0, 7, 0, 0,
    0, 1, 0, 6, 0, 7, 0, 1, 0, 18, 0, 0, 0, 1, 7, 0, 0]

/-- The stub of `danglingName`: its second method was given a body. -/
def danglingNameStub : ClassFile :=
  { danglingName with
    pool := ⟨danglingName.pool.slots ++ #[.utf8 Diagnostic.exceptionClass, .classRef 8,
      .utf8 Diagnostic.message, .string 10, .utf8 constructorName,
      .utf8 Diagnostic.constructorDescriptor, .nameAndType 12 13, .methodRef 9 14,
      .utf8 Helper.name, .utf8 Helper.descriptor, .utf8 Attribute.codeName,
      .nameAndType 16 17, .methodRef 2 19]⟩
    methods := [⟨⟨0x0101⟩, 5, 7, []⟩,
      ⟨⟨0x0001⟩, 6, 7, [(GeneratedBody.delegating 20 1).payload.toAttribute 18]⟩,
      ⟨Helper.access, 16, 17,
        [(GeneratedBody.returningException ⟨9, 11, 15⟩).payload.toAttribute 18]⟩] }

private theorem decode_danglingNameBytes : decode danglingNameBytes = .ok danglingName := by
  decide +kernel

private theorem stub_danglingName : danglingName.stub .stub = .ok danglingNameStub := by
  rw [← toOption_eq_some_iff]
  decide +kernel

/-- A class with an abstract method whose name stands behind those of its attributes. -/
theorem bodiless_methods_kept_danglingName :
    decode danglingNameBytes = .ok danglingName ∧
      danglingName.stub .stub = .ok danglingNameStub ∧
      danglingName.methods[0]? = some ⟨⟨0x0101⟩, 5, 7, []⟩ ∧
      Member.hasBody ⟨⟨0x0101⟩, 5, 7, []⟩ danglingName.pool = false ∧
      danglingNameStub.methods[0]? = some ⟨⟨0x0101⟩, 5, 7, []⟩ := by
  have hbody : Member.hasBody ⟨⟨0x0101⟩, 5, 7, []⟩ danglingName.pool = false := by decide
  have hkept := bodiless_methods_kept decode_danglingNameBytes stub_danglingName
    (show danglingName.methods[0]? = some ⟨⟨0x0101⟩, 5, 7, []⟩ from rfl) hbody
  refine ⟨decode_danglingNameBytes, stub_danglingName, rfl, hbody, hkept.resolve_right ?_⟩
  -- the method is native
  rintro ⟨-, -, hbodiless, -⟩
  exact absurd hbodiless (by decide)

/-- Not every method without a body is kept: the second method of `danglingName` is not. -/
theorem bodiless_method_replaced :
    decode danglingNameBytes = .ok danglingName ∧
      danglingName.stub .stub = .ok danglingNameStub ∧
      danglingName.methods[1]? = some ⟨⟨0x0001⟩, 6, 7, [⟨18, [7]⟩]⟩ ∧
      Member.hasBody ⟨⟨0x0001⟩, 6, 7, [⟨18, [7]⟩]⟩ danglingName.pool = false ∧
      danglingNameStub.methods[1]? ≠ some ⟨⟨0x0001⟩, 6, 7, [⟨18, [7]⟩]⟩ :=
  ⟨decode_danglingNameBytes, stub_danglingName, rfl, by decide, by decide⟩

end ClassFile

end ClassStub
