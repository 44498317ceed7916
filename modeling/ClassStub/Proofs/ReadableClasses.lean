import ClassStub.Proofs.MemberCheck
import ClassStub.Proofs.StubFormat

/-!
# Defects that reading rules out

Reading a class lays out the slots of its pool and looks up the names that the class refers to. The
check of the class looks at the same slots and indices once more. So there are defects that it never
reports of a class that was read, and, because a stub keeps what can be read from its class, never
of a stub either: a slot out of place, an index of a class that belongs to none, a name or a
descriptor that is none (`ClassFile.keepsReaderRules_of_decode`).

Two of the defects look like these and are not ruled out. A superclass of zero is not looked up when
the class is read, and the check may refuse it. And reading leaves the payloads of attributes alone,
so the indices in an `Exceptions` attribute are seen by the check only.

The check reports the first defect it meets. What a class shows when a given defect is reported of
it is stated without this order (`ClassFile.shows_of_check`).
-/

namespace ClassStub

variable {pool : ConstantPool} {c o : ClassFile}

/-! ### What was read -/

private theorem ConstantPool.any_isClassRef_of_className {index : UInt16}
    (h : ∃ name, pool.className index = .ok name) :
    (pool.get? index).any Constant.isClassRef = true := by
  obtain ⟨name, hname⟩ := h
  obtain ⟨nameIndex, hget, -⟩ := className_eq_ok_iff.1 hname
  exact any_isClassRef_iff.2 ⟨nameIndex, hget⟩

/-- The name and the descriptor of the member can be read. -/
structure Member.HasReadableHeader (pool : ConstantPool) (member : Member) : Prop where
  name : ∃ name, member.name pool = .ok name
  descriptor : ∃ descriptor, member.descriptor pool = .ok descriptor

namespace ClassFile

/-- What reading looks at can be read: the slots of the pool are laid out well, and the class
itself, its superclass if it has one, its interfaces and its members have names. -/
structure IsReadable (c : ClassFile) : Prop where
  laidOut : LaidOut false c.pool.slots.toList
  thisClass : ∃ name, c.pool.className c.thisClass = .ok name
  superClass : c.superClass ≠ 0 → ∃ name, c.pool.className c.superClass = .ok name
  interfaces : ∀ index ∈ c.interfaces, ∃ name, c.pool.className index = .ok name
  fields : ∀ field ∈ c.fields, field.HasReadableHeader c.pool
  methods : ∀ method ∈ c.methods, method.HasReadableHeader c.pool

private theorem IsEncodable.isReadable (h : c.IsEncodable) : c.IsReadable where
  laidOut := h.pool.laidOut
  thisClass := h.thisClass
  superClass := h.superClass
  interfaces := h.interfaces
  fields field hmem := ⟨(h.fields field hmem).name, (h.fields field hmem).descriptor⟩
  methods method hmem := ⟨(h.methods method hmem).name, (h.methods method hmem).descriptor⟩

/-- The stub of a class that was read need not be one that can be read back, since it may have one
method too many. What reading looks at can be read in it all the same. -/
private theorem IsEncodable.isReadable_stub (h : c.IsEncodable) {policy : InitializerPolicy}
    (hstub : c.stub policy = .ok o) : o.IsReadable := by
  cases hmodule : c.isModule with
  | true =>
    rw [ClassFile.stub, if_pos hmodule, pure_eq_ok_iff] at hstub
    exact hstub ▸ h.isReadable
  | false =>
    have hgains := stub_gains hstub
    have hgrows := hgains.growsTo
    have hmethods := (isStub_of_stub hmodule h.pool.size_le hstub).isEncodable_methods h.methods
    obtain ⟨pool, methods, rfl⟩ : ∃ pool methods, o = { c with pool, methods } :=
      ⟨_, _, stub_eq hstub⟩
    exact {
      laidOut := hgains.laidOut h.pool.laidOut
      thisClass := h.thisClass.imp fun _ hname => hgrows.className hname
      superClass := fun hne => (h.superClass hne).imp fun _ hname => hgrows.className hname
      interfaces := fun index hmem =>
        (h.interfaces index hmem).imp fun _ hname => hgrows.className hname
      fields := fun field hmem =>
        have hfield := (h.fields field hmem).grow hgrows
        ⟨hfield.name, hfield.descriptor⟩
      methods := fun method hmem =>
        ⟨(hmethods method hmem).name, (hmethods method hmem).descriptor⟩ }

end ClassFile

/-! ### Defects of each part -/

/-- If a chain that begins with a text that can be read fails, it does so behind it. -/
private theorem ConstantPool.exists_of_expectText_bind_eq_error {ε α : Type} {index : UInt16}
    {f : IndexDefect → ε} {next : String → Except ε α} {error : ε}
    (hread : ∃ text, pool.utf8 index = .ok text)
    (h : ((pool.expectText index).mapError f >>= next) = .error error) :
    ∃ text, next text = .error error := by
  obtain ⟨text, htext⟩ := hread
  rw [expectText_eq_ok_iff.2 htext] at h
  exact ⟨text, h⟩

private theorem ConstantPool.checkEntry_eq_error {hasBootstrapMethods : Bool} {index : UInt16}
    {constant : Constant} {defect : PoolDefect}
    (h : pool.checkEntry hasBootstrapMethods index constant = .error defect) :
    defect = .bootstrapMethodsNotDefined ∨ ∃ found, defect = .reference found := by
  rw [checkEntry, throw_if_eq_error_iff] at h
  rcases h with ⟨-, rfl⟩ | ⟨-, h⟩
  · exact .inl rfl
  · obtain ⟨reference, -, hfailed⟩ := exists_of_forM_eq_error h
    obtain ⟨found, -, rfl⟩ := mapError_eq_error_iff.1 hfailed
    exact .inr ⟨found, rfl⟩

/-- The scan of the attributes of a method finds fault with an index in an attribute named
`Exceptions` only. -/
private theorem AttributeScan.isNamed_of_next_eq_error {method : String} {scan : AttributeScan}
    {attr : Attribute} {defect : IndexDefect}
    (h : next pool method scan attr = .error (.index defect)) :
    attr.isNamed pool Attribute.exceptionsName = true := by
  rw [next] at h
  split at h
  case isTrue =>
    simp only [throw_if_eq_error_iff, bind_eq_error_iff, mapError_eq_error_iff] at h
    rcases h with ⟨-, ⟨⟩⟩ | ⟨-, ⟨_, -, ⟨⟩⟩ | ⟨_, -, ⟨⟩⟩⟩
  case isFalse =>
    split at h
    case isTrue hexceptions => exact hexceptions
    case isFalse => cases h

namespace Member

variable {method : Member}

private theorem exists_isNamed_of_checkAttributes_eq_error {name descriptor : String}
    {defect : IndexDefect}
    (h : method.checkAttributes pool name descriptor = .error (.index defect)) :
    ∃ attr ∈ method.attributes, attr.isNamed pool Attribute.exceptionsName = true := by
  rw [checkAttributes, bind_eq_error_iff] at h
  rcases h with hscan | ⟨scan, -, hcode⟩
  · obtain ⟨attr, hmem, before, hnext⟩ := exists_of_foldlM_eq_error hscan
    exact ⟨attr, hmem, AttributeScan.isNamed_of_next_eq_error hnext⟩
  · -- what follows the scan does not look at indices
    split at hcode
    case h_4 =>
      obtain ⟨_, -, ⟨⟩⟩ := mapError_eq_error_iff.1 hcode
    all_goals cases hcode

end Member

namespace ClassFile

private theorem checkField_eq_error {field : Member} (hreadable : field.HasReadableHeader c.pool)
    {defect : FieldDefect} (h : c.checkField field = .error defect) :
    defect = .invalidFlags field.access := by
  obtain ⟨name, h⟩ := ConstantPool.exists_of_expectText_bind_eq_error hreadable.name h
  obtain ⟨descriptor, h⟩ := ConstantPool.exists_of_expectText_bind_eq_error hreadable.descriptor h
  split at h
  case isTrue => cases h
  case isFalse =>
    cases h
    rfl

private theorem checkFieldsFrom_ne_error {seen : Std.HashSet (String × String)}
    {fields : List Member}
    (hreadable : ∀ field ∈ fields, field.HasReadableHeader c.pool) (defect : IndexDefect) :
    c.checkFieldsFrom seen fields ≠ .error (.index defect) := by
  intro h
  induction fields generalizing seen with
  | nil => cases h
  | cons field fields ih =>
    rw [List.forall_mem_cons] at hreadable
    rw [checkFieldsFrom, bind_eq_error_iff] at h
    simp only [throw_if_eq_error_iff] at h
    rcases h with hfield | ⟨key, -, ⟨-, ⟨⟩⟩ | ⟨-, hrest⟩⟩
    · cases checkField_eq_error hreadable.1 hfield
    · exact ih hreadable.2 hrest

private theorem checkMethodHeader_eq_error {method : Member}
    (hreadable : method.HasReadableHeader c.pool) {defect : MethodDefect}
    (h : c.checkMethodHeader method = .error defect) : defect = .invalidFlags method.access := by
  rw [checkMethodHeader, throw_if_eq_error_iff] at h
  rcases h with ⟨-, rfl⟩ | ⟨-, h⟩
  · rfl
  · obtain ⟨name, h⟩ := ConstantPool.exists_of_expectText_bind_eq_error hreadable.name h
    obtain ⟨descriptor, h⟩ :=
      ConstantPool.exists_of_expectText_bind_eq_error hreadable.descriptor h
    cases h

private theorem exists_isNamed_of_checkMethodsFrom_eq_error {seen : Std.HashSet (String × String)}
    {methods : List Member} (hreadable : ∀ method ∈ methods, method.HasReadableHeader c.pool)
    {defect : IndexDefect} (h : c.checkMethodsFrom seen methods = .error (.index defect)) :
    ∃ method ∈ methods, ∃ attr ∈ method.attributes,
      attr.isNamed c.pool Attribute.exceptionsName = true := by
  induction methods generalizing seen with
  | nil => cases h
  | cons method methods ih =>
    rw [List.forall_mem_cons] at hreadable
    rw [checkMethodsFrom, bind_eq_error_iff] at h
    simp only [throw_if_eq_error_iff, bind_eq_error_iff] at h
    -- a duplicate and the helper in an interface are no defects of an index
    rcases h with hheader | ⟨key, -, ⟨-, ⟨⟩⟩ | ⟨-, ⟨-, ⟨⟩⟩ | ⟨-, hattributes | ⟨-, -, hrest⟩⟩⟩⟩
    · cases checkMethodHeader_eq_error hreadable.1 hheader
    · exact ⟨method, List.mem_cons_self,
        Member.exists_isNamed_of_checkAttributes_eq_error hattributes⟩
    · obtain ⟨other, hmem, hnamed⟩ := ih hreadable.2 hrest
      exact ⟨other, List.mem_cons_of_mem method hmem, hnamed⟩

private theorem checkPool_eq_error (hlaid : LaidOut false c.pool.slots.toList) {defect : PoolDefect}
    (h : c.checkPool = .error defect) :
    defect = .bootstrapMethodsNotDefined ∨ ∃ found, defect = .reference found := by
  rw [checkPool, bind_eq_error_iff, checkSlots_of_laidOut hlaid] at h
  rcases h with ⟨⟨⟩⟩ | ⟨-, -, hentries⟩
  obtain ⟨entry, -, hfailed⟩ := exists_of_forM_eq_error hentries
  exact ConstantPool.checkEntry_eq_error hfailed

/-! ### The first defect of a class -/

/-- The class shows the defect, whether or not it shows those that are looked for before it. -/
inductive Shows (c : ClassFile) : Defect → Prop
  | pool {defect : PoolDefect} (h : c.checkPool = .error defect) : Shows c (.pool defect)
  | thisClass (h : c.isClassIndex c.thisClass = false) : Shows c (.thisClass c.thisClass)
  | classFlags (h : c.hasValidFlags = false) : Shows c (.classFlags c.access)
  | superClass (h : c.hasValidSuperClass = false) : Shows c (.superClass c.superClass)
  | interfaces {defect : IndexDefect} (h : c.checkInterfaces = .error defect) :
    Shows c (.interfaces defect)
  | fields {defect : FieldDefect} (h : c.checkFields = .error defect) : Shows c (.fields defect)
  | methods {defect : MethodDefect} (h : c.checkMethods = .error defect) :
    Shows c (.methods defect)

/-- A defect of a class shows what is wrong with it. -/
theorem shows_of_check {defect : Defect} (h : c.check = .error defect) : c.Shows defect := by
  rw [check] at h
  simp only [bind_eq_error_iff, throw_if_eq_error_iff, mapError_eq_error_iff, Bool.not_eq_true',
    Bool.not_eq_false] at h
  rcases h with ⟨_, hpool, rfl⟩ | ⟨-, -, ⟨hthis, rfl⟩ | ⟨-, ⟨hflags, rfl⟩ | ⟨-, ⟨hsuper, rfl⟩ |
    ⟨-, ⟨_, hinterfaces, rfl⟩ | ⟨-, -, ⟨_, hfields, rfl⟩ | ⟨-, -, _, hmethods, rfl⟩⟩⟩⟩⟩⟩
  · exact .pool hpool
  · exact .thisClass hthis
  · exact .classFlags hflags
  · exact .superClass hsuper
  · exact .interfaces hinterfaces
  · exact .fields hfields
  · exact .methods hmethods

/-- What the check does not report of the class: a slot out of place, an index of the class, of its
superclass, or of one of its interfaces that belongs to no class, and an index of a name or a
descriptor that belongs to no text. Of a superclass it may report that there is none. Of a method
it may report an index if there is an attribute that lists indices. -/
structure KeepsReaderRules (c : ClassFile) : Prop where
  slots : ∀ slot, c.check ≠ .error (.pool (.misplacedUnusable slot))
  thisClass : ∀ index, c.check ≠ .error (.thisClass index)
  superClass : ∀ index, c.check = .error (.superClass index) → index = 0
  interfaces : ∀ defect, c.check ≠ .error (.interfaces defect)
  fields : ∀ defect, c.check ≠ .error (.fields (.index defect))
  methods : ∀ defect, c.check = .error (.methods (.index defect)) →
    ∃ method ∈ c.methods, ∃ attr ∈ method.attributes,
      attr.isNamed c.pool Attribute.exceptionsName = true

private theorem IsReadable.keepsReaderRules (h : c.IsReadable) : c.KeepsReaderRules where
  slots slot hcheck := by
    cases shows_of_check hcheck with
    | pool hpool => rcases checkPool_eq_error h.laidOut hpool with ⟨⟨⟩⟩ | ⟨_, ⟨⟩⟩
  thisClass index hcheck := by
    cases shows_of_check hcheck with
    | thisClass hthis =>
      rw [isClassIndex, ConstantPool.any_isClassRef_of_className h.thisClass] at hthis
      exact nomatch hthis
  superClass index hcheck := by
    cases shows_of_check hcheck with
    | superClass hsuper =>
      by_contra hne
      rw [hasValidSuperClass, if_neg hne, isClassIndex,
        ConstantPool.any_isClassRef_of_className (h.superClass hne)] at hsuper
      exact nomatch hsuper
  interfaces defect hcheck := by
    have hok : c.checkInterfaces = .ok () := forM_eq_ok_iff.2 fun index hmem =>
      ConstantPool.expect_eq_ok_iff.2
        (ConstantPool.any_isClassRef_of_className (h.interfaces index hmem))
    cases shows_of_check hcheck with
    | interfaces hinterfaces => exact nomatch hok.symm.trans hinterfaces
  fields defect hcheck := by
    cases shows_of_check hcheck with
    | fields hfields => exact checkFieldsFrom_ne_error h.fields defect hfields
  methods defect hcheck := by
    cases shows_of_check hcheck with
    | methods hmethods => exact exists_isNamed_of_checkMethodsFrom_eq_error h.methods hmethods

/-- **What was read passes the reader's part of the check.** Of a class that was read from its
bytes, and of any stub of it, the check never reports a slot out of place, the index of the class,
an index of the superclass other than zero, an interface, or an index of a field. It reports an
index of a method only if some method has an attribute named `Exceptions`. -/
theorem keepsReaderRules_of_decode {bytes : Bytes} (hdecode : decode bytes = .ok c) :
    c.KeepsReaderRules ∧ ∀ policy o, c.stub policy = .ok o → o.KeepsReaderRules := by
  have hencodable := (decode_eq_ok_iff.1 hdecode).1
  refine ⟨hencodable.isReadable.keepsReaderRules, fun policy o hstub => ?_⟩
  exact (hencodable.isReadable_stub hstub).keepsReaderRules

/-- A class that was not read may show what reading rules out. -/
example : empty.check = .error (.thisClass 0) := by decide +kernel

/-- The class `greeter` with an abstract method that declares a text among its exceptions. -/
def misdeclaring : ClassFile :=
  { greeter with
    pool := greeter.pool.append (.utf8 Attribute.exceptionsName)
    methods := [⟨⟨0x0401⟩, 6, 7, [⟨8, [0, 1, 0, 1]⟩]⟩] }

private theorem checkMethods_misdeclaring :
    misdeclaring.checkMethods = .error (.index (.wrongType 1)) := by
  have hheader : misdeclaring.checkMethodHeader ⟨⟨0x0401⟩, 6, 7, [⟨8, [0, 1, 0, 1]⟩]⟩ =
      .ok ("greet", "(IJ)V") := by decide +kernel
  have hexceptions : misdeclaring.pool.checkExceptions ∅ [1] =
      .error (.index (.wrongType 1)) := by
    rw [ConstantPool.checkExceptions]
    refine throw_if_eq_error_iff.2 (.inr ⟨by simp, bind_eq_error_iff.2 (.inl ?_)⟩)
    decide +kernel
  have hnext : AttributeScan.next misdeclaring.pool "greet" ⟨none, false⟩ ⟨8, [0, 1, 0, 1]⟩ =
      .error (.index (.wrongType 1)) := by
    rw [AttributeScan.next, if_neg (by decide), if_pos (by decide)]
    exact bind_eq_error_iff.2
      (.inr ⟨[1], by decide +kernel, bind_eq_error_iff.2 (.inl hexceptions)⟩)
  have hattributes : (Member.mk ⟨0x0401⟩ 6 7 [⟨8, [0, 1, 0, 1]⟩]).checkAttributes
      misdeclaring.pool "greet" "(IJ)V" = .error (.index (.wrongType 1)) :=
    bind_eq_error_iff.2 (.inl (bind_eq_error_iff.2 (.inl hnext)))
  refine bind_eq_error_iff.2 (.inr ⟨_, hheader, ?_⟩)
  refine throw_if_eq_error_iff.2 (.inr ⟨by simp, ?_⟩)
  exact throw_if_eq_error_iff.2 (.inr ⟨by decide, bind_eq_error_iff.2 (.inl hattributes)⟩)

private theorem check_misdeclaring :
    misdeclaring.check = .error (.methods (.index (.wrongType 1))) := by
  have hpool : misdeclaring.checkPool = .ok () := by decide +kernel
  rw [check, hpool, checkMethods_misdeclaring]
  decide +kernel

/-- The index of an exception is not looked up when a class is read, so it is left to the check. -/
theorem keepsReaderRules_of_decode_misdeclaring :
    decode misdeclaring.encode = .ok misdeclaring ∧ misdeclaring.KeepsReaderRules ∧
      misdeclaring.check = .error (.methods (.index (.wrongType 1))) ∧
      ∃ o, misdeclaring.stub .stub = .ok o ∧ o.KeepsReaderRules := by
  have hdecode : decode misdeclaring.encode = .ok misdeclaring := by decide +kernel
  have hcheck := check_misdeclaring
  have hstubbed : (misdeclaring.stub .stub).toOption.isSome = true := by decide +kernel
  obtain ⟨o, hstub⟩ := Option.isSome_iff_exists.1 hstubbed
  rw [toOption_eq_some_iff] at hstub
  obtain ⟨hclass, hstubs⟩ := keepsReaderRules_of_decode hdecode
  exact ⟨hdecode, hclass, hcheck, o, hstub, hstubs .stub o hstub⟩

end ClassFile

end ClassStub
