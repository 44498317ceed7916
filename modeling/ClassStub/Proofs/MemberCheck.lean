import Mathlib.Data.List.Induction
import ClassStub.Defect
import ClassStub.Proofs.PoolCheck

/-!
# What the checks of fields and methods find

The checks go through the members of a class one after the other, and through the attributes of
each method, and keep in mind what they have seen. Here they are stated without this order. The
scan of the attributes ends with a description of all of them
(`AttributeScan.foldlM_next_eq_ok_iff`). So the fields and the methods of a class pass exactly
when each of them is sound and no two have the same name and descriptor
(`ClassFile.checkFields_eq_ok_iff`, `ClassFile.checkMethods_eq_ok_iff`). In particular a method
that passes has no `Code` attribute if it may not have a body, and else exactly one
(`Member.HasSoundCode`).
-/

namespace ClassStub

variable {pool : ConstantPool} {c : ClassFile}

/-! ### Fields -/

/-- A text is there if it can be read. -/
theorem ConstantPool.expectText_eq_ok_iff {index : UInt16} {text : String} :
    pool.expectText index = .ok text ↔ pool.utf8 index = .ok text := by
  rw [utf8_eq_ok_iff, expectText]
  split <;> simp_all

namespace ClassFile

/-- What the check finds in a field with a key, its name and its descriptor. -/
structure IsSoundField (c : ClassFile) (field : Member) (key : String × String) : Prop where
  flags : field.access.isValidOnField c.isInterface = true
  name : field.name c.pool = .ok key.1
  descriptor : field.descriptor c.pool = .ok key.2

private theorem checkField_eq_ok_iff {field : Member} {key : String × String} :
    c.checkField field = .ok key ↔ c.IsSoundField field key := by
  rw [checkField]
  simp only [bind_eq_ok_iff, mapError_eq_ok_iff, ConstantPool.expectText_eq_ok_iff]
  constructor
  · rintro ⟨name, hname, descriptor, hdescriptor, hflags⟩
    split at hflags
    case isFalse => exact nomatch hflags
    case isTrue hvalid =>
      obtain rfl := pure_eq_ok_iff.1 hflags
      exact ⟨hvalid, hname, hdescriptor⟩
  · intro h
    refine ⟨key.1, h.name, key.2, h.descriptor, ?_⟩
    rw [if_pos h.flags]
    rfl

/-- The fields of a class pass the check when each of them is sound and no two share their name
and their descriptor. -/
theorem checkFields_eq_ok_iff :
    c.checkFields = .ok () ↔
      ∃ keys, List.Forall₂ c.IsSoundField c.fields keys ∧ keys.Nodup := by
  rw [checkFields, keyed_eq_ok_iff c.IsSoundField (fun _ => rfl) ?_]
  · simp only [Std.HashSet.contains_empty, Bool.false_eq_true, not_false_eq_true, implies_true,
      and_true]
  · intro seen field fields
    rw [checkFieldsFrom, bind_eq_ok_iff]
    simp only [throw_if_eq_ok_iff, checkField_eq_ok_iff]

end ClassFile

/-! ### Declared exceptions -/

private theorem ConstantPool.checkExceptions_eq_ok_iff {indices : List UInt16} :
    pool.checkExceptions ∅ indices = .ok () ↔ indices.Nodup ∧
      ∀ index ∈ indices, (pool.get? index).any Constant.isClassRef = true := by
  rw [keyed_eq_ok_iff
    (fun index key => index = key ∧ (pool.get? index).any Constant.isClassRef = true)
    (fun _ => rfl) ?_]
  · constructor
    · rintro ⟨keys, hkeys, hnodup, -⟩
      -- each index is its own key
      obtain rfl : indices = keys := by
        rw [← List.forall₂_eq_eq_eq]
        exact hkeys.imp fun index key h => h.1
      exact ⟨hnodup, fun index hmem => (List.forall₂_same.1 hkeys index hmem).2⟩
    · rintro ⟨hnodup, hclasses⟩
      exact ⟨indices, List.forall₂_same.2 fun index hmem => ⟨rfl, hclasses index hmem⟩, hnodup,
        by simp⟩
  · intro seen index rest
    rw [checkExceptions, throw_if_eq_ok_iff, bind_unit_eq_ok_iff, mapError_eq_ok_iff,
      expect_eq_ok_iff]
    constructor
    · rintro ⟨hfresh, hclass, hrest⟩
      exact ⟨index, ⟨rfl, hclass⟩, hfresh, hrest⟩
    · rintro ⟨_, ⟨rfl, hclass⟩, hfresh, hrest⟩
      exact ⟨hfresh, hclass, hrest⟩

/-- The payload lists different classes of the pool. -/
def Attribute.ListsClasses (pool : ConstantPool) (attr : Attribute) : Prop :=
  ∃ indices, decodeExceptions attr.info = .ok indices ∧ indices.Nodup ∧
    ∀ index ∈ indices, (pool.get? index).any Constant.isClassRef = true

/-! ### The scan of attributes -/

namespace AttributeScan

/-- The attributes that are named `Code`: none, or one that holds the payload. -/
def Describes (pool : ConstantPool) (attributes : List Attribute) :
    Option CodePayload → Prop
  | none => attributes.filter (·.isNamed pool Attribute.codeName) = []
  | some payload => ∃ attr, attributes.filter (·.isNamed pool Attribute.codeName) = [attr] ∧
      CodePayload.decode attr.info = .ok payload

/-- The attributes that are named `Exceptions`: none, or one that lists different classes. -/
def DescribesExceptions (pool : ConstantPool) (attributes : List Attribute) : Bool → Prop
  | false => attributes.filter (·.isNamed pool Attribute.exceptionsName) = []
  | true => ∃ attr, attributes.filter (·.isNamed pool Attribute.exceptionsName) = [attr] ∧
      attr.ListsClasses pool

/-- What the scan holds describes the attributes. -/
@[mk_iff reads_iff]
structure Reads (pool : ConstantPool) (attributes : List Attribute) (scan : AttributeScan) :
    Prop where
  code : Describes pool attributes scan.code
  exceptions : DescribesExceptions pool attributes scan.hasExceptions

variable {method : String} {scan after : AttributeScan} {attr : Attribute}
  {read : List Attribute}

private theorem describes_append_of_isNamed {found : Option CodePayload}
    (hcode : attr.isNamed pool Attribute.codeName = true) :
    Describes pool (read ++ [attr]) found ↔ Describes pool read none ∧ ∃ payload,
      CodePayload.decode attr.info = .ok payload ∧ some payload = found := by
  cases found <;>
    simp [Describes, List.filter_append, hcode, List.append_eq_singleton_iff, and_assoc]

private theorem describes_append_of_not_isNamed {found : Option CodePayload}
    (hcode : attr.isNamed pool Attribute.codeName = false) :
    Describes pool (read ++ [attr]) found ↔ Describes pool read found := by
  cases found <;> simp [Describes, List.filter_append, hcode]

private theorem describesExceptions_append_of_isNamed {found : Bool}
    (hexceptions : attr.isNamed pool Attribute.exceptionsName = true) :
    DescribesExceptions pool (read ++ [attr]) found ↔
      DescribesExceptions pool read false ∧ attr.ListsClasses pool ∧ true = found := by
  cases found <;>
    simp [DescribesExceptions, List.filter_append, hexceptions,
      List.append_eq_singleton_iff, and_assoc]

private theorem describesExceptions_append_of_not_isNamed {found : Bool}
    (hexceptions : attr.isNamed pool Attribute.exceptionsName = false) :
    DescribesExceptions pool (read ++ [attr]) found ↔ DescribesExceptions pool read found := by
  cases found <;> simp [DescribesExceptions, List.filter_append, hexceptions]

private theorem next_eq_ok_iff_of_code (hcode : attr.isNamed pool Attribute.codeName = true) :
    next pool method scan attr = .ok after ↔ scan.code = none ∧ ∃ payload,
      CodePayload.decode attr.info = .ok payload ∧ ⟨some payload, scan.hasExceptions⟩ = after := by
  rw [next, if_pos hcode, throw_if_eq_ok_iff, Option.not_isSome_iff_eq_none]
  simp only [bind_eq_ok_iff, mapError_eq_ok_iff, pure_eq_ok_iff]

private theorem next_eq_ok_iff_of_exceptions (hcode : attr.isNamed pool Attribute.codeName = false)
    (hexceptions : attr.isNamed pool Attribute.exceptionsName = true) :
    next pool method scan attr = .ok after ↔ scan.hasExceptions = false ∧
      attr.ListsClasses pool ∧ ⟨scan.code, true⟩ = after := by
  rw [next, if_neg (by simp [hcode]), if_pos hexceptions, throw_if_eq_ok_iff, Bool.not_eq_true,
    bind_eq_ok_iff, Attribute.ListsClasses]
  refine and_congr_right fun _ => ?_
  simp only [bind_unit_eq_ok_iff, mapError_eq_ok_iff, pure_eq_ok_iff,
    ConstantPool.checkExceptions_eq_ok_iff]
  constructor
  · rintro ⟨indices, hdecode, hclasses, hafter⟩
    exact ⟨⟨indices, hdecode, hclasses⟩, hafter⟩
  · rintro ⟨⟨indices, hdecode, hclasses⟩, hafter⟩
    exact ⟨indices, hdecode, hclasses, hafter⟩

private theorem next_eq_ok_iff_of_other (hcode : attr.isNamed pool Attribute.codeName = false)
    (hexceptions : attr.isNamed pool Attribute.exceptionsName = false) :
    next pool method scan attr = .ok after ↔ scan = after := by
  rw [next, if_neg (by simp [hcode]), if_neg (by simp [hexceptions]), pure_eq_ok_iff]

/-- One more attribute: the attributes with it are described by what the scan makes of a
description of those before it. -/
private theorem reads_append_singleton_iff (method : String) :
    Reads pool (read ++ [attr]) after ↔
      ∃ scan, Reads pool read scan ∧ next pool method scan attr = .ok after := by
  -- an attribute that is one of the two cannot be the other as well
  cases hcode : attr.isNamed pool Attribute.codeName with
  | true =>
    have hexceptions : attr.isNamed pool Attribute.exceptionsName = false :=
      Attribute.isNamed_eq_false hcode (by decide)
    simp only [reads_iff, next_eq_ok_iff_of_code hcode, describes_append_of_isNamed hcode,
      describesExceptions_append_of_not_isNamed hexceptions]
    constructor
    · rintro ⟨⟨hread, payload, hdecode, hfound⟩, hothers⟩
      exact ⟨⟨none, after.hasExceptions⟩, ⟨hread, hothers⟩, rfl, payload, hdecode, by rw [hfound]⟩
    · rintro ⟨scan, ⟨hread, hothers⟩, hnone, payload, hdecode, rfl⟩
      rw [hnone] at hread
      exact ⟨⟨hread, payload, hdecode, rfl⟩, hothers⟩
  | false =>
    cases hexceptions : attr.isNamed pool Attribute.exceptionsName with
    | true =>
      simp only [reads_iff, next_eq_ok_iff_of_exceptions hcode hexceptions,
        describes_append_of_not_isNamed hcode, describesExceptions_append_of_isNamed hexceptions]
      constructor
      · rintro ⟨hread, hothers, hlists, hfound⟩
        exact ⟨⟨after.code, false⟩, ⟨hread, hothers⟩, rfl, hlists, by rw [hfound]⟩
      · rintro ⟨scan, ⟨hread, hothers⟩, hfalse, hlists, rfl⟩
        rw [hfalse] at hothers
        exact ⟨hread, hothers, hlists, rfl⟩
    | false =>
      simp only [reads_iff, next_eq_ok_iff_of_other hcode hexceptions,
        describes_append_of_not_isNamed hcode,
        describesExceptions_append_of_not_isNamed hexceptions, exists_eq_right]

/-- All attributes: the scan succeeds with their description, if they have one. -/
theorem foldlM_next_eq_ok_iff {attributes : List Attribute} :
    attributes.foldlM (next pool method) ⟨none, false⟩ = .ok scan ↔
      Reads pool attributes scan := by
  induction attributes using List.reverseRecOn generalizing scan with
  | nil =>
    rw [List.foldlM_nil, pure_eq_ok_iff, reads_iff]
    obtain ⟨code, hasExceptions⟩ := scan
    cases code <;> cases hasExceptions <;> simp [Describes, DescribesExceptions]
  | append_singleton attributes attr ih =>
    rw [List.foldlM_append, bind_eq_ok_iff, reads_append_singleton_iff method]
    simp only [ih, List.foldlM_cons, List.foldlM_nil, bind_pure]

end AttributeScan

/-! ### Methods -/

namespace Member

variable {method : Member} {descriptor : String}

/-- What the check finds in code: it is neither empty nor too long, there is a stack if it ends
in a throw, the local slots hold what the descriptor and the receiver need, and all handlers are
for parts of it. -/
structure FitsCode (method : Member) (descriptor : String) (payload : CodePayload) : Prop where
  length_ne : payload.code.length ≠ 0
  length_le : payload.code.length ≤ 65535
  throws : payload.code.getLast? = some Opcode.athrow.code → payload.maxStack ≠ 0
  locals : ∃ slots, parameterSlots descriptor = .ok slots ∧
    slots + method.receiverSlots ≤ payload.maxLocals.toNat
  handlers : ∀ range ∈ payload.handlers, range.isWithin payload.code.length = true

/-- A body passes its check if it fits its method. -/
theorem checkCode_eq_ok_iff {payload : CodePayload} :
    method.checkCode descriptor payload = .ok () ↔ method.FitsCode descriptor payload := by
  rw [checkCode]
  simp only [throw_if_eq_ok_iff, throw_if_last_eq_ok_iff, bind_eq_ok_iff, mapError_eq_ok_iff,
    not_or, not_and, Nat.not_lt, Bool.not_eq_true', Bool.not_eq_false, List.all_eq_true]
  constructor
  · rintro ⟨⟨hne, hle⟩, hthrows, slots, hslots, hlocals, hhandlers⟩
    exact ⟨hne, hle, hthrows, ⟨slots, hslots, hlocals⟩, hhandlers⟩
  · rintro ⟨hne, hle, hthrows, ⟨slots, hslots, hlocals⟩, hhandlers⟩
    exact ⟨⟨hne, hle⟩, hthrows, slots, hslots, hlocals, hhandlers⟩

/-- The method has no attribute named `Code` where it may not have a body, and else exactly one,
which can be read. -/
def HasSoundCode (pool : ConstantPool) (method : Member) : Prop :=
  (method.isBodiless = true ∧
    method.attributes.filter (·.isNamed pool Attribute.codeName) = []) ∨
  (method.isBodiless = false ∧ ∃ attr payload,
    method.attributes.filter (·.isNamed pool Attribute.codeName) = [attr] ∧
      CodePayload.decode attr.info = .ok payload)

/-- The method has no attribute named `Code` where it may not have a body, and else exactly one,
with code that fits the descriptor. -/
def HasFittingCode (pool : ConstantPool) (method : Member) (descriptor : String) : Prop :=
  (method.isBodiless = true ∧
    method.attributes.filter (·.isNamed pool Attribute.codeName) = []) ∨
  (method.isBodiless = false ∧ ∃ attr payload,
    method.attributes.filter (·.isNamed pool Attribute.codeName) = [attr] ∧
      CodePayload.decode attr.info = .ok payload ∧ method.FitsCode descriptor payload)

private theorem HasFittingCode.hasSoundCode (h : method.HasFittingCode pool descriptor) :
    method.HasSoundCode pool := by
  rcases h with hnone | ⟨hbodiless, attr, payload, hfilter, hdecode, -⟩
  · exact .inl hnone
  · exact .inr ⟨hbodiless, attr, payload, hfilter, hdecode⟩

/-- The method has at most one attribute named `Exceptions`, which lists different classes. -/
def HasSoundExceptions (pool : ConstantPool) (method : Member) : Prop :=
  ∃ found, AttributeScan.DescribesExceptions pool method.attributes found

/-- The attributes of a method pass their check if its exceptions are sound and its code fits. -/
theorem checkAttributes_eq_ok_iff {name : String} :
    method.checkAttributes pool name descriptor = .ok () ↔
      method.HasSoundExceptions pool ∧ method.HasFittingCode pool descriptor := by
  rw [checkAttributes, bind_eq_ok_iff]
  simp only [AttributeScan.foldlM_next_eq_ok_iff]
  constructor
  · rintro ⟨scan, ⟨hcode, hexceptions⟩, hcheck⟩
    refine ⟨⟨_, hexceptions⟩, ?_⟩
    split at hcheck
    case h_1 => exact nomatch hcheck
    case h_2 hbodiless hnone =>
      rw [hnone] at hcode
      exact .inl ⟨hbodiless, hcode⟩
    case h_3 => exact nomatch hcheck
    case h_4 payload hbodiless hsome =>
      rw [hsome] at hcode
      obtain ⟨attr, hfilter, hdecode⟩ := hcode
      rw [mapError_eq_ok_iff, checkCode_eq_ok_iff] at hcheck
      exact .inr ⟨hbodiless, attr, payload, hfilter, hdecode, hcheck⟩
  · rintro ⟨⟨found, hexceptions⟩, ⟨hbodiless, hnone⟩ |
      ⟨hbodiless, attr, payload, hfilter, hdecode, hfits⟩⟩
    · refine ⟨⟨none, found⟩, ⟨hnone, hexceptions⟩, ?_⟩
      rw [hbodiless]
      rfl
    · refine ⟨⟨some payload, found⟩, ⟨⟨attr, hfilter, hdecode⟩, hexceptions⟩, ?_⟩
      rw [hbodiless]
      exact mapError_eq_ok_iff.2 (checkCode_eq_ok_iff.2 hfits)

end Member

namespace ClassFile

/-- What the check finds in a method with a key, its name and its descriptor: valid flags, sound
attributes, and not the helper in an interface. -/
structure IsSoundMethod (c : ClassFile) (method : Member) (key : String × String) : Prop where
  flags : method.access.isValidOnMethod c.isInterface = true
  name : method.name c.pool = .ok key.1
  descriptor : method.descriptor c.pool = .ok key.2
  notHelper : c.isInterface = true → key ≠ (Helper.name, Helper.descriptor)
  exceptions : method.HasSoundExceptions c.pool
  code : method.HasFittingCode c.pool key.2

private theorem checkMethodHeader_eq_ok_iff {method : Member} {key : String × String} :
    c.checkMethodHeader method = .ok key ↔ method.access.isValidOnMethod c.isInterface = true ∧
      method.name c.pool = .ok key.1 ∧ method.descriptor c.pool = .ok key.2 := by
  rw [checkMethodHeader, throw_if_eq_ok_iff]
  simp only [bind_eq_ok_iff, mapError_eq_ok_iff, ConstantPool.expectText_eq_ok_iff, pure_eq_ok_iff,
    Bool.not_eq_true', Bool.not_eq_false]
  refine and_congr_right fun _ => ?_
  constructor
  · rintro ⟨name, hname, descriptor, hdescriptor, rfl⟩
    exact ⟨hname, hdescriptor⟩
  · rintro ⟨hname, hdescriptor⟩
    exact ⟨key.1, hname, key.2, hdescriptor, rfl⟩

/-- A method is sound if it passes the checks of its header, its key, and its attributes. -/
theorem isSoundMethod_iff {method : Member} {key : String × String} :
    c.IsSoundMethod method key ↔ c.checkMethodHeader method = .ok key ∧
      ¬ (c.isInterface && key == (Helper.name, Helper.descriptor)) = true ∧
      method.checkAttributes c.pool key.1 key.2 = .ok () := by
  rw [checkMethodHeader_eq_ok_iff, Member.checkAttributes_eq_ok_iff, Bool.and_eq_true, beq_iff_eq,
    not_and]
  constructor
  · intro h
    exact ⟨⟨h.flags, h.name, h.descriptor⟩, h.notHelper, h.exceptions, h.code⟩
  · rintro ⟨⟨hflags, hname, hdescriptor⟩, hhelper, hexceptions, hcode⟩
    exact ⟨hflags, hname, hdescriptor, hhelper, hexceptions, hcode⟩

/-- Methods pass the check one after another. A key may not be seen twice. -/
theorem checkMethodsFrom_cons_eq_ok_iff {seen : Std.HashSet (String × String)} {method : Member}
    {methods : List Member} :
    c.checkMethodsFrom seen (method :: methods) = .ok () ↔ ∃ key,
      c.checkMethodHeader method = .ok key ∧ ¬ seen.contains key = true ∧
      ¬ (c.isInterface && key == (Helper.name, Helper.descriptor)) = true ∧
      method.checkAttributes c.pool key.1 key.2 = .ok () ∧
      c.checkMethodsFrom (seen.insert key) methods = .ok () := by
  rw [checkMethodsFrom, bind_eq_ok_iff]
  simp only [throw_if_eq_ok_iff, bind_unit_eq_ok_iff]

/-- The methods of a class pass the check when each of them is sound and no two share their name
and their descriptor. -/
theorem checkMethods_eq_ok_iff :
    c.checkMethods = .ok () ↔
      ∃ keys, List.Forall₂ c.IsSoundMethod c.methods keys ∧ keys.Nodup := by
  rw [checkMethods, keyed_eq_ok_iff c.IsSoundMethod (fun _ => rfl) ?_]
  · simp only [Std.HashSet.contains_empty, Bool.false_eq_true, not_false_eq_true, implies_true,
      and_true]
  · intro seen method methods
    rw [checkMethodsFrom_cons_eq_ok_iff]
    simp only [isSoundMethod_iff]
    constructor
    · rintro ⟨key, hheader, hfresh, hhelper, hattributes, hrest⟩
      exact ⟨key, ⟨hheader, hhelper, hattributes⟩, hfresh, hrest⟩
    · rintro ⟨key, ⟨hheader, hhelper, hattributes⟩, hfresh, hrest⟩
      exact ⟨key, hheader, hfresh, hhelper, hattributes, hrest⟩

/-- What the check of a method finds in it: sound code, and not the helper in an interface. -/
structure HasSoundMethod (c : ClassFile) (method : Member) : Prop where
  code : method.HasSoundCode c.pool
  notHelper : c.isInterface = true →
    method.isDeclaredAs c.pool Helper.name Helper.descriptor = false

private theorem IsSoundMethod.hasSoundMethod {method : Member} {key : String × String}
    (h : c.IsSoundMethod method key) : c.HasSoundMethod method where
  code := h.code.hasSoundCode
  notHelper hinterface := by
    rw [Bool.eq_false_iff, Ne, Member.isDeclaredAs_iff, h.name, h.descriptor, Except.ok.injEq,
      Except.ok.injEq]
    intro hkey
    exact h.notHelper hinterface (Prod.ext hkey.1 hkey.2)

/-- A class passes the check when it passes each of its parts. -/
theorem check_eq_ok_iff :
    c.check = .ok () ↔ c.checkPool = .ok () ∧ c.isClassIndex c.thisClass = true ∧
      c.hasValidFlags = true ∧ c.hasValidSuperClass = true ∧ c.checkInterfaces = .ok () ∧
      c.checkFields = .ok () ∧ c.checkMethods = .ok () := by
  rw [check]
  simp only [bind_unit_eq_ok_iff, throw_if_eq_ok_iff, mapError_eq_ok_iff, Bool.not_eq_true',
    Bool.not_eq_false]

/-- Each method of a class without defects is sound. -/
theorem hasSoundMethod_of_check (hcheck : c.check = .ok ()) :
    ∀ method ∈ c.methods, c.HasSoundMethod method := by
  obtain ⟨-, -, -, -, -, -, hmethods⟩ := check_eq_ok_iff.1 hcheck
  obtain ⟨keys, hkeys, -⟩ := checkMethods_eq_ok_iff.1 hmethods
  exact ((List.forall₂_and_left _ _).1 (hkeys.imp fun _ _ h => ⟨h.hasSoundMethod, h⟩)).1

end ClassFile

end ClassStub
