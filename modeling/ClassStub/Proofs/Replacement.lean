import ClassStub.Member
import ClassStub.Proofs.Interning

/-!
# Replacing the body of a method

A method may have several attributes that are named `Code`, and attributes whose name cannot be
read. Replacing the body changes the payload of the first `Code` attribute and nothing else
(`Member.replaceCode_eq`). Names are looked up in the pool, which may have grown in between: an
attribute keeps its name unless that name was appended (`Attribute.isNamed_of_growsTo`).
-/

namespace ClassStub

variable {pool grown : ConstantPool} {texts : List String}

/-! ### Names in a grown pool -/

namespace Attribute

/-- An attribute has a name if this is the text at its name index. -/
theorem isNamed_iff {attr : Attribute} {name : String} :
    attr.isNamed pool name = true ↔ attr.name pool = .ok name := by
  rw [isNamed]
  split
  case h_1 found hfound => rw [hfound, beq_iff_eq, Except.ok.injEq]
  case h_2 error hfound => rw [hfound]; simp

/-- An attribute has one name at most. -/
theorem isNamed_eq_false {attr : Attribute} {name other : String}
    (hnamed : attr.isNamed pool name = true) (hne : other ≠ name) :
    attr.isNamed pool other = false := by
  rw [isNamed_iff] at hnamed
  rw [Bool.eq_false_iff, Ne, isNamed_iff, hnamed, Except.ok.injEq]
  exact hne.symm

/-- A name that was not appended is the name of the same attributes as before. -/
theorem isNamed_of_growsTo (h : pool.GrowsTo texts grown) {name : String} (hnot : name ∉ texts)
    (attr : Attribute) : attr.isNamed grown name = attr.isNamed pool name := by
  rw [Bool.eq_iff_iff, isNamed_iff, isNamed_iff]
  exact ⟨h.utf8_of_not_mem hnot, h.utf8⟩

/-- Within the pool, names are what they were. -/
theorem isNamed_of_le (h : pool.GrowsTo texts grown) {attr : Attribute}
    (hle : attr.nameIndex.toNat ≤ pool.size) (name : String) :
    attr.isNamed grown name = attr.isNamed pool name := by
  rw [Bool.eq_iff_iff, isNamed_iff, isNamed_iff, Attribute.name, Attribute.name,
    ConstantPool.utf8_eq_ok_iff, ConstantPool.utf8_eq_ok_iff, h.get?_of_le hle]

/-- The signature is the same in a later pool, unless its attribute's name was appended. -/
theorem findSignature_of_growsTo (h : pool.GrowsTo texts grown) (hnot : signatureName ∉ texts)
    {attributes : List Attribute} {signature : Option String}
    (hok : findSignature attributes pool = .ok signature) :
    findSignature attributes grown = .ok signature := by
  rw [findSignature] at hok ⊢
  rw [funext (isNamed_of_growsTo h hnot)]
  split at hok
  case h_2 => exact hok
  case h_1 attr _ =>
    obtain ⟨index, hdecode, hok⟩ := bind_eq_ok_iff.1 hok
    obtain ⟨text, htext, hpure⟩ := bind_eq_ok_iff.1 hok
    rw [mapError_eq_ok_iff] at htext
    refine bind_eq_ok_iff.2 ⟨index, hdecode, bind_eq_ok_iff.2 ⟨text, ?_, hpure⟩⟩
    exact mapError_eq_ok_iff.2 (h.utf8 htext)

end Attribute

namespace Member

/-- The declared exceptions are the same in a later pool, unless their attribute's name was
appended. -/
theorem exceptions_of_growsTo (h : pool.GrowsTo texts grown)
    (hnot : Attribute.exceptionsName ∉ texts) {method : Member} {names : List String}
    (hok : method.exceptions pool = .ok names) : method.exceptions grown = .ok names := by
  rw [exceptions] at hok ⊢
  rw [funext (Attribute.isNamed_of_growsTo h hnot)]
  obtain ⟨lists, hlists, hpure⟩ := bind_eq_ok_iff.1 hok
  refine bind_eq_ok_iff.2 ⟨lists, mapM_eq_ok_iff.2 ?_, hpure⟩
  refine (mapM_eq_ok_iff.1 hlists).imp fun attr names hattr => ?_
  obtain ⟨indices, hdecode, hnames⟩ := bind_eq_ok_iff.1 hattr
  refine bind_eq_ok_iff.2 ⟨indices, hdecode, mapM_eq_ok_iff.2 ?_⟩
  refine (mapM_eq_ok_iff.1 hnames).imp fun index name hname => ?_
  rw [mapError_eq_ok_iff] at hname ⊢
  exact h.className hname

/-- A member is declared by its name and its descriptor, and both must resolve. -/
theorem isDeclaredAs_iff {member : Member} {name descriptor : String} :
    member.isDeclaredAs pool name descriptor = true ↔
      member.name pool = .ok name ∧ member.descriptor pool = .ok descriptor := by
  rw [isDeclaredAs]
  split
  case h_1 hname hdescriptor =>
    rw [hname, hdescriptor, Bool.and_eq_true, beq_iff_eq, beq_iff_eq, Except.ok.injEq,
      Except.ok.injEq]
  case h_2 hother =>
    constructor
    · intro h
      exact nomatch h
    · rintro ⟨hname, hdescriptor⟩
      exact absurd hdescriptor (hother name descriptor hname)

private theorem codePosition?_of_growsTo (h : pool.GrowsTo texts grown)
    (hnot : Attribute.codeName ∉ texts) (method : Member) :
    method.codePosition? grown = method.codePosition? pool := by
  rw [codePosition?, funext (Attribute.isNamed_of_growsTo h hnot), codePosition?]

/-- Whether a method has a body does not change as long as no text `Code` is appended. -/
theorem hasBody_of_growsTo (h : pool.GrowsTo texts grown) (hnot : Attribute.codeName ∉ texts)
    (method : Member) : method.hasBody grown = method.hasBody pool := by
  rw [hasBody, codePosition?_of_growsTo h hnot, hasBody]

/-- The same attribute is replaced in a later pool as long as no text `Code` is appended. -/
theorem replaceCode_of_growsTo (h : pool.GrowsTo texts grown)
    (hnot : Attribute.codeName ∉ texts) (method : Member) (payload : CodePayload) :
    method.replaceCode grown payload = method.replaceCode pool payload := by
  rw [replaceCode, codePosition?_of_growsTo h hnot, replaceCode]

/-! ### The replaced attribute -/

@[simp] theorem access_replaceCode (method : Member) (payload : CodePayload) :
    (method.replaceCode pool payload).access = method.access := by
  rw [replaceCode]
  split <;> rfl

@[simp] theorem name_replaceCode (method : Member) (payload : CodePayload) :
    (method.replaceCode pool payload).name = method.name := by
  rw [replaceCode]
  split <;> rfl

@[simp] theorem descriptor_replaceCode (method : Member) (payload : CodePayload) :
    (method.replaceCode pool payload).descriptor = method.descriptor := by
  rw [replaceCode]
  split <;> rfl

@[simp] theorem isBodiless_replaceCode (method : Member) (payload : CodePayload) :
    (method.replaceCode pool payload).isBodiless = method.isBodiless := by
  rw [isBodiless, access_replaceCode, isBodiless]

@[simp] theorem receiverSlots_replaceCode (method : Member) (payload : CodePayload) :
    (method.replaceCode pool payload).receiverSlots = method.receiverSlots := by
  rw [receiverSlots, access_replaceCode, receiverSlots]

/-- The first `Code` attribute stands behind attributes of other names. -/
theorem exists_split_of_codePosition? {method : Member} {position : Nat}
    (h : method.codePosition? pool = some position) :
    ∃ before attr after, method.attributes = before ++ attr :: after ∧
      (∀ other ∈ before, ¬ other.isNamed pool Attribute.codeName) ∧
      attr.isNamed pool Attribute.codeName := by
  obtain ⟨hlt, hnamed, hbefore⟩ := List.findIdx?_eq_some_iff_getElem.1 h
  refine ⟨method.attributes.take position, method.attributes[position],
    method.attributes.drop (position + 1), ?_, ?_, hnamed⟩
  · rw [← List.drop_eq_getElem_cons hlt, List.take_append_drop]
  · -- no attribute before the position has the name
    intro other hmem
    obtain ⟨i, hi, rfl⟩ := List.getElem_of_mem hmem
    rw [List.length_take] at hi
    rw [List.getElem_take]
    exact hbefore i (by omega)

section Split

variable {method : Member} {before after : List Attribute} {attr : Attribute}

private theorem codePosition?_of_split (hattributes : method.attributes = before ++ attr :: after)
    (hbefore : ∀ other ∈ before, ¬ other.isNamed pool Attribute.codeName)
    (hnamed : attr.isNamed pool Attribute.codeName) :
    method.codePosition? pool = some before.length := by
  have hnone : before.findIdx? (·.isNamed pool Attribute.codeName) = none :=
    List.findIdx?_eq_none_iff.2 fun other hmem => Bool.eq_false_iff.2 (hbefore other hmem)
  rw [codePosition?, hattributes, List.findIdx?_append, hnone, List.findIdx?_cons, if_pos hnamed]
  simp

/-- The replaced attribute keeps its place and its name index, and the others are not touched. -/
private theorem replaceCode_of_split (hattributes : method.attributes = before ++ attr :: after)
    (hbefore : ∀ other ∈ before, ¬ other.isNamed pool Attribute.codeName)
    (hnamed : attr.isNamed pool Attribute.codeName) (payload : CodePayload) :
    method.replaceCode pool payload =
      { method with attributes := before ++ payload.toAttribute attr.nameIndex :: after } := by
  simp only [replaceCode, codePosition?_of_split hattributes hbefore hnamed]
  rw [hattributes, List.modify_eq_take_cons_drop (by simp)]
  simp

end Split

/-- A method with a body has a first `Code` attribute, and this is the one that is replaced. -/
theorem replaceCode_eq {method : Member} (hbody : method.hasBody pool = true)
    (payload : CodePayload) :
    ∃ before attr after, method.attributes = before ++ attr :: after ∧
      (∀ other ∈ before, ¬ other.isNamed pool Attribute.codeName) ∧
      attr.isNamed pool Attribute.codeName ∧
      method.replaceCode pool payload =
        { method with attributes := before ++ payload.toAttribute attr.nameIndex :: after } := by
  rw [hasBody, Bool.and_eq_true, Option.isSome_iff_exists] at hbody
  obtain ⟨-, position, hposition⟩ := hbody
  obtain ⟨before, attr, after, hsplit, hbefore, hnamed⟩ := exists_split_of_codePosition? hposition
  exact ⟨before, attr, after, hsplit, hbefore, hnamed,
    replaceCode_of_split hsplit hbefore hnamed payload⟩

/-- The other method is the method, but for the payload of its first attribute that is named
`Code`. -/
inductive SameButCode (pool : ConstantPool) (method : Member) : Member → Prop
  | same : SameButCode pool method method
  | replaced {before after : List Attribute} {attr : Attribute} (info : Bytes)
      (hattributes : method.attributes = before ++ attr :: after)
      (hbefore : ∀ other ∈ before, ¬ other.isNamed pool Attribute.codeName)
      (hnamed : attr.isNamed pool Attribute.codeName) :
      SameButCode pool method
        { method with attributes := before ++ ⟨attr.nameIndex, info⟩ :: after }

/-- Replacing the code changes nothing else. -/
theorem sameButCode_replaceCode (method : Member) (payload : CodePayload) :
    method.SameButCode pool (method.replaceCode pool payload) := by
  cases hposition : method.codePosition? pool with
  | none =>
    simp only [replaceCode, hposition]
    exact .same
  | some position =>
    obtain ⟨before, attr, after, hsplit, hbefore, hnamed⟩ :=
      exists_split_of_codePosition? hposition
    rw [replaceCode_of_split hsplit hbefore hnamed]
    exact .replaced payload.encode hsplit hbefore hnamed

/-- Methods that agree but for their code agree so in a later pool. -/
theorem SameButCode.grow {method other : Member} (h : method.SameButCode pool other)
    (hgrows : pool.GrowsTo texts grown) (hnot : Attribute.codeName ∉ texts) :
    method.SameButCode grown other := by
  cases h with
  | same => exact .same
  | replaced info hattributes hbefore hnamed =>
    have hsame := Attribute.isNamed_of_growsTo hgrows hnot
    refine .replaced info hattributes (fun other hmem => ?_) ?_
    · rw [hsame]
      exact hbefore other hmem
    · rw [hsame]
      exact hnamed

/-- The attributes of any other name are the same. -/
theorem SameButCode.filter_attributes {method other : Member} (h : method.SameButCode pool other)
    {name : String} (hname : name ≠ Attribute.codeName) :
    other.attributes.filter (·.isNamed pool name) =
      method.attributes.filter (·.isNamed pool name) := by
  cases h with
  | same => rfl
  | @replaced before after attr info hattributes hbefore hnamed =>
    -- the replaced attribute is named `Code` before and after, so it is in neither list
    have hother : attr.isNamed pool name = false := Attribute.isNamed_eq_false hnamed hname
    have hreplaced : Attribute.isNamed ⟨attr.nameIndex, info⟩ pool name = false := hother
    rw [hattributes]
    simp only [List.filter_append, List.filter_cons, hother, hreplaced, Bool.false_eq_true,
      if_false]

theorem SameButCode.access_eq {method other : Member} (h : method.SameButCode pool other) :
    other.access = method.access := by
  cases h <;> rfl

theorem SameButCode.name_eq {method other : Member} (h : method.SameButCode pool other) :
    other.name = method.name := by
  cases h <;> rfl

theorem SameButCode.descriptor_eq {method other : Member} (h : method.SameButCode pool other) :
    other.descriptor = method.descriptor := by
  cases h <;> rfl

/-- Methods that differ in the payload of this attribute only do not differ when it is replaced. -/
theorem SameButCode.replaceCode_eq {method other : Member} (h : method.SameButCode pool other)
    (payload : CodePayload) : other.replaceCode pool payload = method.replaceCode pool payload := by
  cases h with
  | same => rfl
  | @replaced before after attr info hattributes hbefore hnamed =>
    have hother : Attribute.isNamed ⟨attr.nameIndex, info⟩ pool Attribute.codeName := hnamed
    rw [replaceCode_of_split hattributes hbefore hnamed, replaceCode_of_split rfl hbefore hother]

/-- Methods that agree but for their code both have a body, or neither has one. -/
theorem SameButCode.hasBody_eq {method other : Member} (h : method.SameButCode pool other) :
    other.hasBody pool = method.hasBody pool := by
  cases h with
  | same => rfl
  | @replaced before after attr info hattributes hbefore hnamed =>
    have hother : Attribute.isNamed ⟨attr.nameIndex, info⟩ pool Attribute.codeName := hnamed
    rw [hasBody, hasBody, codePosition?_of_split hattributes hbefore hnamed,
      codePosition?_of_split rfl hbefore hother]
    rfl

theorem SameButCode.signature_eq {method other : Member} (h : method.SameButCode pool other) :
    other.signature pool = method.signature pool := by
  have hfilter := h.filter_attributes (show Attribute.signatureName ≠ _ by decide)
  rw [signature, signature, Attribute.findSignature, ← List.head?_filter, hfilter,
    List.head?_filter, Attribute.findSignature]

theorem SameButCode.exceptions_eq {method other : Member} (h : method.SameButCode pool other) :
    other.exceptions pool = method.exceptions pool := by
  rw [exceptions, h.filter_attributes (by decide), exceptions]

/-- The first `Code` attribute after the replacement. -/
theorem find?_replaceCode {method : Member} (hbody : method.hasBody pool = true)
    (payload : CodePayload) :
    ∃ nameIndex, (method.replaceCode pool payload).attributes.find?
      (·.isNamed pool Attribute.codeName) = some (payload.toAttribute nameIndex) := by
  obtain ⟨before, attr, after, -, hbefore, hnamed, hreplaced⟩ := replaceCode_eq hbody payload
  refine ⟨attr.nameIndex, ?_⟩
  rw [hreplaced, List.find?_append, List.find?_eq_none.2 hbefore, Option.none_or,
    List.find?_cons_of_pos]
  exact hnamed

/-- If only one attribute is named `Code`, then only the replaced one is. -/
theorem filter_replaceCode {method : Member} (hbody : method.hasBody pool = true)
    (payload : CodePayload) {attr : Attribute}
    (honly : method.attributes.filter (·.isNamed pool Attribute.codeName) = [attr]) :
    (method.replaceCode pool payload).attributes.filter (·.isNamed pool Attribute.codeName) =
      [payload.toAttribute attr.nameIndex] := by
  obtain ⟨before, first, after, hsplit, hbefore, hnamed, hreplaced⟩ := replaceCode_eq hbody payload
  have hnone : before.filter (·.isNamed pool Attribute.codeName) = [] :=
    List.filter_eq_nil_iff.2 hbefore
  rw [hsplit, List.filter_append, hnone, List.nil_append, List.filter_cons, if_pos hnamed,
    List.cons_eq_cons] at honly
  obtain ⟨rfl, hafter⟩ := honly
  rw [hreplaced, List.filter_append, hnone, List.nil_append, List.filter_cons, if_pos, hafter]
  exact hnamed

end Member

end ClassStub
