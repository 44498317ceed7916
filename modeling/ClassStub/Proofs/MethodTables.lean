import Mathlib.Data.List.Nodup
import ClassStub.Proofs.MemberCheck
import ClassStub.Proofs.Stubbing

/-!
# Tables of methods

The check of the methods of a class runs through them in their order, and through the attributes of
each of them in theirs. It remembers the names and descriptors it has seen, the code it has read
and whether exceptions were declared, and it stops at the first defect. Whether it stops at all does
not depend on any order: the methods pass exactly if each of them is well-formed and no two have the
same name and descriptor (`ClassFile.checkMethods_iff_hasWellFormedMethods`).

What makes a method well-formed is said in terms of how many attributes have a name and what each
attribute of that name holds (`Member.IsWellFormed`). Both stay as they are when the attributes are
listed in another order, so a table passes if it passes in any order at all.
-/

namespace ClassStub

variable {α β γ : Type} {pool : ConstantPool} {c o : ClassFile}

/-! ### Lists without order -/

private theorem map_eq_map_of_forall₂ {R : α → β → Prop} {f : α → γ} {g : β → γ} {l : List α}
    {m : List β} (h : List.Forall₂ R l m) (heq : ∀ a b, R a b → f a = g b) : l.map f = m.map g := by
  rw [← List.forall₂_eq_eq_eq, List.forall₂_map_left_iff, List.forall₂_map_right_iff]
  exact h.imp heq

private theorem exists_forall₂_iff {R : α → β → Prop} {l : List α} :
    (∃ m, List.Forall₂ R l m) ↔ ∀ a ∈ l, ∃ b, R a b := by
  induction l with
  | nil => simp
  | cons a l ih =>
    rw [List.forall_mem_cons, ← ih]
    constructor
    · rintro ⟨_, h⟩
      obtain ⟨b, m, hfirst, hrest, rfl⟩ := List.forall₂_cons_left_iff.1 h
      exact ⟨⟨b, hfirst⟩, m, hrest⟩
    · rintro ⟨⟨b, hfirst⟩, m, hrest⟩
      exact ⟨b :: m, .cons hfirst hrest⟩

/-- Elements have keys that differ if each has a key and what the keys are made from differs. -/
private theorem exists_nodup_keys_iff {R : α → β → Prop} {f : α → γ} {g : β → γ} {l : List α}
    (hg : g.Injective) (heq : ∀ a key, R a key → f a = g key) :
    (∃ keys, List.Forall₂ R l keys ∧ keys.Nodup) ↔
      (∀ a ∈ l, ∃ key, R a key) ∧ (l.map f).Nodup := by
  rw [← exists_forall₂_iff]
  constructor
  · rintro ⟨keys, hkeys, hnodup⟩
    refine ⟨⟨keys, hkeys⟩, ?_⟩
    rw [map_eq_map_of_forall₂ hkeys heq]
    exact hnodup.map hg
  · rintro ⟨⟨keys, hkeys⟩, hnodup⟩
    rw [map_eq_map_of_forall₂ hkeys heq] at hnodup
    exact ⟨keys, hkeys, hnodup.of_map g⟩

/-- No element is accepted, so all that are have the property. -/
private theorem filter_eq_nil_iff_countP {accept : α → Bool} {p : α → Prop} {l : List α} :
    l.filter accept = [] ↔ l.countP accept = 0 ∧ ∀ a ∈ l, accept a = true → p a := by
  rw [List.filter_eq_nil_iff, List.countP_eq_zero]
  constructor
  · intro h
    exact ⟨h, fun a hmem haccept => absurd haccept (h a hmem)⟩
  · intro h
    exact h.1

/-- Exactly one element is accepted, and it has the property. -/
private theorem exists_filter_eq_singleton_iff {accept : α → Bool} {p : α → Prop} {l : List α} :
    (∃ a, l.filter accept = [a] ∧ p a) ↔
      l.countP accept = 1 ∧ ∀ a ∈ l, accept a = true → p a := by
  rw [List.countP_eq_length_filter, List.length_eq_one_iff]
  constructor
  · rintro ⟨a, hfilter, ha⟩
    refine ⟨⟨a, hfilter⟩, fun b hmem haccept => ?_⟩
    have hb : b ∈ l.filter accept := List.mem_filter.2 ⟨hmem, haccept⟩
    rw [hfilter, List.mem_singleton] at hb
    exact hb ▸ ha
  · rintro ⟨⟨a, hfilter⟩, hall⟩
    have ha : a ∈ l.filter accept := by
      rw [hfilter]
      exact List.mem_singleton_self a
    obtain ⟨hmem, haccept⟩ := List.mem_filter.1 ha
    exact ⟨a, hfilter, hall a hmem haccept⟩

/-! ### Well-formed methods -/

/-- The code can be the body of a method whose parameters take so many slots. It is neither empty
nor too long, a throw at its end has a stack to throw from, its local slots hold the parameters and
the receiver, and its handlers are for ranges of it and stand in it. -/
structure CodePayload.IsBodyFor (method : Member) (slots : Nat) (payload : CodePayload) :
    Prop where
  length_pos : 0 < payload.code.length
  length_le : payload.code.length ≤ 65535
  throws : payload.code.getLast? = some Opcode.athrow.code → 0 < payload.maxStack
  locals : slots + method.receiverSlots ≤ payload.maxLocals.toNat
  handlers : ∀ range ∈ payload.handlers, range.start < range.stop ∧
    range.stop.toNat ≤ payload.code.length ∧ range.handler.toNat < payload.code.length

/-- The method is well-formed in a class, or an interface, with the pool. Nothing is said of the
order of its attributes. -/
structure Member.IsWellFormed (pool : ConstantPool) (inInterface : Bool) (method : Member) :
    Prop where
  flags : method.access.isValidOnMethod inInterface = true
  name : ∃ name, pool.get? method.nameIndex = some (.utf8 name)
  descriptor : ∃ descriptor, pool.get? method.descriptorIndex = some (.utf8 descriptor)
  notHelper : inInterface = true →
    ¬ (method.name pool = .ok Helper.name ∧ method.descriptor pool = .ok Helper.descriptor)
  exceptionsCount : method.attributes.countP (·.isNamed pool Attribute.exceptionsName) ≤ 1
  exceptions : ∀ attr ∈ method.attributes, attr.isNamed pool Attribute.exceptionsName = true →
    ∃ indices, Attribute.decodeExceptions attr.info = .ok indices ∧ indices.Nodup ∧
      ∀ index ∈ indices, ∃ name, pool.get? index = some (.classRef name)
  codeCount : method.attributes.countP (·.isNamed pool Attribute.codeName) =
    if method.access.isAbstract || method.access.isNative then 0 else 1
  code : ∀ attr ∈ method.attributes, attr.isNamed pool Attribute.codeName = true →
    ∃ payload descriptor slots, CodePayload.decode attr.info = .ok payload ∧
      method.descriptor pool = .ok descriptor ∧ parameterSlots descriptor = .ok slots ∧
      payload.IsBodyFor method slots

namespace Member

variable {method other : Member} {inInterface : Bool} {descriptor : String}

private theorem fitsCode_iff {payload : CodePayload} :
    method.FitsCode descriptor payload ↔
      ∃ slots, parameterSlots descriptor = .ok slots ∧ payload.IsBodyFor method slots := by
  have hwithin : ∀ range : ExceptionHandler, range.isWithin payload.code.length = true ↔
      range.start < range.stop ∧ range.stop.toNat ≤ payload.code.length ∧
        range.handler.toNat < payload.code.length := by
    intro range
    rw [ExceptionHandler.isWithin, Bool.and_eq_true, Bool.and_eq_true, decide_eq_true_iff,
      decide_eq_true_iff, decide_eq_true_iff, and_assoc]
  constructor
  · intro h
    obtain ⟨slots, hslots, hlocals⟩ := h.locals
    exact ⟨slots, hslots, Nat.pos_of_ne_zero h.length_ne, h.length_le,
      fun hlast => UInt16.pos_iff_ne_zero.2 (h.throws hlast), hlocals,
      fun range hmem => (hwithin range).1 (h.handlers range hmem)⟩
  · rintro ⟨slots, hslots, h⟩
    exact ⟨Nat.ne_of_gt h.length_pos, h.length_le,
      fun hlast => UInt16.pos_iff_ne_zero.1 (h.throws hlast), ⟨slots, hslots, h.locals⟩,
      fun range hmem => (hwithin range).2 (h.handlers range hmem)⟩

private theorem hasSoundExceptions_iff :
    method.HasSoundExceptions pool ↔
      method.attributes.countP (·.isNamed pool Attribute.exceptionsName) ≤ 1 ∧
        ∀ attr ∈ method.attributes, attr.isNamed pool Attribute.exceptionsName = true →
          attr.ListsClasses pool := by
  rw [HasSoundExceptions, Bool.exists_bool, AttributeScan.DescribesExceptions,
    AttributeScan.DescribesExceptions, Nat.le_one_iff_eq_zero_or_eq_one, or_and_right,
    exists_filter_eq_singleton_iff, filter_eq_nil_iff_countP]

private theorem hasFittingCode_iff :
    method.HasFittingCode pool descriptor ↔
      method.attributes.countP (·.isNamed pool Attribute.codeName) =
          (if method.isBodiless then 0 else 1) ∧
        ∀ attr ∈ method.attributes, attr.isNamed pool Attribute.codeName = true →
          ∃ payload, CodePayload.decode attr.info = .ok payload ∧
            method.FitsCode descriptor payload := by
  rw [HasFittingCode]
  cases method.isBodiless with
  | true =>
    simp only [if_true, true_and, Bool.true_eq_false, false_and, or_false]
    exact filter_eq_nil_iff_countP
  | false =>
    simp only [Bool.false_eq_true, if_false, false_and, true_and, false_or, exists_and_left]
    exact exists_filter_eq_singleton_iff

private theorem listsClasses_iff {attr : Attribute} :
    attr.ListsClasses pool ↔ ∃ indices, Attribute.decodeExceptions attr.info = .ok indices ∧
      indices.Nodup ∧ ∀ index ∈ indices, ∃ name, pool.get? index = some (.classRef name) := by
  simp only [Attribute.ListsClasses, ConstantPool.any_isClassRef_iff]

/-- A method that the check accepts is one that is well-formed and has the key. -/
private theorem exists_isSoundMethod_iff :
    (∃ key, c.IsSoundMethod method key) ↔ method.IsWellFormed c.pool c.isInterface := by
  constructor
  · rintro ⟨key, h⟩
    obtain ⟨hcount, hlists⟩ := hasSoundExceptions_iff.1 h.exceptions
    obtain ⟨hcodeCount, hcode⟩ := hasFittingCode_iff.1 h.code
    refine ⟨h.flags, ⟨_, ConstantPool.utf8_eq_ok_iff.1 h.name⟩,
      ⟨_, ConstantPool.utf8_eq_ok_iff.1 h.descriptor⟩, ?_, hcount,
      fun attr hmem hnamed => listsClasses_iff.1 (hlists attr hmem hnamed), hcodeCount, ?_⟩
    · rintro hinterface ⟨hname, hdescriptor⟩
      rw [h.name, Except.ok.injEq] at hname
      rw [h.descriptor, Except.ok.injEq] at hdescriptor
      exact h.notHelper hinterface (Prod.ext hname hdescriptor)
    · intro attr hmem hnamed
      obtain ⟨payload, hdecode, hfits⟩ := hcode attr hmem hnamed
      obtain ⟨slots, hslots, hbody⟩ := fitsCode_iff.1 hfits
      exact ⟨payload, key.2, slots, hdecode, h.descriptor, hslots, hbody⟩
  · intro h
    -- the texts at the two indices are the key
    obtain ⟨name, hname⟩ := h.name
    obtain ⟨descriptor, hdescriptor⟩ := h.descriptor
    have hname : method.name c.pool = .ok name := ConstantPool.utf8_eq_ok_iff.2 hname
    have hdescriptor : method.descriptor c.pool = .ok descriptor :=
      ConstantPool.utf8_eq_ok_iff.2 hdescriptor
    refine ⟨(name, descriptor), h.flags, hname, hdescriptor, ?_, hasSoundExceptions_iff.2
      ⟨h.exceptionsCount,
        fun attr hmem hnamed => listsClasses_iff.2 (h.exceptions attr hmem hnamed)⟩,
      hasFittingCode_iff.2 ⟨h.codeCount, fun attr hmem hnamed => ?_⟩⟩
    · intro hinterface hkey
      obtain ⟨rfl, rfl⟩ := Prod.ext_iff.1 hkey
      exact h.notHelper hinterface ⟨hname, hdescriptor⟩
    · obtain ⟨payload, found, slots, hdecode, hfound, hslots, hbody⟩ := h.code attr hmem hnamed
      obtain rfl := Except.ok.inj (hfound.symm.trans hdescriptor)
      exact ⟨payload, hdecode, fitsCode_iff.2 ⟨slots, hslots, hbody⟩⟩

/-- The other method differs in the order of its attributes only. -/
def RearrangesTo (method other : Member) : Prop :=
  ∃ attributes, method.attributes.Perm attributes ∧ other = { method with attributes }

theorem RearrangesTo.symm (h : method.RearrangesTo other) : other.RearrangesTo method := by
  obtain ⟨attributes, hperm, rfl⟩ := h
  exact ⟨method.attributes, hperm.symm, rfl⟩

private theorem RearrangesTo.isWellFormed (h : method.RearrangesTo other)
    (hmethod : method.IsWellFormed pool inInterface) : other.IsWellFormed pool inInterface := by
  obtain ⟨attributes, hperm, rfl⟩ := h
  exact {
    flags := hmethod.flags
    name := hmethod.name
    descriptor := hmethod.descriptor
    notHelper := hmethod.notHelper
    exceptionsCount := hperm.countP_eq _ ▸ hmethod.exceptionsCount
    exceptions := fun attr hmem => hmethod.exceptions attr (hperm.mem_iff.2 hmem)
    codeCount := (hperm.countP_eq _).symm.trans hmethod.codeCount
    code := fun attr hmem hnamed => by
      obtain ⟨payload, descriptor, slots, hdecode, hdescriptor, hslots, hbody⟩ :=
        hmethod.code attr (hperm.mem_iff.2 hmem) hnamed
      exact ⟨payload, descriptor, slots, hdecode, hdescriptor, hslots, hbody.length_pos,
        hbody.length_le, hbody.throws, hbody.locals, hbody.handlers⟩ }

end Member

/-! ### Tables -/

namespace ClassFile

/-- Each method of the class is well-formed, and no two have the same name and descriptor. -/
structure HasWellFormedMethods (c : ClassFile) : Prop where
  methods : ∀ method ∈ c.methods, method.IsWellFormed c.pool c.isInterface
  distinct : (c.methods.map fun method => (method.name c.pool, method.descriptor c.pool)).Nodup

/-- The other class differs in the order of its methods and in that of their attributes only. -/
def RearrangesTo (c o : ClassFile) : Prop :=
  ∃ middle methods, c.methods.Perm middle ∧ List.Forall₂ Member.RearrangesTo middle methods ∧
    o = { c with methods }

private theorem checkMethods_iff : c.checkMethods = .ok () ↔ c.HasWellFormedMethods := by
  rw [checkMethods_eq_ok_iff, exists_nodup_keys_iff
    (f := fun method => (method.name c.pool, method.descriptor c.pool))
    (g := fun key : String × String => (Except.ok key.1, Except.ok key.2)) ?_ ?_]
  · simp only [Member.exists_isSoundMethod_iff]
    exact ⟨fun h => ⟨h.1, h.2⟩, fun h => ⟨h.methods, h.distinct⟩⟩
  · rintro ⟨name, descriptor⟩ ⟨name', descriptor'⟩ h
    simpa using h
  · intro method key h
    exact Prod.ext h.name h.descriptor

private theorem RearrangesTo.hasWellFormedMethods_iff (h : c.RearrangesTo o) :
    o.HasWellFormedMethods ↔ c.HasWellFormedMethods := by
  obtain ⟨middle, methods, hperm, hsame, rfl⟩ := h
  have hkeys : (middle.map fun method => (method.name c.pool, method.descriptor c.pool)) =
      methods.map fun method => (method.name c.pool, method.descriptor c.pool) := by
    refine map_eq_map_of_forall₂ hsame ?_
    rintro method _ ⟨attributes, -, rfl⟩
    rfl
  constructor
  · intro h
    refine ⟨fun method hmem => ?_, ?_⟩
    · refine forall_mem_of_forall₂ hsame.flip h.methods (fun _ _ hother hback => ?_) method
        (hperm.mem_iff.1 hmem)
      exact (Member.RearrangesTo.symm hback).isWellFormed hother
    · rw [(hperm.map _).nodup_iff, hkeys]
      exact h.distinct
  · intro h
    refine ⟨forall_mem_of_forall₂ hsame (fun method hmem => h.methods method (hperm.mem_iff.2 hmem))
      fun _ _ hmethod hforth => hforth.isWellFormed hmethod, ?_⟩
    rw [← hkeys, ← (hperm.map _).nodup_iff]
    exact h.distinct

/-- **The check of methods knows no order.** The methods of a class pass the check exactly if each
of them is well-formed and no two have the same name and descriptor. So they pass or fail whatever
the order in which they, and the attributes of each of them, are listed. -/
theorem checkMethods_iff_hasWellFormedMethods (c : ClassFile) :
    (c.checkMethods = .ok () ↔ c.HasWellFormedMethods) ∧
      ∀ o, c.RearrangesTo o → (o.checkMethods = .ok () ↔ c.checkMethods = .ok ()) := by
  refine ⟨checkMethods_iff, fun o h => ?_⟩
  rw [checkMethods_iff, checkMethods_iff, h.hasWellFormedMethods_iff]

/-- The class `greeter` with an abstract method, and with an exception that its method declares in
front of its code. -/
def disordered : ClassFile :=
  { greeter with
    pool := ⟨greeter.pool.slots ++ #[.utf8 Attribute.exceptionsName, .utf8 "leave"]⟩
    methods := [⟨⟨0x0401⟩, 9, 7, []⟩,
      ⟨⟨0x0001⟩, 6, 7, [⟨8, [0, 1, 0, 4]⟩, (CodePayload.returning 4).toAttribute 5]⟩] }

/-- The class `disordered` with its methods, and the attributes of these, the other way round. -/
def reordered : ClassFile :=
  { disordered with
    methods := [⟨⟨0x0001⟩, 6, 7, [(CodePayload.returning 4).toAttribute 5, ⟨8, [0, 1, 0, 4]⟩]⟩,
      ⟨⟨0x0401⟩, 9, 7, []⟩] }

private theorem rearrangesTo_reordered : disordered.RearrangesTo reordered :=
  ⟨_, reordered.methods, .swap _ _ [],
    .cons ⟨_, .swap _ _ [], rfl⟩ (.cons ⟨_, .refl _, rfl⟩ .nil), rfl⟩

private theorem checkMethods_disordered : disordered.checkMethods = .ok () := by
  have hlists : (Attribute.mk 8 [0, 1, 0, 4]).ListsClasses disordered.pool :=
    ⟨[4], by decide +kernel, List.nodup_singleton 4, List.forall_mem_singleton.2 rfl⟩
  have hdecode : CodePayload.decode (CodePayload.returning 4).encode =
      .ok (CodePayload.returning 4) := by decide +kernel
  have hgreet : (Member.mk ⟨0x0001⟩ 6 7 [⟨8, [0, 1, 0, 4]⟩,
      (CodePayload.returning 4).toAttribute 5]).checkAttributes disordered.pool "greet" "(IJ)V" =
        .ok () := by
    refine Member.checkAttributes_eq_ok_iff.2 ⟨⟨true, _, by decide, hlists⟩,
      .inr ⟨rfl, (CodePayload.returning 4).toAttribute 5, _, by decide +kernel, hdecode, ?_⟩⟩
    rw [← Member.checkCode_eq_ok_iff, ← toOption_eq_some_iff]
    decide +kernel
  refine checkMethods_eq_ok_iff.2 ⟨[("leave", "(IJ)V"), ("greet", "(IJ)V")],
    .cons (isSoundMethod_iff.2 ⟨?_, by decide, ?_⟩)
      (.cons (isSoundMethod_iff.2 ⟨?_, by decide, hgreet⟩) .nil), by decide⟩ <;>
  · rw [← toOption_eq_some_iff]
    decide +kernel

/-- In the one order the exceptions are read before the code, in the other one behind it. -/
theorem checkMethods_iff_hasWellFormedMethods_reordered :
    disordered.checkMethods = .ok () ∧ disordered.HasWellFormedMethods ∧
      disordered.RearrangesTo reordered ∧ reordered.checkMethods = .ok () := by
  have hcheck := checkMethods_disordered
  obtain ⟨hwellFormed, horder⟩ := checkMethods_iff_hasWellFormedMethods disordered
  exact ⟨hcheck, hwellFormed.1 hcheck, rearrangesTo_reordered,
    (horder reordered rearrangesTo_reordered).2 hcheck⟩

end ClassFile

end ClassStub
