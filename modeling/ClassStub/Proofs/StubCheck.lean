import ClassStub.Proofs.MemberCheck
import ClassStub.Proofs.StubFrame

/-!
# The check of a stub

A class that passes the check of its structure passes it as a stub, too. What the check finds in
the pool and in the header of the class is kept because the pool only gains sound entries; what
it finds in a method is kept because the generated body fits every method that the replaced one
did; and the helper that a class gets is sound, and its name and descriptor are new to the class.

Two things are asked of the class. Its pool was built by pushing, for otherwise it may end in half
a wide constant, which the check lets pass. And no attribute of a method has its name behind the
pool, for there stubbing may put the text `Code`.
-/

namespace ClassStub

variable {policy : InitializerPolicy} {helper? : Option UInt16} {pool grown : ConstantPool}
  {texts : List String}

/-! ### Generated code -/

private theorem GeneratedBody.maxStack_ne_zero_of_athrow (body : GeneratedBody)
    (hlast : body.payload.code.getLast? = some Opcode.athrow.code) : body.maxStack ≠ 0 := by
  cases body with
  | returning =>
    change ([Opcode.returnVoid.code] : Bytes).getLast? = _ at hlast
    exact absurd hlast (by decide)
  | delegating => exact (by decide : (1 : UInt16) ≠ 0)
  | raisingInline | returningException => exact (by decide : (3 : UInt16) ≠ 0)

private theorem GeneratedBody.length_code_ne_zero (body : GeneratedBody) :
    body.payload.code.length ≠ 0 := by
  cases body <;> simp [payload, instructions, RaiseRefs.construction, Instruction.toBytes]

/-- A generated body fits each method for which it declares enough local slots. -/
private theorem GeneratedBody.fitsCode (body : GeneratedBody) {method : Member}
    {descriptor : String} {slots : Nat} (hslots : parameterSlots descriptor = .ok slots)
    (hlocals : slots + method.receiverSlots ≤ body.maxLocals.toNat) :
    method.FitsCode descriptor body.payload where
  length_ne := body.length_code_ne_zero
  length_le := Nat.le_trans body.length_code_le (by decide)
  throws := body.maxStack_ne_zero_of_athrow
  locals := ⟨slots, hslots, hlocals⟩
  handlers := fun _ hmem => absurd hmem List.not_mem_nil

/-! ### Methods -/

namespace Member

variable {method stubbed : Member} {descriptor : String}

/-- No attribute of the method has its name behind the pool. -/
def NamesWithin (pool : ConstantPool) (method : Member) : Prop :=
  ∀ attr ∈ method.attributes, attr.nameIndex.toNat ≤ pool.size

private theorem NamesWithin.filter_eq (h : method.NamesWithin pool)
    (hgrows : pool.GrowsTo texts grown) (name : String) :
    method.attributes.filter (·.isNamed grown name) =
      method.attributes.filter (·.isNamed pool name) :=
  List.filter_congr fun attr hmem => Attribute.isNamed_of_le hgrows (h attr hmem) name

/-- A body that fits fits in a later pool. -/
theorem HasFittingCode.grow (h : method.HasFittingCode pool descriptor)
    (hgrows : pool.GrowsTo texts grown) (hwithin : method.NamesWithin pool) :
    method.HasFittingCode grown descriptor := by
  rw [HasFittingCode, hwithin.filter_eq hgrows]
  exact h

/-- Exceptions that are sound are sound in a later pool. -/
theorem HasSoundExceptions.grow (h : method.HasSoundExceptions pool)
    (hgrows : pool.GrowsTo texts grown) (hwithin : method.NamesWithin pool) :
    method.HasSoundExceptions grown := by
  obtain ⟨found, hfound⟩ := h
  refine ⟨found, ?_⟩
  have hfilter := hwithin.filter_eq hgrows Attribute.exceptionsName
  cases found with
  | false => exact hfilter.trans hfound
  | true =>
    obtain ⟨attr, honly, indices, hdecode, hnodup, hclasses⟩ := hfound
    exact ⟨attr, hfilter.trans honly, indices, hdecode, hnodup,
      fun index hmem => hgrows.any_get? (hclasses index hmem)⟩

/-- The code of a method still fits when its body was replaced. -/
private theorem HasFittingCode.stubbedTo (h : method.HasFittingCode pool descriptor)
    (hdescriptor : method.descriptor pool = .ok descriptor)
    (hstub : method.StubbedTo policy helper? pool stubbed) :
    stubbed.HasFittingCode pool descriptor := by
  cases hstub with
  | kept => exact h
  | @replaced name found slots body hbody hname hfound hslots hlocals hsuits =>
    obtain rfl : found = descriptor := by
      rw [hfound, Except.ok.injEq] at hdescriptor
      exact hdescriptor
    rcases h with ⟨hbodiless, -⟩ | ⟨hbodiless, attr, payload, honly, hdecode, hfits⟩
    · -- a method with a body may have one
      rw [hasBody, hbodiless] at hbody
      cases hbody
    · refine .inr ⟨?_, _, body.payload, filter_replaceCode hbody body.payload honly,
        body.decode_encode, body.fitsCode hslots ?_⟩
      · rw [isBodiless_replaceCode, hbodiless]
      · -- the replaced code has room for the slots, so their number fits in sixteen bits
        obtain ⟨needed, hneeded, hle⟩ := hfits.locals
        rw [hslots, Except.ok.injEq] at hneeded
        subst hneeded
        have hlt := Nat.lt_of_le_of_lt hle payload.maxLocals.toNat_lt
        have hdeclared : body.maxLocals.toNat = slots + method.receiverSlots := by
          rw [hlocals, UInt16.toNat_ofNat_of_lt' hlt]
        exact Nat.le_of_eq (by rw [hdeclared, receiverSlots_replaceCode])

private theorem HasSoundExceptions.stubbedTo (h : method.HasSoundExceptions pool)
    (hstub : method.StubbedTo policy helper? pool stubbed) : stubbed.HasSoundExceptions pool := by
  have hfilter := hstub.sameButCode.filter_attributes
    (show Attribute.exceptionsName ≠ Attribute.codeName by decide)
  obtain ⟨found, hfound⟩ := h
  refine ⟨found, ?_⟩
  cases found with
  | false => exact hfilter.trans hfound
  | true =>
    obtain ⟨attr, honly, hlists⟩ := hfound
    exact ⟨attr, hfilter.trans honly, hlists⟩

end Member

namespace ClassFile

variable {c o : ClassFile}

/-- A sound method is sound in a later pool. -/
theorem IsSoundMethod.grow {method : Member} {key : String × String}
    (h : c.IsSoundMethod method key) (hgrows : c.pool.GrowsTo texts o.pool)
    (haccess : o.access = c.access) (hwithin : method.NamesWithin c.pool) :
    o.IsSoundMethod method key := by
  have hinterface : o.isInterface = c.isInterface := by rw [isInterface, haccess, isInterface]
  constructor
  · rw [hinterface]
    exact h.flags
  · exact hgrows.utf8 h.name
  · exact hgrows.utf8 h.descriptor
  · rw [hinterface]
    exact h.notHelper
  · exact h.exceptions.grow hgrows hwithin
  · exact h.code.grow hgrows hwithin

private theorem IsSoundMethod.stubbedTo {method stubbed : Member} {key : String × String}
    (h : o.IsSoundMethod method key) (hstub : method.StubbedTo policy helper? o.pool stubbed) :
    o.IsSoundMethod stubbed key := by
  have hsame := hstub.sameButCode
  constructor
  · rw [hsame.access_eq]
    exact h.flags
  · rw [hsame.name_eq]
    exact h.name
  · rw [hsame.descriptor_eq]
    exact h.descriptor
  · exact h.notHelper
  · exact h.exceptions.stubbedTo hstub
  · exact h.code.stubbedTo h.descriptor hstub

/-- The helper of a stub is sound. -/
private theorem isSoundMethod_of_isHelper {className : String} {reference : UInt16}
    {refs : RaiseRefs} {helper : Member} (h : Stub.IsHelper className o.pool reference refs helper)
    (hclass : o.isInterface = false) :
    o.IsSoundMethod helper (Helper.name, Helper.descriptor) := by
  obtain ⟨nameIndex, hname, hattributes⟩ := h.attributes
  let body := GeneratedBody.returningException refs
  -- the only attribute of the helper is named `Code`
  have hcode : (body.payload.toAttribute nameIndex).isNamed o.pool Attribute.codeName = true :=
    Attribute.isNamed_iff.2 hname
  have hother :
      (body.payload.toAttribute nameIndex).isNamed o.pool Attribute.exceptionsName = false :=
    Attribute.isNamed_eq_false hcode (by decide)
  constructor
  · rw [h.access, hclass]
    decide
  · exact h.name
  · exact h.descriptor
  · intro hinterface
    rw [hclass] at hinterface
    exact nomatch hinterface
  · exact ⟨false, by simp [AttributeScan.DescribesExceptions, hattributes, body, hother]⟩
  · refine .inr ⟨h.isBodiless, body.payload.toAttribute nameIndex, body.payload, ?_,
      body.decode_encode, body.fitsCode Helper.parameterSlots_descriptor ?_⟩
    · rw [hattributes, List.filter_cons, if_pos hcode, List.filter_nil]
    · rw [Member.receiverSlots, if_pos h.isStatic]
      exact Nat.zero_le _

/-- The methods of a class that are sound in the pool of the stub are so when they were stubbed. -/
private theorem forall₂_isSoundMethod_of_stubbedTo {methods stubbed : List Member}
    {keys : List (String × String)}
    (hsound : List.Forall₂ o.IsSoundMethod methods keys)
    (hmethods : List.Forall₂ (Member.StubbedTo policy helper? o.pool) methods stubbed) :
    List.Forall₂ o.IsSoundMethod stubbed keys := by
  induction hmethods generalizing keys with
  | nil => exact hsound
  | cons hfirst _ ih =>
    obtain ⟨key, rest, hkey, hrest, rfl⟩ := List.forall₂_cons_left_iff.1 hsound
    exact .cons (hkey.stubbedTo hfirst) (ih hrest)

/-- The methods of a stub pass the check if those of the class do. -/
private theorem IsStub.checkMethods (h : c.IsStub policy o)
    (hwithin : ∀ method ∈ c.methods, method.NamesWithin c.pool)
    (hcheck : c.checkMethods = .ok ()) : o.checkMethods = .ok () := by
  obtain ⟨keys, hkeys, hnodup⟩ := checkMethods_eq_ok_iff.1 hcheck
  have hgrown : ∀ {o : ClassFile} {texts : List String}, c.pool.GrowsTo texts o.pool →
      o.access = c.access → List.Forall₂ o.IsSoundMethod c.methods keys := by
    intro o texts hgrows haccess
    have hboth := (List.forall₂_and_left _ _).2 ⟨hwithin, hkeys⟩
    exact hboth.imp fun method key h => h.2.grow hgrows haccess h.1
  rw [checkMethods_eq_ok_iff]
  cases h with
  | @ofInterface pool stubbed _ hgrows _ hmethods =>
    have hsound := @hgrown { c with pool, methods := stubbed } _ hgrows rfl
    exact ⟨keys, forall₂_isSoundMethod_of_stubbedTo hsound hmethods, hnodup⟩
  | @ofClass className pool reference refs helper stubbed hclass hgrows _ _ hhelper hothers
      hmethods =>
    have hsound := @hgrown { c with pool, methods := stubbed ++ [helper] } _ hgrows rfl
    have hfresh : ∀ key ∈ keys, key ≠ (Helper.name, Helper.descriptor) := by
      refine forall_mem_of_forall₂ hsound hothers fun method key hother h => ?_
      -- a method with this key would be declared like the helper
      rintro rfl
      have hdeclared := Member.isDeclaredAs_iff.2 ⟨h.name, h.descriptor⟩
      exact absurd (hother.symm.trans hdeclared) (by decide)
    refine ⟨keys ++ [(Helper.name, Helper.descriptor)], ?_, ?_⟩
    · exact List.rel_append (forall₂_isSoundMethod_of_stubbedTo hsound hmethods)
        (.cons (isSoundMethod_of_isHelper hhelper hclass) .nil)
    · refine List.nodup_append.2 ⟨hnodup, by simp, fun key hmem last hlast => ?_⟩
      rw [List.mem_singleton.1 hlast]
      exact hfresh key hmem

private theorem hasValidSuperClass_of_growsTo {methods : List Member}
    (hgrows : c.pool.GrowsTo texts pool)
    (hname : className? { c with pool, methods } = c.className?)
    (h : c.hasValidSuperClass = true) :
    hasValidSuperClass { c with pool, methods } = true := by
  rw [hasValidSuperClass] at h ⊢
  rw [hname]
  split at h
  case isTrue hzero =>
    rw [if_pos hzero]
    exact h
  case isFalse hzero =>
    rw [if_neg hzero]
    exact hgrows.any_get? h

/-- **Stubbing breaks no sound class.** If a class passes the check of its structure, so does its
stub. -/
theorem check_of_stub (hpushed : c.pool.IsPushed)
    (hwithin : ∀ method ∈ c.methods, method.NamesWithin c.pool) (hcheck : c.check = .ok ())
    (hstub : c.stub policy = .ok o) : o.check = .ok () := by
  rcases stub_eq_ok_iff.1 hstub with ⟨-, rfl⟩ | ⟨hmodule, name, _, _, hname, -, -⟩
  · exact hcheck
  · obtain ⟨hpool, hthis, hflags, hsuper, hinterfaces, hfields, hmethods⟩ :=
      check_eq_ok_iff.1 hcheck
    have hgains := stub_gains hstub
    have hgrows := hgains.growsTo
    have hstubbed := (isStub_of_stub hmodule hpushed.size_le hstub).checkMethods hwithin hmethods
    -- the flags and the superclass are judged by the name of the class, which is the same
    have hsame : o.className? = c.className? := by
      rw [className?, className?, hname, (readsAlike_of_stub hstub).className name hname]
    obtain ⟨pool, methods, rfl⟩ : ∃ pool methods, o = { c with pool, methods } :=
      ⟨_, _, stub_eq hstub⟩
    refine check_eq_ok_iff.2 ⟨checkPool_of_gains hpushed hgains rfl (by decide) hpool,
      hgrows.any_get? hthis, ?_, ?_, ?_, ?_, hstubbed⟩
    · rw [hasValidFlags, hsame]
      exact hflags
    · exact hasValidSuperClass_of_growsTo hgrows hsame hsuper
    · rw [checkInterfaces, forM_eq_ok_iff] at hinterfaces ⊢
      intro index hmem
      have hindex := hinterfaces index hmem
      rw [ConstantPool.expect_eq_ok_iff] at hindex ⊢
      exact hgrows.any_get? hindex
    · obtain ⟨keys, hkeys, hnodup⟩ := checkFields_eq_ok_iff.1 hfields
      refine checkFields_eq_ok_iff.2 ⟨keys, hkeys.imp fun field key h => ?_, hnodup⟩
      exact ⟨h.flags, hgrows.utf8 h.name, hgrows.utf8 h.descriptor⟩

private theorem isPushed_greeter : greeter.pool.IsPushed :=
  ((((((ConstantPool.IsPushed.empty.append (.utf8 "p/Greeter") (by decide)).append
    (.classRef 1) (by decide)).append (.utf8 objectClassName) (by decide)).append
    (.classRef 3) (by decide)).append (.utf8 Attribute.codeName) (by decide)).append
    (.utf8 "greet") (by decide)).append (.utf8 "(IJ)V") (by decide)

private theorem check_greeter : greeter.check = .ok () := by
  have hpool : greeter.checkPool = .ok () := by
    rw [← toOption_eq_some_iff]
    decide +kernel
  have hmethod : ∀ method ∈ greeter.methods, greeter.IsSoundMethod method ("greet", "(IJ)V") := by
    intro method hmem
    obtain rfl := List.mem_singleton.1 hmem
    refine isSoundMethod_iff.2 ⟨?_, by decide, ?_⟩
    · rw [← toOption_eq_some_iff]
      decide +kernel
    · rw [← toOption_eq_some_iff]
      decide +kernel
  have hmethods : greeter.checkMethods = .ok () :=
    checkMethods_eq_ok_iff.2
      ⟨[("greet", "(IJ)V")], .cons (hmethod _ List.mem_cons_self) .nil, by simp⟩
  exact check_eq_ok_iff.2
    ⟨hpool, by decide +kernel, by decide +kernel, by decide +kernel, rfl, rfl, hmethods⟩

/-- A class without defects and its stub. -/
theorem check_of_stub_greeter :
    greeter.pool.IsPushed ∧ (∀ method ∈ greeter.methods, method.NamesWithin greeter.pool) ∧
      greeter.check = .ok () ∧ greeter.stub .stub = .ok greeterStub ∧
      greeterStub.check = .ok () := by
  have hwithin : ∀ method ∈ greeter.methods, method.NamesWithin greeter.pool := by
    intro method hmem attr hattr
    obtain rfl := List.mem_singleton.1 hmem
    obtain rfl := List.mem_singleton.1 hattr
    decide
  exact ⟨isPushed_greeter, hwithin, check_greeter, stub_greeter,
    check_of_stub isPushed_greeter hwithin check_greeter stub_greeter⟩

end ClassFile

end ClassStub
