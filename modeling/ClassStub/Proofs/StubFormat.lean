import ClassStub.StubBytes
import ClassStub.Proofs.StubFrame

/-!
# The written form of a stub

The stub of a class that can be written without loss can be so, too, except for its methods:
their number must fit in sixteen bits, and a class that has as many as that already gets one more,
the helper. Nothing refuses such a stub. Its methods are counted as none when it is written, and
then the stub is not what is read back.

`ClassFile.decode_stubBytes` says this of the bytes that `stubBytes` returns.
-/

namespace ClassStub

variable {policy : InitializerPolicy} {helper? : Option UInt16} {pool grown : ConstantPool}
  {texts : List String}

/-! ### Pools -/

private theorem ConstantPool.NewEntry.isEncodable {constant : Constant}
    (h : pool.NewEntry texts constant)
    (htexts : ∀ text ∈ texts, (ModifiedUtf8.encode text).length < 2 ^ 16) :
    constant.IsEncodable := by
  cases h with
  | utf8 hmem => exact htexts _ hmem
  | _ => exact trivial

/-- A pool that can be written without loss still can when it has gained entries. -/
theorem ConstantPool.IsEncodable.gains (h : pool.IsEncodable) (hgains : pool.Gains texts grown)
    (htexts : ∀ text ∈ texts, (ModifiedUtf8.encode text).length < 2 ^ 16) :
    grown.IsEncodable where
  size_le := hgains.size_le h.size_le
  laidOut := hgains.laidOut h.laidOut
  constants := by
    induction hgains with
    | refl => exact h.constants
    | tail _ hstep ih =>
      obtain ⟨constant, hnew, -, rfl⟩ := hstep
      rw [toList_append, hnew.slots, List.forall_mem_append]
      exact ⟨ih, List.forall_mem_singleton.2 (hnew.isEncodable htexts)⟩

private theorem Stub.length_encode_newTexts :
    ∀ text ∈ Stub.newTexts, (ModifiedUtf8.encode text).length < 2 ^ 16 := by
  decide +kernel

/-! ### Members -/

private theorem GeneratedBody.isEncodable_toAttribute (body : GeneratedBody) (nameIndex : UInt16) :
    (body.payload.toAttribute nameIndex).IsEncodable := by
  have hlength : body.payload.encode.length = body.payload.code.length + 12 := by
    simp [CodePayload.encode, payload, encodeCounted]
    omega
  have hcode := body.length_code_le
  rw [Attribute.IsEncodable, CodePayload.toAttribute, hlength]
  omega

namespace Member

variable {member method stubbed : Member}

/-- A member that can be written can be written with a later pool. -/
theorem IsEncodable.grow (h : member.IsEncodable pool) (hgrows : pool.GrowsTo texts grown) :
    member.IsEncodable grown where
  name := h.name.imp fun _ hname => hgrows.utf8 hname
  descriptor := h.descriptor.imp fun _ hdescriptor => hgrows.utf8 hdescriptor
  attributeCount := h.attributeCount
  attributes := h.attributes

/-- A generated body is short, and it takes the place of another. -/
private theorem IsEncodable.stubbedTo (h : method.IsEncodable pool)
    (hstub : method.StubbedTo policy helper? pool stubbed) : stubbed.IsEncodable pool := by
  cases hstub with
  | kept => exact h
  | @replaced _ _ _ body hbody =>
    obtain ⟨before, attr, after, hsplit, -, -, hreplaced⟩ := replaceCode_eq hbody body.payload
    have hcount := h.attributeCount
    have hattributes := h.attributes
    rw [hsplit, List.length_append, List.length_cons] at hcount
    rw [hsplit, List.forall_mem_append, List.forall_mem_cons] at hattributes
    rw [hreplaced]
    refine ⟨h.name, h.descriptor, ?_, ?_⟩
    · rw [List.length_append, List.length_cons]
      exact hcount
    · exact List.forall_mem_append.2 ⟨hattributes.1, List.forall_mem_cons.2
        ⟨body.isEncodable_toAttribute attr.nameIndex, hattributes.2.2⟩⟩

private theorem isEncodable_of_isHelper {className : String} {reference : UInt16} {refs : RaiseRefs}
    {helper : Member} (h : Stub.IsHelper className pool reference refs helper) :
    helper.IsEncodable pool := by
  obtain ⟨nameIndex, -, hattributes⟩ := h.attributes
  refine ⟨⟨_, h.name⟩, ⟨_, h.descriptor⟩, ?_, ?_⟩
  · rw [hattributes, List.length_singleton]
    decide
  · rw [hattributes]
    exact List.forall_mem_singleton.2 (GeneratedBody.isEncodable_toAttribute _ _)

end Member

namespace ClassFile

variable {c o : ClassFile} {options : StubOptions} {bytes out : Bytes}

/-- All methods of a stub can be written without loss if those of the class can. -/
theorem IsStub.isEncodable_methods (h : c.IsStub policy o)
    (hmethods : ∀ method ∈ c.methods, method.IsEncodable c.pool) :
    ∀ method ∈ o.methods, method.IsEncodable o.pool := by
  have hgrown : ∀ {texts : List String} {grown : ConstantPool}, c.pool.GrowsTo texts grown →
      ∀ method ∈ c.methods, method.IsEncodable grown :=
    fun hgrows method hmem => (hmethods method hmem).grow hgrows
  cases h with
  | ofInterface _ hgrows _ hstubbed =>
    exact forall_mem_of_forall₂ hstubbed (hgrown hgrows) fun _ _ h => h.stubbedTo
  | ofClass _ hgrows _ _ hhelper _ hstubbed =>
    refine List.forall_mem_append.2 ⟨?_, List.forall_mem_singleton.2 ?_⟩
    · exact forall_mem_of_forall₂ hstubbed (hgrown hgrows) fun _ _ h => h.stubbedTo
    · exact Member.isEncodable_of_isHelper hhelper

/-- A stub that has not too many methods can be written without loss if its class can. -/
theorem IsEncodable.stub (h : c.IsEncodable) (hstub : c.stub policy = .ok o)
    (hcount : o.methods.length < 2 ^ 16) : o.IsEncodable := by
  cases hmodule : c.isModule with
  | true =>
    rw [ClassFile.stub, if_pos hmodule, pure_eq_ok_iff] at hstub
    exact hstub ▸ h
  | false =>
    -- everything but the pool and the methods is that of the class
    have hgains := stub_gains hstub
    have hgrows := hgains.growsTo
    have hmethods := (isStub_of_stub hmodule h.pool.size_le hstub).isEncodable_methods h.methods
    have hpool := h.pool.gains hgains Stub.length_encode_newTexts
    obtain ⟨pool, methods, rfl⟩ : ∃ pool methods, o = { c with pool, methods } :=
      ⟨_, _, stub_eq hstub⟩
    exact {
      thisClass := h.thisClass.imp fun _ hname => hgrows.className hname
      superClass := fun hne => (h.superClass hne).imp fun _ hname => hgrows.className hname
      interfaceCount := h.interfaceCount
      interfaces := fun index hmem =>
        (h.interfaces index hmem).imp fun _ hname => hgrows.className hname
      fieldCount := h.fieldCount
      fields := fun field hmem => (h.fields field hmem).grow hgrows
      methodCount := hcount
      methods := hmethods
      attributeCount := h.attributeCount
      attributes := h.attributes
      magic := h.magic
      pool := hpool }

/-- The helper is one method too many: the class gets it and has as many methods as can be
counted. -/
structure OverflowsByHelper (c : ClassFile) : Prop where
  isInterface : c.isInterface = false
  isModule : c.isModule = false
  length_methods : c.methods.length = 65535

private theorem length_methods_of_stub (hstub : c.stub policy = .ok o) :
    o.methods.length =
      if c.isInterface || c.isModule then c.methods.length else c.methods.length + 1 := by
  have hmethods := stub_methods hstub
  split at hmethods
  case isTrue hkept =>
    rw [if_pos hkept, hmethods.length_eq]
  case isFalse hadded =>
    obtain ⟨stubbed, helper, hresult, -, -, hsame⟩ := hmethods
    rw [if_neg hadded, hresult, List.length_append, List.length_singleton, hsame.length_eq]

/-- A class file has a stub if it can be read, its class has one, and this passes the check if one
is wanted. -/
theorem stubBytes_eq_ok_iff :
    stubBytes options bytes = .ok out ↔ ∃ c o, decode bytes = .ok c ∧
      c.stub options.initializers = .ok o ∧ (options.verify = true → o.check = .ok ()) ∧
      o.encode = out := by
  rw [stubBytes]
  simp only [bind_eq_ok_iff, mapError_eq_ok_iff]
  cases options.verify with
  | false =>
    simp only [Bool.false_eq_true, if_false, pure_eq_ok_iff, false_implies, true_and]
    constructor
    · rintro ⟨c, hdecode, o, hstub, hencode⟩
      exact ⟨c, o, hdecode, hstub, hencode⟩
    · rintro ⟨c, o, hdecode, hstub, hencode⟩
      exact ⟨c, hdecode, o, hstub, hencode⟩
  | true =>
    simp only [if_true, bind_unit_eq_ok_iff, mapError_eq_ok_iff, pure_eq_ok_iff, true_implies]
    constructor
    · rintro ⟨c, hdecode, o, hstub, hcheck, hencode⟩
      exact ⟨c, o, hdecode, hstub, hcheck, hencode⟩
    · rintro ⟨c, o, hdecode, hstub, hcheck, hencode⟩
      exact ⟨c, hdecode, o, hstub, hcheck, hencode⟩

/-- **The bytes of a stub are the stub's.** What `stubBytes` returns is read back as the stub of
the class that it was given, unless the helper was one method too many. Then the count of the
methods is written as zero, and something else is read or nothing at all. -/
theorem decode_stubBytes (hdecode : decode bytes = .ok c)
    (hbytes : stubBytes options bytes = .ok out) :
    ∃ o, c.stub options.initializers = .ok o ∧
      (¬ c.OverflowsByHelper → decode out = .ok o) ∧
      (c.OverflowsByHelper → o.methods.length = 65536 ∧
        bigEndian 2 o.methods.length = bigEndian 2 0 ∧ decode out ≠ .ok o) := by
  obtain ⟨_, o, hread, hstub, -, rfl⟩ := stubBytes_eq_ok_iff.1 hbytes
  rw [hdecode, Except.ok.injEq] at hread
  subst hread
  have hencodable := (decode_eq_ok_iff.1 hdecode).1
  have hlength := length_methods_of_stub hstub
  refine ⟨o, hstub, fun hnot => ?_, fun hoverflows => ?_⟩
  · -- only the helper can make the methods too many
    have hcount : o.methods.length < 2 ^ 16 := by
      have hbefore := hencodable.methodCount
      rw [hlength]
      split
      case isTrue => exact hbefore
      case isFalse hadded =>
        rw [Bool.or_eq_true, not_or, Bool.not_eq_true, Bool.not_eq_true] at hadded
        have hne : c.methods.length ≠ 65535 := fun hmany => hnot ⟨hadded.1, hadded.2, hmany⟩
        omega
    exact decode_eq_ok_iff.2 ⟨hencodable.stub hstub hcount, rfl⟩
  · -- the count is cut to sixteen bits, and so no class with as many methods is read back
    have hmany : o.methods.length = 65536 := by
      rw [hlength, hoverflows.isInterface, hoverflows.isModule, hoverflows.length_methods]
      rfl
    refine ⟨hmany, by rw [hmany]; decide, fun hback => ?_⟩
    have hcount := (decode_eq_ok_iff.1 hback).1.methodCount
    omega

theorem decode_greeter : decode greeter.encode = .ok greeter := by
  decide +kernel

/-- A class file and the file of its stub. -/
theorem decode_stubBytes_greeter :
    decode greeter.encode = .ok greeter ∧
      stubBytes ⟨false, .stub, none⟩ greeter.encode = .ok greeterStub.encode ∧
      decode greeterStub.encode = .ok greeterStub := by
  have hbytes : stubBytes ⟨false, .stub, none⟩ greeter.encode = .ok greeterStub.encode :=
    stubBytes_eq_ok_iff.2 ⟨greeter, greeterStub, decode_greeter, stub_greeter, by simp, rfl⟩
  obtain ⟨o, hstub, hback, -⟩ := decode_stubBytes decode_greeter hbytes
  rw [show o = greeterStub from Except.ok.inj (hstub.symm.trans stub_greeter)] at hback
  refine ⟨decode_greeter, hbytes, hback fun hoverflows => ?_⟩
  -- the class has one method only
  exact absurd hoverflows.length_methods (by decide)

/-- A class with as many methods as can be counted, all of them abstract. -/
def crowded : ClassFile :=
  { greeter with methods := List.replicate 65535 ⟨⟨0x0401⟩, 6, 7, []⟩ }

private theorem decode_crowded : decode crowded.encode = .ok crowded := by
  have hgreeter := (decode_eq_ok_iff.1 decode_greeter).1
  have hgreet := hgreeter.methods _ List.mem_cons_self
  refine decode_eq_ok_iff.2 ⟨{ hgreeter with methodCount := ?_, methods := ?_ }, rfl⟩
  · rw [crowded, List.length_replicate]
    decide
  · intro method hmem
    rw [List.eq_of_mem_replicate hmem]
    exact ⟨hgreet.name, hgreet.descriptor, by decide, fun _ h => absurd h List.not_mem_nil⟩

/-- The helper of `crowded` is made like that of `greeter`, whose pool it has. -/
private theorem exists_stub_crowded : ∃ o, crowded.stub policy = .ok o := by
  rcases stub_eq_ok_iff.1 stub_greeter with ⟨hmodule, -⟩ | ⟨-, className, _, _, hname, hrun, -⟩
  · exact absurd hmodule (by decide)
  rw [if_neg (by decide)] at hrun
  obtain ⟨_, _, hrequire, hrun⟩ := bind_run_eq_ok_iff.1 hrun
  obtain ⟨⟨helper, reference⟩, state, hmake, -⟩ := bind_run_eq_ok_iff.1 hrun
  obtain ⟨rfl, -⟩ := Stub.requireNoHelper_spec hrequire
  have hmethods : ∀ method ∈ crowded.methods,
      method.isBodiless = true ∧ Stub.AllowsHelper crowded.pool method := by
    intro method hmem
    rw [List.eq_of_mem_replicate hmem]
    exact ⟨rfl, "greet", rfl, fun hname => absurd hname (by decide)⟩
  have hclass : Stub.stubClass policy className crowded.methods ⟨crowded.pool, none⟩ =
      .ok (crowded.methods ++ [helper]) state := by
    refine bind_run_eq_ok_iff.2 ⟨(), _, Stub.requireNoHelper_eq_ok_iff.2
      ⟨rfl, fun method hmem => (hmethods method hmem).2⟩, ?_⟩
    refine bind_run_eq_ok_iff.2 ⟨(helper, reference), state, hmake, ?_⟩
    exact bind_run_eq_ok_iff.2 ⟨crowded.methods, state, Stub.stubMethods_of_isBodiless
      fun method hmem => (hmethods method hmem).1, pure_run_eq_ok_iff.2 ⟨rfl, rfl⟩⟩
  refine ⟨_, stub_eq_ok_iff.2 (.inr
    ⟨by decide, className, crowded.methods ++ [helper], state, hname, ?_, rfl⟩)⟩
  rw [if_neg (by decide)]
  exact hclass

/-- There is a class whose stub cannot be read back. -/
theorem overflowsByHelper_crowded :
    crowded.OverflowsByHelper ∧ decode crowded.encode = .ok crowded ∧
      ∃ out, stubBytes ⟨false, .stub, none⟩ crowded.encode = .ok out := by
  obtain ⟨o, hstub⟩ : ∃ o, crowded.stub .stub = .ok o := exists_stub_crowded
  refine ⟨⟨by decide, by decide, List.length_replicate⟩, decode_crowded, o.encode, ?_⟩
  exact stubBytes_eq_ok_iff.2 ⟨crowded, o, decode_crowded, hstub, by simp, rfl⟩

end ClassFile

end ClassStub
