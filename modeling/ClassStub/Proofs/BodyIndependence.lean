import ClassStub.Proofs.StubFrame

/-!
# A stub does not depend on the bodies that it replaces

Two classes may differ in the payload of the first `Code` attribute of any method with a body,
and in nothing else (`ClassFile.SameButBodies`). Then they have the same stub, or stubbing them
fails with the same error (`ClassFile.stub_eq_of_sameButBodies`): no payload is ever looked at,
and none is kept.

The two runs pass the same pools. In each of them it has to be clear that the two methods which
are visited still have a body and still differ in its payload only. The helper of a class brings
the text `Code` into its pool, and this might turn an attribute in front of the first `Code`
attribute into one. But a class in which a method has a body holds that text already
(`Member.SameButBody.gains`).
-/

namespace ClassStub

variable {policy : InitializerPolicy} {helper? : Option UInt16} {pool grown : ConstantPool}
  {texts : List String} {state : StubState}

/-! ### Methods -/

namespace Member

variable {method other : Member}

/-- The other method is the method, or the method has a body and the payload of this body is all
in which they differ. -/
def SameButBody (pool : ConstantPool) (method other : Member) : Prop :=
  other = method ∨ (method.hasBody pool = true ∧ method.SameButCode pool other)

private theorem SameButBody.sameButCode (h : method.SameButBody pool other) :
    method.SameButCode pool other := by
  rcases h with rfl | ⟨-, h⟩
  · exact .same
  · exact h

/-- A pool in which a method has a body holds the name of the attribute with the body. -/
private theorem codeName_mem_of_hasBody (h : method.hasBody pool = true) :
    .utf8 Attribute.codeName ∈ pool.slots.toList := by
  rw [hasBody, Bool.and_eq_true, Option.isSome_iff_exists] at h
  obtain ⟨-, position, hposition⟩ := h
  obtain ⟨_, attr, _, -, -, hnamed⟩ := exists_split_of_codePosition? hposition
  rw [Attribute.isNamed_iff, Attribute.name, ConstantPool.utf8_eq_ok_iff] at hnamed
  exact ConstantPool.mem_slots_of_get? hnamed

/-- Methods that agree but for their bodies agree so in a later pool. -/
theorem SameButBody.gains (h : method.SameButBody pool other) (hgains : pool.Gains texts grown) :
    method.SameButBody grown other := by
  rcases h with rfl | ⟨hbody, hsame⟩
  · exact .inl rfl
  · obtain ⟨more, hnot, hgrows⟩ := hgains.exists_growsTo (codeName_mem_of_hasBody hbody)
    refine .inr ⟨?_, hsame.grow hgrows hnot⟩
    rw [hasBody_of_growsTo hgrows hnot, hbody]

end Member

/-! ### Stubbing -/

namespace Stub

/-- The body that a method is given does not depend on the one that it had. -/
private theorem stubMethod_eq_of_sameButBody {method other : Member}
    (h : method.SameButBody state.pool other) :
    stubMethod policy helper? other state = stubMethod policy helper? method state := by
  rcases h with rfl | ⟨hbody, hsame⟩
  · rfl
  · have hbody' : other.hasBody state.pool = true := by rw [hsame.hasBody_eq, hbody]
    rw [stubMethod, stubMethod]
    refine bind_run_congr rfl ?_
    rintro _ _ ⟨⟩
    rw [if_pos hbody', if_pos hbody, hsame.name_eq, hsame.descriptor_eq, Member.receiverSlots,
      hsame.access_eq, Member.receiverSlots]
    refine bind_run_congr rfl fun name middle hname => ?_
    obtain ⟨-, rfl⟩ := StubAction.lookUp_eq_ok_iff.1 hname
    refine bind_run_congr rfl fun descriptor middle hdescriptor => ?_
    obtain ⟨-, rfl⟩ := StubAction.lookUp_eq_ok_iff.1 hdescriptor
    refine bind_run_congr rfl fun slots middle hslots => ?_
    obtain ⟨-, rfl⟩ := StubAction.ofDescriptor_eq_ok_iff.1 hslots
    refine bind_run_congr rfl fun payload middle hpayload => bind_run_congr rfl ?_
    rintro _ _ ⟨⟩
    -- the new body takes the place of the old one in the pool that the making of it left
    have hgrown := hsame.grow (makeBody_gains name _ _ _ _ hpayload).growsTo
      RaiseRefs.codeName_not_mem_texts
    rw [hgrown.replaceCode_eq]

private theorem stubMethods_eq_of_sameButBody {methods others : List Member}
    (h : List.Forall₂ (Member.SameButBody state.pool) methods others) :
    others.mapM (stubMethod policy helper?) state =
      methods.mapM (stubMethod policy helper?) state := by
  induction methods generalizing others state with
  | nil => rw [List.forall₂_nil_left_iff.1 h]
  | cons method methods ih =>
    obtain ⟨other, others, hfirst, hrest, rfl⟩ := List.forall₂_cons_left_iff.1 h
    rw [List.mapM_cons, List.mapM_cons]
    refine bind_run_congr (stubMethod_eq_of_sameButBody hfirst) fun stubbed middle hmethod => ?_
    have hgains := stubMethod_gains other _ _ _ hmethod
    exact bind_run_congr (ih (hrest.imp fun _ _ h => h.gains hgains)) fun _ _ _ => rfl

/-- The search for a helper looks at names and descriptors only. -/
private theorem requireNoHelper_eq_of_sameButBody {className : String}
    {methods others : List Member} (h : List.Forall₂ (Member.SameButBody pool) methods others) :
    requireNoHelper className others = requireNoHelper className methods := by
  induction h with
  | nil => rfl
  | cons hfirst _ ih =>
    rw [requireNoHelper, List.forM_eq_forM, List.forM_cons, hfirst.sameButCode.name_eq,
      hfirst.sameButCode.descriptor_eq]
    exact congrArg _ (funext fun _ => ih)

private theorem stubClass_eq_of_sameButBody {className : String} {methods others : List Member}
    (h : List.Forall₂ (Member.SameButBody state.pool) methods others) :
    stubClass policy className others state = stubClass policy className methods state := by
  rw [stubClass, stubClass, requireNoHelper_eq_of_sameButBody h]
  refine bind_run_congr rfl fun _ middle hrequire => ?_
  obtain ⟨rfl, -⟩ := requireNoHelper_spec hrequire
  refine bind_run_congr rfl fun made middle hmake => ?_
  have hgains := makeHelper_gains className _ _ _ hmake
  exact bind_run_congr (stubMethods_eq_of_sameButBody (h.imp fun _ _ h => h.gains hgains))
    fun _ _ _ => rfl

end Stub

/-! ### Classes -/

namespace ClassFile

/-- The other class is the class, but for the payloads of bodies. -/
structure SameButBodies (c other : ClassFile) : Prop where
  eq : other = { c with methods := other.methods }
  methods : List.Forall₂ (Member.SameButBody c.pool) c.methods other.methods

variable {c other : ClassFile}

/-- **A stub does not depend on the bodies that it replaces.** Two classes that differ in the
payloads of bodies only have the same stub, or they fail to be stubbed for the same reason. -/
theorem stub_eq_of_sameButBodies (hmodule : c.isModule = false) (h : c.SameButBodies other) :
    other.stub policy = c.stub policy := by
  obtain ⟨methods, rfl⟩ : ∃ methods, other = { c with methods } := ⟨_, h.eq⟩
  have hmethods : List.Forall₂ (Member.SameButBody c.pool) c.methods methods := h.methods
  have hmodule' : isModule { c with methods } = false := hmodule
  cases hname : c.className with
  | error error =>
    have hname' : className { c with methods } = .error error := hname
    rw [stub, stub, hmodule, hmodule', hname, hname']
    rfl
  | ok name =>
    have hrun : stubRun policy { c with methods } name = c.stubRun policy name := by
      cases hinterface : c.isInterface with
      | true =>
        have hinterface' : isInterface { c with methods } = true := hinterface
        rw [stubRun, stubRun, if_pos hinterface, if_pos hinterface']
        exact Stub.stubMethods_eq_of_sameButBody hmethods
      | false =>
        have hinterface' : isInterface { c with methods } = false := hinterface
        rw [stubRun, stubRun, hinterface, hinterface']
        exact Stub.stubClass_eq_of_sameButBody hmethods
    rw [stub_of_className hmodule hname, stub_of_className hmodule' hname, hrun]

/-- The class `greeter` with a body that is no body: its payload cannot be read. -/
def garbledGreeter : ClassFile :=
  { greeter with methods := [⟨⟨0x0001⟩, 6, 7, [⟨5, [0xFF, 0x00]⟩]⟩] }

/-- Garbage in the place of a body makes no difference. -/
theorem stub_eq_of_sameButBodies_garbledGreeter :
    greeter.isModule = false ∧ greeter.SameButBodies garbledGreeter ∧
      garbledGreeter.stub .stub = .ok greeterStub := by
  have hsame : greeter.SameButBodies garbledGreeter := by
    have hnamed : Attribute.isNamed ((CodePayload.returning 4).toAttribute 5) greeter.pool
        Attribute.codeName = true := by decide
    refine ⟨rfl, .cons (.inr ⟨by decide, ?_⟩) .nil⟩
    have hnone : ∀ other ∈ [], ¬ Attribute.isNamed other greeter.pool Attribute.codeName :=
      fun _ hmem => absurd hmem List.not_mem_nil
    exact .replaced [0xFF, 0x00] (List.nil_append _).symm hnone hnamed
  exact ⟨by decide, hsame, by rw [stub_eq_of_sameButBodies (by decide) hsame, stub_greeter]⟩

end ClassFile

end ClassStub
