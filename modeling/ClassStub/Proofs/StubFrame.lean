import ClassStub.Proofs.NewEntries
import ClassStub.Proofs.Stubbing

/-!
# What a stub leaves as it is

A stub differs from its class in the pool, which is longer, and in the methods. This holds of
any class, sound or not: nothing is asked of its pool, its members or their attributes.

The methods are looked at while the pool grows, and the names in the stub are looked up in the
pool that is left. So each step of stubbing is first shown to do no more to the pool than to let
it gain entries (`StubAction.Gains`), none of which is a text `Signature` or `Exceptions`. The
name of the class is among the texts that are interned, and it may be one of these; but it is in
the pool from the start and so is not appended (`ClassFile.stub_gains`).

The main result is `ClassFile.stub_preserves_shape`.
-/

namespace ClassStub

variable {α β : Type} {policy : InitializerPolicy} {helper? : Option UInt16}
  {pool grown : ConstantPool} {texts : List String} {state state' : StubState}

/-! ### Steps of stubbing -/

/-- When the step succeeds, the pool has gained entries and is otherwise the same. -/
def StubAction.Gains (texts : List String) (action : StubAction α) : Prop :=
  ∀ state a state', action state = .ok a state' → state.pool.Gains texts state'.pool

namespace StubAction

private theorem gains_pure (a : α) : (pure a : StubAction α).Gains texts := by
  intro state b state' hrun
  obtain ⟨-, rfl⟩ := pure_run_eq_ok_iff.1 hrun
  exact .refl texts _

/-- Two actions gain what each of them gains. -/
theorem Gains.bind {action : StubAction α} {next : α → StubAction β} (h : action.Gains texts)
    (hnext : ∀ a, (next a).Gains texts) : (action >>= next).Gains texts := by
  intro state b state' hrun
  obtain ⟨a, middle, hfirst, hrest⟩ := bind_run_eq_ok_iff.1 hrun
  exact (h _ _ _ hfirst).trans (hnext a _ _ _ hrest)

/-- More texts may be admitted than are gained. -/
theorem Gains.mono {action : StubAction α} {more : List String} (h : action.Gains texts)
    (hsub : texts ⊆ more) : action.Gains more :=
  fun state a state' hrun => (h state a state' hrun).mono hsub

private theorem gains_get : (get : StubAction StubState).Gains texts := by
  rintro state _ _ ⟨⟩
  exact .refl texts _

private theorem gains_onPool {action : PoolAction α}
    (h : ∀ pool a grown, action pool = .ok a grown → pool.Gains texts grown) :
    (onPool action).Gains texts := by
  intro state a state' hrun
  obtain ⟨grown, haction, rfl⟩ := onPool_eq_ok_iff.1 hrun
  exact h _ _ _ haction

private theorem gains_lookUp (resolve : ConstantPool → Except PoolError α) :
    (lookUp resolve).Gains texts := by
  intro state a state' hrun
  obtain ⟨-, rfl⟩ := lookUp_eq_ok_iff.1 hrun
  exact .refl texts _

private theorem gains_ofDescriptor (value : Except DescriptorError α) :
    (ofDescriptor value).Gains texts := by
  intro state a state' hrun
  obtain ⟨-, rfl⟩ := ofDescriptor_eq_ok_iff.1 hrun
  exact .refl texts _

end StubAction

namespace Stub

open StubAction

/-- The references of raising code gain entries for its texts. -/
theorem raiseRefs_gains : raiseRefs.Gains RaiseRefs.texts := by
  refine gains_get.bind fun state => ?_
  split
  · exact gains_pure _
  · refine (gains_onPool fun _ _ _ => RaiseRefs.intern_gains).bind fun refs => ?_
    refine Gains.bind ?_ fun _ => gains_pure refs
    -- that the entries are there is kept beside the pool
    rintro state _ _ ⟨⟩
    exact .refl _ _

/-- The helper gains entries for its own texts. -/
theorem makeHelper_gains (className : String) :
    (makeHelper className).Gains (helperTexts className) := by
  have hmem : ∀ text ∈ [className, Helper.name, Helper.descriptor, Attribute.codeName],
      text ∈ helperTexts className := fun _ h => List.mem_append_left _ h
  have hintern : ∀ text ∈ [Helper.name, Helper.descriptor, Attribute.codeName],
      (onPool (ConstantPool.internUtf8 text)).Gains (helperTexts className) :=
    fun text h => gains_onPool fun _ _ _ =>
      ConstantPool.internUtf8_gains (hmem text (List.mem_cons_of_mem _ h))
  refine (raiseRefs_gains.mono (raiseTexts_subset className)).bind fun refs => ?_
  refine (hintern _ (by simp)).bind fun nameIndex => ?_
  refine (hintern _ (by simp)).bind fun descriptorIndex => ?_
  refine (hintern _ (by simp)).bind fun codeIndex => ?_
  refine (gains_ofDescriptor _).bind fun payload => ?_
  refine (gains_onPool fun _ _ _ => ConstantPool.internMethodRef_gains (hmem _ (by simp))
    (hmem _ (by simp)) (hmem _ (by simp))).bind fun reference => ?_
  exact gains_pure _

/-- Every body gains entries for the texts of raising code, at most. -/
theorem makeBody_gains (name : String) (maxLocals : UInt16) :
    (makeBody policy helper? name maxLocals).Gains RaiseRefs.texts := by
  unfold makeBody
  split
  · exact gains_pure _
  · split
    · exact gains_ofDescriptor _
    · exact raiseRefs_gains.bind fun refs => gains_ofDescriptor _

/-- Stubbing a method gains entries for the texts of raising code, at most. -/
theorem stubMethod_gains (method : Member) :
    (stubMethod policy helper? method).Gains RaiseRefs.texts := by
  refine gains_get.bind fun state => ?_
  split
  · refine (gains_lookUp _).bind fun name => (gains_lookUp _).bind fun descriptor => ?_
    refine (gains_ofDescriptor _).bind fun slots => ?_
    exact (makeBody_gains name _).bind fun payload => gains_get.bind fun _ => gains_pure _
  · exact gains_pure _

/-- Stubbing a method changes its code at most. -/
theorem stubMethod_sameButCode {method stubbed : Member}
    (hrun : stubMethod policy helper? method state = .ok stubbed state') :
    method.SameButCode state'.pool stubbed := by
  obtain ⟨-, rfl, -⟩ | ⟨-, name, descriptor, slots, payload, -, -, -, -, rfl⟩ :=
    stubMethod_eq_ok_iff.1 hrun
  · exact .same
  · -- the attribute is looked for in the pool that the making of the body left
    exact method.sameButCode_replaceCode payload

/-- Each method but for its code, as it is seen in the pool that is left when all were visited. -/
theorem stubMethods_sameButCode {methods stubbed : List Member}
    (hrun : methods.mapM (stubMethod policy helper?) state = .ok stubbed state') :
    state.pool.Gains RaiseRefs.texts state'.pool ∧
      List.Forall₂ (Member.SameButCode state'.pool) methods stubbed := by
  obtain ⟨-, hgains, hsame⟩ := mapM_run_eq_ok (fun _ => True)
    (fun s s' => s.pool.Gains RaiseRefs.texts s'.pool) (fun s => Member.SameButCode s.pool)
    (fun _ => .refl _ _) (fun _ _ _ => .trans)
    (fun method s stubbed s' _ hmethod =>
      ⟨trivial, stubMethod_gains method _ _ _ hmethod, stubMethod_sameButCode hmethod⟩)
    (fun _ _ _ _ hgains hsame => hsame.grow hgains.growsTo RaiseRefs.codeName_not_mem_texts)
    trivial hrun
  exact ⟨hgains, hsame⟩

private theorem makeHelper_access {className : String} {helper : Member} {reference : UInt16}
    (hrun : makeHelper className state = .ok (helper, reference) state') :
    helper.access = Helper.access := by
  obtain ⟨refs, _, -, hrun⟩ := bind_run_eq_ok_iff.1 hrun
  obtain ⟨nameIndex, _, -, hrun⟩ := bind_run_eq_ok_iff.1 hrun
  obtain ⟨descriptorIndex, _, -, hrun⟩ := bind_run_eq_ok_iff.1 hrun
  obtain ⟨codeIndex, _, -, hrun⟩ := bind_run_eq_ok_iff.1 hrun
  obtain ⟨payload, _, -, hrun⟩ := bind_run_eq_ok_iff.1 hrun
  obtain ⟨_, _, -, hpure⟩ := bind_run_eq_ok_iff.1 hrun
  obtain ⟨⟨⟩, -⟩ := pure_run_eq_ok_iff.1 hpure
  rfl

private theorem stubClass_frame {className : String} {methods result : List Member}
    (hrun : stubClass policy className methods state = .ok result state') :
    state.pool.Gains (helperTexts className) state'.pool ∧ ∃ stubbed helper,
      result = stubbed ++ [helper] ∧ helper.access = Helper.access ∧
      (state.Sound → helper.isDeclaredAs state'.pool Helper.name Helper.descriptor = true) ∧
      List.Forall₂ (Member.SameButCode state'.pool) methods stubbed := by
  obtain ⟨_, _, hrequire, hrun⟩ := bind_run_eq_ok_iff.1 hrun
  obtain ⟨⟨helper, reference⟩, middle, hmake, hrun⟩ := bind_run_eq_ok_iff.1 hrun
  obtain ⟨stubbed, _, hmethods, hpure⟩ := bind_run_eq_ok_iff.1 hrun
  obtain ⟨rfl, rfl⟩ := pure_run_eq_ok_iff.1 hpure
  obtain ⟨rfl, -⟩ := requireNoHelper_spec hrequire
  obtain ⟨hgains, hsame⟩ := stubMethods_sameButCode hmethods
  have hstart := makeHelper_gains className _ _ _ hmake
  refine ⟨hstart.trans (hgains.mono (raiseTexts_subset className)), stubbed, helper, rfl,
    makeHelper_access hmake, fun hstate => ?_, hsame⟩
  obtain ⟨-, refs, hhelper⟩ := makeHelper_spec hstate hmake
  exact Member.isDeclaredAs_iff.2
    ⟨hgains.growsTo.utf8 hhelper.name, hgains.growsTo.utf8 hhelper.descriptor⟩

/-- The texts that stubbing may append to a pool. -/
def newTexts : List String :=
  [Helper.name, Helper.descriptor, Attribute.codeName] ++ RaiseRefs.texts

end Stub

/-! ### What is read from a class and from its stub -/

/-- What can be read from the member in the pool is read from the other member in the later
pool, too. -/
structure Member.ReadsAlike (pool grown : ConstantPool) (member other : Member) : Prop where
  name : ∀ name, member.name pool = .ok name → other.name grown = .ok name
  descriptor : ∀ descriptor, member.descriptor pool = .ok descriptor →
    other.descriptor grown = .ok descriptor
  signature : ∀ signature, member.signature pool = .ok signature →
    other.signature grown = .ok signature
  exceptions : ∀ names, member.exceptions pool = .ok names → other.exceptions grown = .ok names

private theorem Member.SameButCode.readsAlike {method other : Member}
    (h : method.SameButCode grown other) (hgrows : pool.GrowsTo Stub.newTexts grown) :
    method.ReadsAlike pool grown other where
  name name hname := by
    rw [h.name_eq]
    exact hgrows.utf8 hname
  descriptor descriptor hdescriptor := by
    rw [h.descriptor_eq]
    exact hgrows.utf8 hdescriptor
  signature signature hsignature := by
    rw [h.signature_eq]
    exact Attribute.findSignature_of_growsTo hgrows (by decide) hsignature
  exceptions names hnames := by
    rw [h.exceptions_eq]
    exact exceptions_of_growsTo hgrows (by decide) hnames

namespace ClassFile

/-- What can be read from the class is read from the other class, too. The methods of the first
come first among those of the other. -/
structure ReadsAlike (c o : ClassFile) : Prop where
  className : ∀ name, c.className = .ok name → o.className = .ok name
  superName : ∀ name, c.superName = .ok name → o.superName = .ok name
  interfaceNames : ∀ names, c.interfaceNames = .ok names → o.interfaceNames = .ok names
  signature : ∀ signature, c.signature = .ok signature → o.signature = .ok signature
  fields : List.Forall₂ (Member.ReadsAlike c.pool o.pool) c.fields o.fields
  methods : List.Forall₂ (Member.ReadsAlike c.pool o.pool) c.methods
    (o.methods.take c.methods.length)

variable {c o : ClassFile}

/-- The pool of a stub is the pool of the class with new entries, and no text among these but
those for the helper and the exception. -/
theorem stub_gains (hstub : c.stub policy = .ok o) : c.pool.Gains Stub.newTexts o.pool := by
  rcases stub_eq_ok_iff.1 hstub with ⟨-, rfl⟩ | ⟨-, className, methods, state, hname, hrun, rfl⟩
  · exact .refl _ _
  · split at hrun
    case isTrue =>
      exact (Stub.stubMethods_sameButCode hrun).1.mono (List.subset_append_right _ _)
    case isFalse =>
      -- the class has its name in the pool, so the name is not appended for the helper
      obtain ⟨nameIndex, -, htext⟩ := ConstantPool.className_eq_ok_iff.1 hname
      rw [ConstantPool.utf8_eq_ok_iff] at htext
      refine (Stub.stubClass_frame hrun).1.of_mem fun text hmem => ?_
      rcases List.mem_cons.1 hmem with rfl | hmem
      · exact .inl (ConstantPool.mem_slots_of_get? htext)
      · exact .inr hmem

/-- A stub differs from its class in the pool and the methods only. -/
theorem stub_eq (hstub : c.stub policy = .ok o) :
    o = { c with pool := o.pool, methods := o.methods } := by
  rcases stub_eq_ok_iff.1 hstub with ⟨-, rfl⟩ | ⟨-, _, _, _, -, -, rfl⟩ <;> rfl

/-- The methods of a stub are those of the class but for their code, and behind them stands the
helper unless the class is an interface or a module descriptor. -/
theorem stub_methods (hstub : c.stub policy = .ok o) :
    if c.isInterface || c.isModule then
      List.Forall₂ (Member.SameButCode o.pool) c.methods o.methods
    else ∃ stubbed helper, o.methods = stubbed ++ [helper] ∧ helper.access = Helper.access ∧
      (c.pool.size ≤ ConstantPool.maxSlots →
        helper.isDeclaredAs o.pool Helper.name Helper.descriptor = true) ∧
      List.Forall₂ (Member.SameButCode o.pool) c.methods stubbed := by
  rcases stub_eq_ok_iff.1 hstub with ⟨hmodule, rfl⟩ | ⟨hmodule, _, _, _, -, hrun, rfl⟩
  · rw [hmodule, Bool.or_true, if_pos rfl]
    exact List.forall₂_same.2 fun _ _ => .same
  · rw [hmodule, Bool.or_false]
    cases hinterface : c.isInterface with
    | true =>
      rw [if_pos hinterface] at hrun
      rw [if_pos rfl]
      exact (Stub.stubMethods_sameButCode hrun).2
    | false =>
      rw [if_neg (by simp [hinterface])] at hrun
      rw [if_neg Bool.false_ne_true]
      obtain ⟨-, stubbed, helper, hresult, haccess, hdeclared, hsame⟩ := Stub.stubClass_frame hrun
      exact ⟨stubbed, helper, hresult, haccess,
        fun hsize => hdeclared ⟨hsize, fun _ h => nomatch h⟩, hsame⟩

private theorem stub_methods_take (hstub : c.stub policy = .ok o) :
    List.Forall₂ (Member.SameButCode o.pool) c.methods (o.methods.take c.methods.length) := by
  have hmethods := stub_methods hstub
  split at hmethods
  case isTrue =>
    rw [hmethods.length_eq, List.take_length]
    exact hmethods
  case isFalse =>
    obtain ⟨stubbed, helper, hresult, -, -, hsame⟩ := hmethods
    rw [hresult, hsame.length_eq, List.take_left]
    exact hsame

/-- What can be read from a class is read from its stub, too. -/
theorem readsAlike_of_stub (hstub : c.stub policy = .ok o) : c.ReadsAlike o := by
  have hgrows := (stub_gains hstub).growsTo
  have hmethods := stub_methods_take hstub
  obtain ⟨pool, methods, rfl⟩ : ∃ pool methods, o = { c with pool, methods } :=
    ⟨o.pool, o.methods, stub_eq hstub⟩
  refine ⟨fun name hname => hgrows.className hname, fun name hname => ?_, fun names hnames => ?_,
    fun signature hsignature => Attribute.findSignature_of_growsTo hgrows (by decide) hsignature,
    List.forall₂_same.2 fun field _ => Member.SameButCode.same.readsAlike hgrows,
    hmethods.imp fun method stubbed hsame => hsame.readsAlike hgrows⟩
  · -- a superclass of zero is not looked up
    rw [superName] at hname ⊢
    split at hname
    case isTrue hzero => rwa [if_pos hzero]
    case isFalse hzero =>
      rw [if_neg hzero]
      obtain ⟨found, hfound, hpure⟩ := bind_eq_ok_iff.1 hname
      exact bind_eq_ok_iff.2 ⟨found, hgrows.className hfound, hpure⟩
  · exact mapM_eq_ok_iff.2 ((mapM_eq_ok_iff.1 hnames).imp fun _ _ h => hgrows.className h)

/-- **A stub has the shape of its class.** Only the pool and the methods differ. The pool of the
class is the front of the pool of the stub. The methods are those of the class in their order,
each the same but for the payload of its first `Code` attribute, and behind them stands the
helper, unless the class is an interface or a module descriptor. So whatever can be read from the
class and its members is read from the stub as well. -/
theorem stub_preserves_shape (hstub : c.stub policy = .ok o) :
    o = { c with pool := o.pool, methods := o.methods } ∧
    c.pool.slots.toList <+: o.pool.slots.toList ∧
    (if c.isInterface || c.isModule then
      List.Forall₂ (Member.SameButCode o.pool) c.methods o.methods
    else ∃ stubbed helper, o.methods = stubbed ++ [helper] ∧ helper.access = Helper.access ∧
      (c.pool.size ≤ ConstantPool.maxSlots →
        helper.isDeclaredAs o.pool Helper.name Helper.descriptor = true) ∧
      List.Forall₂ (Member.SameButCode o.pool) c.methods stubbed) ∧
    c.ReadsAlike o := by
  obtain ⟨added, hslots, -⟩ := (stub_gains hstub).growsTo
  exact ⟨stub_eq hstub, ⟨added, hslots.symm⟩, stub_methods hstub, readsAlike_of_stub hstub⟩

/-- A class and its stub, which reads alike. -/
theorem stub_preserves_shape_greeter :
    greeter.stub .stub = .ok greeterStub ∧
      greeter.pool.slots.toList <+: greeterStub.pool.slots.toList ∧
      greeter.ReadsAlike greeterStub := by
  obtain ⟨-, hpool, -, hreads⟩ := stub_preserves_shape stub_greeter
  exact ⟨stub_greeter, hpool, hreads⟩

end ClassFile

end ClassStub
