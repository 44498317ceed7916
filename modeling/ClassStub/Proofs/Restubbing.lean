import ClassStub.Proofs.Finding
import ClassStub.Proofs.StubCheck

/-!
# Stubbing a stub

The stub of a class declares the helper, so it cannot be stubbed again: the methods of the class
still do not stand in the way, and then the search meets the helper itself.

The stub of an interface is its own stub. A body that was replaced is replaced by the same body
once more, because the entries of the exception are found in the pool where the first run put
them. This is so whenever the pool of the interface is closed, which the check of the pool
ensures. What a step does when it runs once more, in a pool that has grown in the meantime and
that it leaves as it is, is stated by `StubAction.Repeats`.
-/

namespace ClassStub

variable {α : Type} {policy : InitializerPolicy} {pool grown : ConstantPool} {texts : List String}
  {state state' : StubState}

/-! ### The search for the helper -/

namespace Stub

/-- A method that is not the helper is not the helper in a later pool. -/
theorem AllowsHelper.grow {method stubbed : Member} (h : AllowsHelper pool method)
    (hsame : method.SameButCode grown stubbed) (hgrows : pool.GrowsTo texts grown) :
    AllowsHelper grown stubbed := by
  obtain ⟨name, hname, hother⟩ := h
  refine ⟨name, ?_, fun hhelper => ?_⟩
  · rw [hsame.name_eq]
    exact hgrows.utf8 hname
  · obtain ⟨descriptor, hdescriptor, hne⟩ := hother hhelper
    refine ⟨descriptor, ?_, hne⟩
    rw [hsame.descriptor_eq]
    exact hgrows.utf8 hdescriptor

/-- Behind methods that do not stand in the way, the search meets the helper. -/
private theorem requireNoHelper_append {className : String} {methods : List Member}
    {helper : Member} (hmethods : ∀ method ∈ methods, AllowsHelper state.pool method)
    (hhelper : helper.isDeclaredAs state.pool Helper.name Helper.descriptor = true) :
    requireNoHelper className (methods ++ [helper]) state =
      .error (.helperNameCollision className) state := by
  obtain ⟨hname, hdescriptor⟩ := Member.isDeclaredAs_iff.1 hhelper
  have happend : requireNoHelper className (methods ++ [helper]) =
      requireNoHelper className methods >>= fun _ => requireNoHelper className [helper] :=
    List.forM_append
  rw [happend, bind_run_of_ok (requireNoHelper_eq_ok_iff.2 ⟨rfl, hmethods⟩)]
  refine bind_run_of_error ?_
  refine (bind_run_of_ok (StubAction.lookUp_eq_ok_iff.2 ⟨hname, rfl⟩)).trans ?_
  rw [if_pos (beq_self_eq_true _),
    bind_run_of_ok (StubAction.lookUp_eq_ok_iff.2 ⟨hdescriptor, rfl⟩),
    if_pos (beq_self_eq_true _)]
  rfl

end Stub

/-! ### Steps that are run once more -/

/-- The pool is closed, and the entries of the exception are those that are found in it. -/
structure StubState.Settled (state : StubState) : Prop where
  isClosed : state.pool.IsClosed
  raise : ∀ refs, state.raise? = some refs → refs.FoundIn state.pool

/-- In a pool that has grown from the given one, the step succeeds with the value, and it leaves
the pool as it is. -/
def StubAction.Repeats (action : StubAction α) (a : α) (pool : ConstantPool) : Prop :=
  ∀ state : StubState, state.Settled → pool.GrowsTo RaiseRefs.texts state.pool →
    ∃ state', action state = .ok a state' ∧ state'.pool = state.pool ∧ state'.Settled

/-- What can be repeated can be repeated in a later pool. -/
theorem StubAction.Repeats.grow {action : StubAction α} {a : α} (h : action.Repeats a pool)
    (hgrows : pool.GrowsTo RaiseRefs.texts grown) : action.Repeats a grown :=
  fun state hstate hlater => h state hstate (hgrows.trans hlater)

namespace Stub

private theorem raiseRefs_repeats {refs : RaiseRefs} (h : refs.FoundIn pool) :
    raiseRefs.Repeats refs pool := by
  intro state hstate hlater
  have hfound := h.grow hlater
  cases hraise : state.raise? with
  | some present =>
    rw [(hstate.raise present hraise).eq hfound] at hraise
    exact ⟨state, raiseRefs_eq_ok_iff.2 (.inl ⟨hraise, rfl⟩), rfl, hstate⟩
  | none =>
    refine ⟨⟨state.pool, some refs⟩, raiseRefs_eq_ok_iff.2
      (.inr ⟨hraise, state.pool, hfound.intern, rfl⟩), rfl, hstate.isClosed, ?_⟩
    rintro _ ⟨⟩
    exact hfound

private theorem raiseRefs_settled (hstate : state.Settled) {refs : RaiseRefs}
    (hrun : raiseRefs state = .ok refs state') : state'.Settled ∧ refs.FoundIn state'.pool := by
  obtain ⟨hraise, rfl⟩ | ⟨-, grown, hintern, rfl⟩ := raiseRefs_eq_ok_iff.1 hrun
  · exact ⟨hstate, hstate.raise _ hraise⟩
  · have hfound := RaiseRefs.intern_found hstate.isClosed hintern
    refine ⟨⟨(RaiseRefs.intern_gains hintern).isClosed hstate.isClosed, ?_⟩, hfound⟩
    rintro _ ⟨⟩
    exact hfound

/-- The body that a method of an interface was given is made for it once more. -/
private theorem makeBody_repeats (hstate : state.Settled) {name : String} {maxLocals : UInt16}
    {payload : CodePayload}
    (hrun : makeBody policy none name maxLocals state = .ok payload state') :
    state'.Settled ∧ (makeBody policy none name maxLocals).Repeats payload state'.pool := by
  obtain ⟨hempty, rfl, rfl⟩ | ⟨hraises, ⟨_, ⟨⟩, -⟩ | ⟨-, refs, hrefs, rfl⟩⟩ :=
    makeBody_eq_ok_iff.1 hrun
  · refine ⟨hstate, fun later hlater _ => ⟨later, ?_, rfl, hlater⟩⟩
    exact makeBody_eq_ok_iff.2 (.inl ⟨hempty, rfl, rfl⟩)
  · obtain ⟨hsettled, hfound⟩ := raiseRefs_settled hstate hrefs
    refine ⟨hsettled, fun later hlater hgrows => ?_⟩
    obtain ⟨last, hagain, hpool, hlast⟩ := raiseRefs_repeats hfound later hlater hgrows
    refine ⟨last, ?_, hpool, hlast⟩
    exact makeBody_eq_ok_iff.2 (.inr ⟨hraises, .inr ⟨rfl, refs, hagain, rfl⟩⟩)

/-- A stubbed method of an interface is stubbed to itself. -/
private theorem stubMethod_repeats (hstate : state.Settled) {method stubbed : Member}
    (hrun : stubMethod policy none method state = .ok stubbed state') :
    state'.Settled ∧ (stubMethod policy none stubbed).Repeats stubbed state'.pool := by
  have hcode := RaiseRefs.codeName_not_mem_texts
  have hsame := stubMethod_sameButCode hrun
  have hgrows := (stubMethod_gains method _ _ _ hrun).growsTo
  obtain ⟨hbody, rfl, rfl⟩ | ⟨hbody, name, descriptor, slots, payload, hname, hdescriptor, hslots,
    hmake, rfl⟩ := stubMethod_eq_ok_iff.1 hrun
  · refine ⟨hstate, fun later hlater hgrows => ⟨later, ?_, rfl, hlater⟩⟩
    refine stubMethod_eq_ok_iff.2 (.inl ⟨?_, rfl, rfl⟩)
    rw [Member.hasBody_of_growsTo hgrows hcode, hbody]
  · obtain ⟨hsettled, hrepeats⟩ := makeBody_repeats hstate hmake
    refine ⟨hsettled, fun later hlater hgrows' => ?_⟩
    obtain ⟨last, hagain, hpool, hlast⟩ := hrepeats later hlater hgrows'
    have hall := hgrows.trans hgrows'
    -- the stubbed method has the name and the descriptor of the method, and its first `Code`
    -- attribute is in the same place
    refine ⟨last, stubMethod_eq_ok_iff.2 (.inr ⟨?_, name, descriptor, slots, payload, ?_, ?_,
      hslots, ?_, ?_⟩), hpool, hlast⟩
    · rw [(hsame.grow hgrows' hcode).hasBody_eq, Member.hasBody_of_growsTo hall hcode, hbody]
    · rw [Member.name_replaceCode]
      exact hall.utf8 hname
    · rw [Member.descriptor_replaceCode]
      exact hall.utf8 hdescriptor
    · rw [Member.receiverSlots_replaceCode]
      exact hagain
    · rw [hpool, (hsame.grow hgrows' hcode).replaceCode_eq,
        Member.replaceCode_of_growsTo hgrows' hcode]

/-- The stubbed methods of an interface are stubbed to themselves, all in one pool. -/
private theorem stubMethods_repeats (hstate : state.Settled) {methods stubbed : List Member}
    (hrun : methods.mapM (stubMethod policy none) state = .ok stubbed state') :
    state'.Settled ∧ (stubbed.mapM (stubMethod policy none)).Repeats stubbed state'.pool := by
  obtain ⟨hsettled, -, hrepeats⟩ := mapM_run_eq_ok StubState.Settled
    (fun s s' => s.pool.GrowsTo RaiseRefs.texts s'.pool)
    (fun s _ stubbed => (stubMethod policy none stubbed).Repeats stubbed s.pool)
    (fun _ => .refl _ _) (fun _ _ _ => .trans)
    (fun method s stubbed s' hs hmethod => by
      obtain ⟨hs', hrepeats⟩ := stubMethod_repeats hs hmethod
      exact ⟨hs', (stubMethod_gains method _ _ _ hmethod).growsTo, hrepeats⟩)
    (fun _ _ _ _ hgrows hrepeats => hrepeats.grow hgrows) hstate hrun
  refine ⟨hsettled, ?_⟩
  clear hrun
  induction hrepeats with
  | nil => exact fun later hlater _ => ⟨later, rfl, rfl, hlater⟩
  | @cons _ method _ rest hfirst _ ih =>
    intro later hlater hgrows
    obtain ⟨middle, hmethod, hpool, hmiddle⟩ := hfirst later hlater hgrows
    obtain ⟨last, hrest, hpool', hlast⟩ := ih middle hmiddle (by rwa [hpool])
    refine ⟨last, ?_, hpool'.trans hpool, hlast⟩
    exact mapM_cons_run_eq_ok_iff.2 ⟨method, middle, rest, hmethod, hrest, rfl⟩

end Stub

/-! ### Classes -/

namespace ClassFile

variable {c o : ClassFile}

/-- The stub of a class cannot be stubbed, for it declares the helper. -/
private theorem stub_stub_of_class (hstub : c.stub policy = .ok o)
    (hinterface : c.isInterface = false)
    (hmodule : c.isModule = false) (hsize : c.pool.size ≤ ConstantPool.maxSlots) :
    ∃ className, c.className = .ok className ∧
      ∀ policy', o.stub policy' = .error (.helperNameCollision className) := by
  have hmethods := stub_methods hstub
  have hgrows := (stub_gains hstub).growsTo
  rw [hinterface, hmodule, if_neg (by decide)] at hmethods
  obtain ⟨stubbed, helper, hresult, -, hdeclared, hsame⟩ := hmethods
  obtain ⟨hmodule', -⟩ | ⟨-, className, _, _, hname, hrun, -⟩ := stub_eq_ok_iff.1 hstub
  · exact absurd (hmodule.symm.trans hmodule') (by decide)
  rw [if_neg (by simp [hinterface])] at hrun
  obtain ⟨_, _, hrequire, -⟩ := bind_run_eq_ok_iff.1 hrun
  obtain ⟨-, hallows⟩ := Stub.requireNoHelper_eq_ok_iff.1 hrequire
  -- what the first search let through, the second one lets through, up to the helper
  have hallows' : ∀ method ∈ stubbed, Stub.AllowsHelper o.pool method :=
    forall_mem_of_forall₂ hsame hallows fun method stubbed h hsame => h.grow hsame hgrows
  refine ⟨className, hname, fun policy' => ?_⟩
  have hcollision : Stub.stubClass policy' className o.methods ⟨o.pool, none⟩ =
      .error (.helperNameCollision className) ⟨o.pool, none⟩ := by
    rw [hresult]
    exact bind_run_of_error (Stub.requireNoHelper_append hallows' (hdeclared hsize))
  obtain ⟨pool, methods, rfl⟩ : ∃ pool methods, o = { c with pool, methods } :=
    ⟨_, _, stub_eq hstub⟩
  have hname' := (readsAlike_of_stub hstub).className className hname
  have hmodule' : isModule { c with pool, methods } = false := hmodule
  have hinterface' : isInterface { c with pool, methods } = false := hinterface
  rw [stub_of_className hmodule' hname', stubRun, hinterface', if_neg Bool.false_ne_true,
    hcollision]

/-- The stub of an interface with a closed pool is its own stub. -/
private theorem stub_stub_of_interface (hstub : c.stub policy = .ok o)
    (hinterface : c.isInterface = true) (hclosed : c.pool.IsClosed) : o.stub policy = .ok o := by
  obtain ⟨hmodule, rfl⟩ | ⟨hmodule, className, stubbed, state, hname, hrun, rfl⟩ :=
    stub_eq_ok_iff.1 hstub
  · exact hstub
  rw [if_pos hinterface] at hrun
  have hstart : StubState.Settled ⟨c.pool, none⟩ := ⟨hclosed, fun _ h => nomatch h⟩
  obtain ⟨hsettled, hrepeats⟩ := Stub.stubMethods_repeats hstart hrun
  obtain ⟨last, hagain, hpool, -⟩ := hrepeats ⟨state.pool, none⟩
    ⟨hsettled.isClosed, fun _ h => nomatch h⟩ (.refl _ _)
  have hname' := (readsAlike_of_stub hstub).className className hname
  have hinterface' : isInterface { c with pool := state.pool, methods := stubbed } = true :=
    hinterface
  refine stub_eq_ok_iff.2 (.inr ⟨hmodule, className, stubbed, last, hname', ?_, ?_⟩)
  · rw [if_pos hinterface']
    exact hagain
  · rw [hpool]

/-- **Stubbing twice.** The stub of a class is refused, under every policy, as a class that
declares the helper. The stub of a module descriptor, and that of an interface whose pool passes
the check, is its own stub: the second run leaves the methods and adds nothing to the pool. -/
theorem stub_stub (hstub : c.stub policy = .ok o) :
    (c.isInterface = false → c.isModule = false → c.pool.size ≤ ConstantPool.maxSlots →
      ∃ className, c.className = .ok className ∧
        ∀ policy', o.stub policy' = .error (.helperNameCollision className)) ∧
      (c.isModule = true → o.stub policy = .ok o) ∧
      (c.isInterface = true → c.checkPool = .ok () → o.stub policy = .ok o) := by
  refine ⟨stub_stub_of_class hstub, fun hmodule => ?_, fun hinterface hcheck =>
    stub_stub_of_interface hstub hinterface (isClosed_of_checkPool hcheck)⟩
  obtain ⟨-, rfl⟩ | ⟨hmodule', -⟩ := stub_eq_ok_iff.1 hstub
  · exact hstub
  · exact absurd (hmodule.symm.trans hmodule') (by decide)

/-- The interface with the members of `greeter`, whose method has a default body. -/
def greeterInterface : ClassFile := { greeter with access := ⟨0x0601⟩ }

/-- The method makes the exception, for which eight entries were added to the pool. -/
def greeterInterfaceStub : ClassFile :=
  { greeterInterface with
    pool := ⟨greeter.pool.slots ++ #[.utf8 Diagnostic.exceptionClass, .classRef 8,
      .utf8 Diagnostic.message, .string 10, .utf8 constructorName,
      .utf8 Diagnostic.constructorDescriptor, .nameAndType 12 13, .methodRef 9 14]⟩
    methods := [⟨⟨0x0001⟩, 6, 7,
      [(GeneratedBody.raisingInline ⟨9, 11, 15⟩ 4).payload.toAttribute 5]⟩] }

/-- A class whose stub has the helper, and an interface whose stub is stubbed to itself. -/
theorem stub_stub_greeter :
    (greeter.stub .stub = .ok greeterStub ∧
      greeterStub.stub .empty = .error (.helperNameCollision "p/Greeter")) ∧
    greeterInterface.stub .stub = .ok greeterInterfaceStub ∧
      greeterInterfaceStub.stub .stub = .ok greeterInterfaceStub := by
  have hinterface : greeterInterface.stub .stub = .ok greeterInterfaceStub := by
    rw [← toOption_eq_some_iff]
    decide +kernel
  have hcheck : greeterInterface.checkPool = .ok () := by
    rw [← toOption_eq_some_iff]
    decide +kernel
  obtain ⟨hclass, -⟩ := stub_stub stub_greeter
  obtain ⟨className, hname, hcollision⟩ := hclass (by decide) (by decide) (by decide)
  obtain rfl : "p/Greeter" = className := Except.ok.inj hname
  obtain ⟨-, -, hsame⟩ := stub_stub hinterface
  exact ⟨⟨stub_greeter, hcollision .empty⟩, hinterface, hsame (by decide) hcheck⟩

end ClassFile

end ClassStub
