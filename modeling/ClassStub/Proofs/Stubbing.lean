import ClassStub.Proofs.StubShape

/-!
# Opening the stubbing of a class

Stubbing is a chain of steps that pass a pool on. The invariant of the chain is that the pool is
admissible and holds the entries of the exception once they were added (`StubState.Sound`); each
step keeps it and lets the pool grow (`StubState.Advances`). What a step resolved or placed is
carried to the pool that is left at the end, and there the result has the shape that
`ClassFile.IsStub` describes (`ClassFile.isStub_of_stub`).
-/

namespace ClassStub

variable {α : Type} {policy : InitializerPolicy} {helper? : Option UInt16}
  {pool grown : ConstantPool} {texts : List String} {state state' : StubState}

/-! ### Steps of stubbing -/

namespace StubAction

/-- An action on the pool changes nothing else. -/
theorem onPool_eq_ok_iff {action : PoolAction α} {a : α} :
    onPool action state = .ok a state' ↔
      ∃ pool, action state.pool = .ok a pool ∧ state' = { state with pool } := by
  rw [onPool]
  cases action state.pool with
  | ok found pool =>
    constructor
    · rintro ⟨⟩
      exact ⟨pool, rfl, rfl⟩
    · rintro ⟨_, ⟨⟩, rfl⟩
      rfl
  | error error pool => simp

/-- A look-up changes nothing. -/
theorem lookUp_eq_ok_iff {resolve : ConstantPool → Except PoolError α} {a : α} :
    lookUp resolve state = .ok a state' ↔ resolve state.pool = .ok a ∧ state = state' := by
  rw [lookUp]
  cases resolve state.pool with
  | ok found => simp
  | error error => simp

/-- A look at a descriptor changes nothing. -/
theorem ofDescriptor_eq_ok_iff {value : Except DescriptorError α} {a : α} :
    ofDescriptor value state = .ok a state' ↔ value = .ok a ∧ state = state' := by
  cases value with
  | ok found => rw [ofDescriptor, pure_run_eq_ok_iff, Except.ok.injEq]
  | error error =>
    constructor
    · intro h
      exact nomatch h
    · rintro ⟨⟨⟩, -⟩

end StubAction

/-- The pool is admissible, and the entries of the exception are in it once they were added. -/
structure StubState.Sound (state : StubState) : Prop where
  size_le : state.pool.size ≤ ConstantPool.maxSlots
  raise : ∀ refs, state.raise? = some refs → refs.ResolveIn state.pool

/-- A run of a step of stubbing: the state stays sound, and its pool grows by some texts. -/
structure StubState.Advances (texts : List String) (state state' : StubState) : Prop where
  grows : state.pool.GrowsTo texts state'.pool
  sound : state'.Sound

/-- A sound state advances to itself. -/
theorem StubState.Advances.refl (texts : List String) (h : state.Sound) :
    state.Advances texts state :=
  ⟨.refl texts _, h⟩

/-- Advancing twice is advancing. -/
theorem StubState.Advances.trans {state'' : StubState} (h₁ : state.Advances texts state')
    (h₂ : state'.Advances texts state'') : state.Advances texts state'' :=
  ⟨h₁.grows.trans h₂.grows, h₂.sound⟩

/-- More texts may be admitted than were interned. -/
theorem StubState.Advances.mono {more : List String} (h : state.Advances texts state')
    (hsub : texts ⊆ more) : state.Advances more state' :=
  ⟨h.grows.mono hsub, h.sound⟩

/-- An interning action as a step of stubbing. -/
private theorem StubState.Sound.onPool {action : PoolAction α} {a : α}
    {resolved : ConstantPool → Prop} (hstate : state.Sound)
    (hspec : ∀ grown, action state.pool = .ok a grown →
      ConstantPool.Interned texts state.pool grown (resolved grown))
    (hrun : StubAction.onPool action state = .ok a state') :
    state.Advances texts state' ∧ resolved state'.pool := by
  obtain ⟨grown, haction, rfl⟩ := StubAction.onPool_eq_ok_iff.1 hrun
  obtain ⟨hgrows, hsize, hresolved⟩ := hspec grown haction
  exact ⟨⟨hgrows, hsize, fun refs hrefs => (hstate.raise refs hrefs).grow hgrows⟩, hresolved⟩

/-- Interning a text advances the state and resolves to the text. -/
theorem StubState.Sound.internUtf8 (hstate : state.Sound) {text : String} (htext : text ∈ texts)
    {index : UInt16}
    (hrun : StubAction.onPool (ConstantPool.internUtf8 text) state = .ok index state') :
    state.Advances texts state' ∧ state'.pool.utf8 index = .ok text :=
  hstate.onPool (fun _ => ConstantPool.internUtf8_spec hstate.size_le htext) hrun

namespace Stub

/-- The entries of the exception are those that were added before, or they are interned now. -/
theorem raiseRefs_eq_ok_iff {refs : RaiseRefs} :
    raiseRefs state = .ok refs state' ↔ (state.raise? = some refs ∧ state = state') ∨
      (state.raise? = none ∧ ∃ grown, RaiseRefs.intern state.pool = .ok refs grown ∧
        ⟨grown, some refs⟩ = state') := by
  rw [raiseRefs, bind_run_of_ok (get_run state)]
  cases state.raise? with
  | some present => simp [pure_run_eq_ok_iff]
  | none =>
    simp only [bind_run_eq_ok_iff, StubAction.onPool_eq_ok_iff, reduceCtorEq, false_and, true_and,
      false_or]
    constructor
    · rintro ⟨_, _, ⟨grown, hintern, rfl⟩, _, _, ⟨⟩, ⟨⟩⟩
      exact ⟨grown, hintern, rfl⟩
    · rintro ⟨grown, hintern, rfl⟩
      exact ⟨refs, _, ⟨grown, hintern, rfl⟩, (), _, rfl, rfl⟩

private theorem raiseRefs_spec (hstate : state.Sound) {refs : RaiseRefs}
    (hrun : raiseRefs state = .ok refs state') :
    state.Advances RaiseRefs.texts state' ∧ refs.ResolveIn state'.pool := by
  obtain ⟨hraise, rfl⟩ | ⟨-, grown, hintern, rfl⟩ := raiseRefs_eq_ok_iff.1 hrun
  · exact ⟨.refl _ hstate, hstate.raise _ hraise⟩
  · obtain ⟨hgrows, hsize, hresolved⟩ := RaiseRefs.intern_spec hstate.size_le hintern
    refine ⟨⟨hgrows, hsize, ?_⟩, hresolved⟩
    rintro _ ⟨⟩
    exact hresolved

/-! ### The helper -/

/-- Making a helper advances the state and gives a helper. -/
theorem makeHelper_spec (hstate : state.Sound) {className : String} {helper : Member}
    {reference : UInt16}
    (hrun : makeHelper className state = .ok (helper, reference) state') :
    state.Advances (helperTexts className) state' ∧
      ∃ refs, IsHelper className state'.pool reference refs helper := by
  obtain ⟨refs, s₁, hrefs, hrun⟩ := bind_run_eq_ok_iff.1 hrun
  obtain ⟨nameIndex, s₂, hname, hrun⟩ := bind_run_eq_ok_iff.1 hrun
  obtain ⟨descriptorIndex, s₃, hdescriptor, hrun⟩ := bind_run_eq_ok_iff.1 hrun
  obtain ⟨codeIndex, s₄, hcode, hrun⟩ := bind_run_eq_ok_iff.1 hrun
  obtain ⟨payload, _, hpayload, hrun⟩ := bind_run_eq_ok_iff.1 hrun
  obtain ⟨_, s₅, hreference, hpure⟩ := bind_run_eq_ok_iff.1 hrun
  obtain ⟨⟨⟩, rfl⟩ := pure_run_eq_ok_iff.1 hpure
  rw [CodePayload.returningException_eq] at hpayload
  obtain ⟨⟨⟩, rfl⟩ := StubAction.ofDescriptor_eq_ok_iff.1 hpayload
  -- each step starts in the sound state that the one before it left
  have hmem : ∀ text ∈ [className, Helper.name, Helper.descriptor, Attribute.codeName],
      text ∈ helperTexts className := fun _ h => List.mem_append_left _ h
  obtain ⟨h₁, hresolve⟩ := raiseRefs_spec hstate hrefs
  replace h₁ := h₁.mono (raiseTexts_subset className)
  obtain ⟨h₂, hname⟩ := h₁.sound.internUtf8 (hmem _ (by simp)) hname
  obtain ⟨h₃, hdescriptor⟩ := h₂.sound.internUtf8 (hmem _ (by simp)) hdescriptor
  obtain ⟨h₄, hcode⟩ := h₃.sound.internUtf8 (hmem _ (by simp)) hcode
  obtain ⟨h₅, hreference⟩ := h₄.sound.onPool (fun _ => ConstantPool.internMethodRef_spec
    h₄.sound.size_le (hmem _ (by simp)) (hmem _ (by simp)) (hmem _ (by simp))) hreference
  -- what a step resolved is carried to the pool at the end
  have h₄₅ := h₅.grows
  have h₃₅ := h₄.grows.trans h₄₅
  have h₂₅ := h₃.grows.trans h₃₅
  have h₁₅ := h₂.grows.trans h₂₅
  exact ⟨⟨h₁.grows.trans h₁₅, h₅.sound⟩, refs, ⟨rfl, h₂₅.utf8 hname, h₃₅.utf8 hdescriptor,
    ⟨codeIndex, h₄₅.utf8 hcode, rfl⟩, hresolve.grow h₁₅, hreference⟩⟩

/-- The method does not stand in the way of a helper: it has a name, and if this is the helper's,
it has a descriptor that is another. -/
def AllowsHelper (pool : ConstantPool) (method : Member) : Prop :=
  ∃ name, method.name pool = .ok name ∧ (name = Helper.name →
    ∃ descriptor, method.descriptor pool = .ok descriptor ∧ descriptor ≠ Helper.descriptor)

/-- Such a method is not the helper, also when the pool has grown. -/
private theorem AllowsHelper.isDeclaredAs_eq_false {method : Member} (h : AllowsHelper pool method)
    (hgrows : pool.GrowsTo texts grown) :
    method.isDeclaredAs grown Helper.name Helper.descriptor = false := by
  obtain ⟨name, hname, hother⟩ := h
  rw [Bool.eq_false_iff, Ne, Member.isDeclaredAs_iff]
  rintro ⟨hhelper, hdescriptor⟩
  rw [Member.name, hgrows.utf8 hname, Except.ok.injEq] at hhelper
  obtain ⟨descriptor, hfound, hne⟩ := hother hhelper
  rw [Member.descriptor, hgrows.utf8 hfound, Except.ok.injEq] at hdescriptor
  exact hne hdescriptor

/-- The search for a helper succeeds when no method stands in the way, and changes nothing. -/
theorem requireNoHelper_eq_ok_iff {className : String} {methods : List Member} :
    requireNoHelper className methods state = .ok () state' ↔
      state = state' ∧ ∀ method ∈ methods, AllowsHelper state.pool method := by
  induction methods with
  | nil =>
    refine pure_run_eq_ok_iff.trans ?_
    simp
  | cons method methods ih =>
    rw [requireNoHelper, List.forM_eq_forM, List.forM_cons, List.forall_mem_cons]
    simp only [bind_run_eq_ok_iff, StubAction.lookUp_eq_ok_iff]
    constructor
    · rintro ⟨_, middle, ⟨name, _, ⟨hname, rfl⟩, hmethod⟩, hrest⟩
      -- the descriptor is looked up under the helper's name only
      by_cases hhelper : name = Helper.name
      · rw [if_pos (beq_iff_eq.2 hhelper), bind_run_eq_ok_iff] at hmethod
        obtain ⟨descriptor, _, hlook, hmethod⟩ := hmethod
        obtain ⟨hdescriptor, rfl⟩ := StubAction.lookUp_eq_ok_iff.1 hlook
        split at hmethod
        case isTrue => exact nomatch hmethod
        case isFalse hne =>
          rw [beq_iff_eq] at hne
          obtain ⟨-, rfl⟩ := pure_run_eq_ok_iff.1 hmethod
          obtain ⟨rfl, hmethods⟩ := ih.1 hrest
          exact ⟨rfl, ⟨name, hname, fun _ => ⟨descriptor, hdescriptor, hne⟩⟩, hmethods⟩
      · rw [if_neg (by simpa using hhelper)] at hmethod
        obtain ⟨-, rfl⟩ := pure_run_eq_ok_iff.1 hmethod
        obtain ⟨rfl, hmethods⟩ := ih.1 hrest
        exact ⟨rfl, ⟨name, hname, fun h => absurd h hhelper⟩, hmethods⟩
    · rintro ⟨rfl, ⟨name, hname, hother⟩, hmethods⟩
      refine ⟨(), state, ⟨name, state, ⟨hname, rfl⟩, ?_⟩, ih.2 ⟨rfl, hmethods⟩⟩
      by_cases hhelper : name = Helper.name
      · obtain ⟨descriptor, hdescriptor, hne⟩ := hother hhelper
        rw [if_pos (beq_iff_eq.2 hhelper)]
        refine bind_run_eq_ok_iff.2
          ⟨descriptor, state, StubAction.lookUp_eq_ok_iff.2 ⟨hdescriptor, rfl⟩, ?_⟩
        rw [if_neg (by simpa using hne)]
        rfl
      · rw [if_neg (by simpa using hhelper)]
        rfl

/-- If no method is the helper now, then none is in any later pool. -/
theorem requireNoHelper_spec {className : String} {methods : List Member}
    (hrun : requireNoHelper className methods state = .ok () state') :
    state = state' ∧ ∀ method ∈ methods, ∀ {texts : List String} {grown : ConstantPool},
      state.pool.GrowsTo texts grown →
        method.isDeclaredAs grown Helper.name Helper.descriptor = false := by
  obtain ⟨hstate, hmethods⟩ := requireNoHelper_eq_ok_iff.1 hrun
  exact ⟨hstate, fun method hmem _ _ hgrows =>
    (hmethods method hmem).isDeclaredAs_eq_false hgrows⟩

/-! ### Methods -/

/-- The body of a method is empty, or it calls the helper, or it makes the exception. -/
theorem makeBody_eq_ok_iff {name : String} {maxLocals : UInt16} {payload : CodePayload} :
    makeBody policy helper? name maxLocals state = .ok payload state' ↔
      ((name = initializerName ∧ policy = .empty) ∧ state = state' ∧
        payload = (GeneratedBody.returning maxLocals).payload) ∨
      (¬ (name = initializerName ∧ policy = .empty) ∧
        ((∃ helper, helper? = some helper ∧ state = state' ∧
          payload = (GeneratedBody.delegating helper maxLocals).payload) ∨
        (helper? = none ∧ ∃ refs, raiseRefs state = .ok refs state' ∧
          payload = (GeneratedBody.raisingInline refs maxLocals).payload))) := by
  unfold makeBody
  by_cases hempty : name = initializerName ∧ policy = .empty
  · rw [if_pos (by simpa using hempty), pure_run_eq_ok_iff, CodePayload.returning_eq]
    simp [hempty, eq_comm, and_comm]
  · rw [if_neg (by simpa using hempty)]
    cases helper? with
    | some helper =>
      rw [StubAction.ofDescriptor_eq_ok_iff, CodePayload.delegating_eq, Except.ok.injEq]
      simp [hempty, eq_comm, and_comm]
    | none =>
      simp only [bind_run_eq_ok_iff, StubAction.ofDescriptor_eq_ok_iff,
        CodePayload.raisingInline_eq, Except.ok.injEq]
      simp [hempty, eq_comm, and_comm]

private theorem makeBody_spec (hstate : state.Sound) {name : String} {maxLocals : UInt16}
    {payload : CodePayload}
    (hrun : makeBody policy helper? name maxLocals state = .ok payload state') :
    state.Advances RaiseRefs.texts state' ∧ ∃ body : GeneratedBody, payload = body.payload ∧
      body.maxLocals = maxLocals ∧ body.Suits policy helper? state'.pool name := by
  obtain ⟨hempty, rfl, rfl⟩ | ⟨-, ⟨helper, rfl, rfl, rfl⟩ | ⟨rfl, refs, hrefs, rfl⟩⟩ :=
    makeBody_eq_ok_iff.1 hrun
  · exact ⟨.refl _ hstate, .returning maxLocals, rfl, rfl, hempty⟩
  · exact ⟨.refl _ hstate, .delegating helper maxLocals, rfl, rfl, rfl⟩
  · obtain ⟨hadvances, hresolve⟩ := raiseRefs_spec hstate hrefs
    exact ⟨hadvances, .raisingInline refs maxLocals, rfl, rfl, rfl, hresolve⟩

/-- A method without a body is kept; else a body is made for its name and its slots, and put into
the first attribute that is named `Code` in the pool that is left then. -/
theorem stubMethod_eq_ok_iff {method stubbed : Member} :
    stubMethod policy helper? method state = .ok stubbed state' ↔
      (method.hasBody state.pool = false ∧ method = stubbed ∧ state = state') ∨
      (method.hasBody state.pool = true ∧ ∃ name descriptor slots payload,
        method.name state.pool = .ok name ∧ method.descriptor state.pool = .ok descriptor ∧
        parameterSlots descriptor = .ok slots ∧
        makeBody policy helper? name (UInt16.ofNat (slots + method.receiverSlots)) state =
          .ok payload state' ∧
        method.replaceCode state'.pool payload = stubbed) := by
  rw [stubMethod, bind_run_of_ok (get_run state)]
  cases method.hasBody state.pool with
  | false => simp [pure_run_eq_ok_iff]
  | true =>
    simp only [if_true, bind_run_eq_ok_iff, StubAction.lookUp_eq_ok_iff,
      StubAction.ofDescriptor_eq_ok_iff, Bool.true_eq_false, false_and, true_and, false_or]
    constructor
    · rintro ⟨name, _, ⟨hname, rfl⟩, descriptor, _, ⟨hdescriptor, rfl⟩, slots, _, ⟨hslots, rfl⟩,
        payload, _, hmake, _, _, ⟨⟩, ⟨⟩⟩
      exact ⟨name, descriptor, slots, payload, hname, hdescriptor, hslots, hmake, rfl⟩
    · rintro ⟨name, descriptor, slots, payload, hname, hdescriptor, hslots, hmake, rfl⟩
      exact ⟨name, _, ⟨hname, rfl⟩, descriptor, _, ⟨hdescriptor, rfl⟩, slots, _, ⟨hslots, rfl⟩,
        payload, _, hmake, _, _, rfl, rfl⟩

private theorem stubMethod_spec (hstate : state.Sound) {method stubbed : Member}
    (hrun : stubMethod policy helper? method state = .ok stubbed state') :
    state.Advances RaiseRefs.texts state' ∧
      method.StubbedTo policy helper? state'.pool stubbed := by
  obtain ⟨hbody, rfl, rfl⟩ | ⟨hbody, name, descriptor, slots, payload, hname, hdescriptor, hslots,
    hmake, rfl⟩ := stubMethod_eq_ok_iff.1 hrun
  · exact ⟨.refl _ hstate, .kept hbody⟩
  · obtain ⟨hadvances, body, rfl, hlocals, hsuits⟩ := makeBody_spec hstate hmake
    have hgrows := hadvances.grows
    refine ⟨hadvances, .replaced ?_ (hgrows.utf8 hname) (hgrows.utf8 hdescriptor) hslots hlocals
      hsuits⟩
    rw [Member.hasBody_of_growsTo hgrows RaiseRefs.codeName_not_mem_texts, hbody]

/-- Each method is seen in the pool that is left when all were visited. -/
private theorem stubMethods_spec (hstate : state.Sound) {methods stubbed : List Member}
    (hrun : methods.mapM (stubMethod policy helper?) state = .ok stubbed state') :
    state.Advances RaiseRefs.texts state' ∧
      List.Forall₂ (Member.StubbedTo policy helper? state'.pool) methods stubbed := by
  obtain ⟨hsound, hgrows, hstubbed⟩ := mapM_run_eq_ok StubState.Sound
    (fun s s' => s.pool.GrowsTo RaiseRefs.texts s'.pool)
    (fun s => Member.StubbedTo policy helper? s.pool) (fun _ => .refl _ _)
    (fun _ _ _ => .trans)
    (fun method s stubbed s' hs hmethod => by
      obtain ⟨hadvances, hstubbed⟩ := stubMethod_spec hs hmethod
      exact ⟨hadvances.sound, hadvances.grows, hstubbed⟩)
    (fun _ _ _ _ hgrows hstubbed => hstubbed.grow hgrows) hstate hrun
  exact ⟨⟨hgrows, hsound⟩, hstubbed⟩

/-- Abstract and native methods are left alone, and nothing is added to the pool for them. -/
theorem stubMethods_of_isBodiless {methods : List Member}
    (h : ∀ method ∈ methods, method.isBodiless = true) :
    methods.mapM (stubMethod policy helper?) state = .ok methods state := by
  induction methods with
  | nil => rfl
  | cons method methods ih =>
    rw [List.forall_mem_cons] at h
    have hmethod : stubMethod policy helper? method state = .ok method state :=
      stubMethod_eq_ok_iff.2 (.inl ⟨by simp [Member.hasBody, h.1], rfl, rfl⟩)
    exact mapM_cons_run_eq_ok_iff.2 ⟨method, state, methods, hmethod, ih h.2, rfl⟩

/-! ### Classes -/

private theorem stubInterface_spec (hstate : state.Sound) {methods stubbed : List Member}
    (hrun : stubInterface policy methods state = .ok stubbed state') :
    state.Advances RaiseRefs.texts state' ∧
      List.Forall₂ (Member.StubbedTo policy none state'.pool) methods stubbed :=
  stubMethods_spec hstate hrun

private theorem stubClass_spec (hstate : state.Sound) {className : String}
    {methods result : List Member}
    (hrun : stubClass policy className methods state = .ok result state') :
    state.Advances (helperTexts className) state' ∧ ∃ reference refs helper stubbed,
      result = stubbed ++ [helper] ∧
      IsHelper className state'.pool reference refs helper ∧
      (∀ method ∈ methods,
        method.isDeclaredAs state'.pool Helper.name Helper.descriptor = false) ∧
      List.Forall₂ (Member.StubbedTo policy (some reference) state'.pool) methods stubbed := by
  obtain ⟨_, _, hrequire, hrun⟩ := bind_run_eq_ok_iff.1 hrun
  obtain ⟨⟨helper, reference⟩, middle, hmake, hrun⟩ := bind_run_eq_ok_iff.1 hrun
  obtain ⟨stubbed, _, hmethods, hpure⟩ := bind_run_eq_ok_iff.1 hrun
  obtain ⟨rfl, rfl⟩ := pure_run_eq_ok_iff.1 hpure
  obtain ⟨rfl, hothers⟩ := requireNoHelper_spec hrequire
  obtain ⟨h₁, refs, hhelper⟩ := makeHelper_spec hstate hmake
  obtain ⟨h₂, hstubbed⟩ := stubMethods_spec h₁.sound hmethods
  have hadvances := h₁.trans (h₂.mono (raiseTexts_subset className))
  exact ⟨hadvances, reference, refs, helper, stubbed, rfl, hhelper.grow h₂.grows,
    fun method hmem => hothers method hmem hadvances.grows, hstubbed⟩

end Stub

/-- A module descriptor is its own stub. Any other class must have a name, and its stub has the
pool and the methods that are left when the methods were visited. -/
theorem ClassFile.stub_eq_ok_iff {c o : ClassFile} :
    c.stub policy = .ok o ↔ (c.isModule = true ∧ c = o) ∨
      (c.isModule = false ∧ ∃ className methods state, c.className = .ok className ∧
        (if c.isInterface then Stub.stubInterface policy c.methods
          else Stub.stubClass policy className c.methods) ⟨c.pool, none⟩ = .ok methods state ∧
        { c with pool := state.pool, methods } = o) := by
  rw [stub]
  cases c.isModule with
  | true =>
    rw [if_pos rfl, pure_eq_ok_iff]
    simp
  | false =>
    rw [if_neg Bool.false_ne_true, bind_eq_ok_iff]
    simp only [mapError_eq_ok_iff, Bool.false_eq_true, false_and, true_and, false_or]
    refine exists_congr fun className => ?_
    dsimp only [EStateM.run]
    split
    case h_1 methods state hrun => simp [hrun, pure_eq_ok_iff]
    case h_2 error state hrun => simp [hrun]

/-- The run in which the methods of a class of the given name are visited. -/
def ClassFile.stubRun (policy : InitializerPolicy) (c : ClassFile) (className : String) :
    EStateM.Result StubError StubState (List Member) :=
  (if c.isInterface then Stub.stubInterface policy c.methods
    else Stub.stubClass policy className c.methods) ⟨c.pool, none⟩

/-- Whether a class with a name can be stubbed, and to what, is decided by this run. -/
theorem ClassFile.stub_of_className {c : ClassFile} {className : String}
    (hmodule : c.isModule = false) (hname : c.className = .ok className) :
    c.stub policy = match c.stubRun policy className with
      | .ok methods state => .ok { c with pool := state.pool, methods }
      | .error error _ => .error error := by
  rw [stub, hmodule, hname]
  rfl

/-- A class that can be stubbed is made into what `ClassFile.IsStub` says. -/
theorem ClassFile.isStub_of_stub {c o : ClassFile} (hmodule : c.isModule = false)
    (hsize : c.pool.size ≤ ConstantPool.maxSlots) (hstub : c.stub policy = .ok o) :
    c.IsStub policy o := by
  have hstate : StubState.Sound ⟨c.pool, none⟩ := ⟨hsize, fun _ h => nomatch h⟩
  rcases stub_eq_ok_iff.1 hstub with ⟨hmodule', -⟩ | ⟨-, className, result, state, hname, hrun, rfl⟩
  · rw [hmodule] at hmodule'
    exact nomatch hmodule'
  · cases hinterface : c.isInterface with
    | true =>
      rw [if_pos hinterface] at hrun
      obtain ⟨hadvances, hmethods⟩ := Stub.stubInterface_spec hstate hrun
      exact .ofInterface hinterface hadvances.grows hadvances.sound.size_le hmethods
    | false =>
      rw [if_neg (by simp [hinterface])] at hrun
      obtain ⟨hadvances, reference, refs, helper, stubbed, rfl, hhelper, hothers, hmethods⟩ :=
        Stub.stubClass_spec hstate hrun
      exact .ofClass hinterface hadvances.grows hadvances.sound.size_le
        (hadvances.grows.className hname) hhelper hothers hmethods

/-! ### A small class and its stub -/

/-- A class with one method, which takes an `int` and a `long`. -/
def greeter : ClassFile where
  magic := ClassFile.magicNumber
  minorVersion := 0
  majorVersion := 52
  pool := ⟨#[.utf8 "p/Greeter", .classRef 1, .utf8 objectClassName, .classRef 3,
    .utf8 Attribute.codeName, .utf8 "greet", .utf8 "(IJ)V"]⟩
  access := ⟨0x0021⟩
  thisClass := 2
  superClass := 4
  interfaces := []
  fields := []
  methods := [⟨⟨0x0001⟩, 6, 7, [(CodePayload.returning 4).toAttribute 5]⟩]
  attributes := []

/-- The method calls the helper, for which twelve entries were added to the pool. -/
def greeterStub : ClassFile :=
  { greeter with
    pool := ⟨greeter.pool.slots ++ #[.utf8 Diagnostic.exceptionClass, .classRef 8,
      .utf8 Diagnostic.message, .string 10, .utf8 constructorName,
      .utf8 Diagnostic.constructorDescriptor, .nameAndType 12 13, .methodRef 9 14,
      .utf8 Helper.name, .utf8 Helper.descriptor, .nameAndType 16 17, .methodRef 2 18]⟩
    methods := [⟨⟨0x0001⟩, 6, 7, [(GeneratedBody.delegating 19 4).payload.toAttribute 5]⟩,
      ⟨Helper.access, 16, 17,
        [(GeneratedBody.returningException ⟨9, 11, 15⟩).payload.toAttribute 5]⟩] }

theorem stub_greeter : greeter.stub .stub = .ok greeterStub := by
  rw [← toOption_eq_some_iff]
  decide +kernel

end ClassStub
