import ClassStub.Proofs.MethodRuns
import ClassStub.Proofs.StubFrame

/-!
# How many slots a stub takes

A stub needs room for the entries of the exception and, if it has a helper, for those of the
helper. Both are added at most once, so the room that is needed does not depend on the number of
methods, nor on what the pool holds.

That the entries of the exception are added once and no more is accounted for in the state of a
run: to the size of its pool is added what the entries may still take (`StubState.reach`). No step
over a method raises this number; the helper raises it by six.

The main result is `ClassFile.stub_space`.
-/

namespace ClassStub

variable {α β : Type} {policy : InitializerPolicy} {helper? : Option UInt16}
  {state state' : StubState} {slots more : Nat} {refused other : StubError → Prop}

/-! ### Steps that fit in a number of slots -/

/-- How large the pool can become: the entries of the exception may be still to come. -/
def StubState.reach (state : StubState) : Nat :=
  state.pool.size + if state.raise?.isSome then 0 else 8

private theorem StubState.size_le_reach (state : StubState) : state.pool.size ≤ state.reach :=
  Nat.le_add_right _ _

/-- The step raises the reach by no more than a number of slots. When it fails for want of room,
there was no room for the reach and these slots; other errors are those of `refused`. -/
structure StubAction.FitsIn (slots : Nat) (refused : StubError → Prop) (action : StubAction α)
    (state : StubState) : Prop where
  reach_le : ∀ a state', action state = .ok a state' → state'.reach ≤ state.reach + slots
  eq_error : ∀ error state', action state = .error error state' → refused error ∨
    (error = .pool .outOfSpace ∧ ConstantPool.maxSlots < state.reach + slots)

namespace StubAction

private theorem fitsIn_of_ok {action : StubAction α} {a : α} (h : action state = .ok a state) :
    FitsIn 0 refused action state := by
  constructor
  · intro b state' hrun
    obtain ⟨-, rfl⟩ := EStateM.Result.ok.inj (h.symm.trans hrun)
    exact Nat.le_refl _
  · intro error state' hrun
    exact nomatch h.symm.trans hrun

/-- Two actions need as many slots as both of them, and are refused where either is. -/
theorem FitsIn.bind {first : StubAction α} {next : α → StubAction β}
    (h : FitsIn slots refused first state)
    (hnext : ∀ a middle, first state = .ok a middle → FitsIn more refused (next a) middle) :
    FitsIn (slots + more) refused (first >>= next) state := by
  constructor
  · intro b state' hrun
    obtain ⟨a, middle, hfirst, hrest⟩ := bind_run_eq_ok_iff.1 hrun
    have hmiddle := h.reach_le a middle hfirst
    have hlast := (hnext a middle hfirst).reach_le b state' hrest
    omega
  · intro error state' hrun
    obtain hfirst | ⟨a, middle, hfirst, hrest⟩ := bind_run_eq_error_iff.1 hrun
    · refine (h.eq_error error state' hfirst).imp id fun ⟨herror, hfull⟩ => ⟨herror, ?_⟩
      omega
    · have hmiddle := h.reach_le a middle hfirst
      refine ((hnext a middle hfirst).eq_error error state' hrest).imp id
        fun ⟨herror, hfull⟩ => ⟨herror, ?_⟩
      omega

/-- The errors for which an action may be refused may be described more broadly. -/
theorem FitsIn.imp {action : StubAction α} (h : FitsIn slots refused action state)
    (hrefused : ∀ error, refused error → other error) : FitsIn slots other action state where
  reach_le := h.reach_le
  eq_error error state' hrun := (h.eq_error error state' hrun).imp (hrefused error) id

/-- An action on the pool takes the slots that it appends. -/
private theorem fitsIn_onPool {action : PoolAction α}
    (h : ConstantPool.FitsIn slots action state.pool) :
    FitsIn slots refused (onPool action) state := by
  constructor
  · intro a state' hrun
    obtain ⟨grown, haction, rfl⟩ := onPool_eq_ok_iff.1 hrun
    have hsize := h.size_le a grown haction
    rw [StubState.reach, StubState.reach]
    dsimp only
    omega
  · intro error state' hrun
    obtain ⟨cause, left, haction, rfl, -⟩ := onPool_eq_error_iff.1 hrun
    obtain ⟨rfl, hfull⟩ := h.full cause left haction
    have hreach := state.size_le_reach
    exact .inr ⟨rfl, by omega⟩

end StubAction

namespace Stub

open StubAction

/-! ### The steps -/

/-- The entries of the exception are within the reach from the start. -/
theorem fitsIn_raiseRefs (refused : StubError → Prop) (state : StubState) :
    FitsIn 0 refused raiseRefs state := by
  have hintern := RaiseRefs.fitsIn_intern state.pool
  constructor
  · intro refs state' hrun
    obtain ⟨-, rfl⟩ | ⟨hraise, grown, haction, rfl⟩ := raiseRefs_eq_ok_iff.1 hrun
    · exact Nat.le_refl _
    · have hsize := hintern.size_le refs grown haction
      rw [StubState.reach, StubState.reach, hraise]
      exact hsize
  · intro error state' hrun
    obtain ⟨hraise, cause, left, haction, rfl⟩ := raiseRefs_eq_error hrun
    obtain ⟨rfl, hfull⟩ := hintern.full cause left haction
    refine .inr ⟨rfl, ?_⟩
    rw [StubState.reach, hraise]
    exact hfull

/-- A method takes nothing beyond the reach. -/
private theorem fitsIn_stubMethod (method : Member) (state : StubState) :
    FitsIn 0 (method.Refused state.pool) (stubMethod policy helper? method) state := by
  constructor
  · intro stubbed state' hrun
    obtain ⟨-, -, rfl⟩ | ⟨-, name, descriptor, slots, payload, -, -, -, hmake, -⟩ :=
      stubMethod_eq_ok_iff.1 hrun
    · exact Nat.le_refl _
    · obtain ⟨-, rfl, -⟩ | ⟨-, ⟨helper, -, rfl, -⟩ | ⟨-, refs, hrefs, -⟩⟩ :=
        makeBody_eq_ok_iff.1 hmake
      · exact Nat.le_refl _
      · exact Nat.le_refl _
      · exact (fitsIn_raiseRefs (fun _ => False) state).reach_le refs state' hrefs
  · intro error state' hrun
    obtain ⟨-, hrefused | ⟨-, -, hraise⟩⟩ := stubMethod_eq_error hrun
    · exact .inl hrefused
    · exact (fitsIn_raiseRefs _ state).eq_error error state' hraise

/-- Nor does a run over any number of methods. -/
private theorem fitsIn_stubMethods (policy : InitializerPolicy) (helper? : Option UInt16)
    (methods : List Member) (state : StubState) :
    FitsIn 0 (fun error => ∃ pool, ∃ method ∈ methods, method.Refused pool error)
      (methods.mapM (stubMethod policy helper?)) state := by
  induction methods generalizing state with
  | nil => exact fitsIn_of_ok rfl
  | cons method methods ih =>
    rw [List.mapM_cons]
    change FitsIn (0 + (0 + 0)) _ _ state
    refine FitsIn.bind ?_ fun stubbed middle _ => ?_
    · refine (fitsIn_stubMethod method state).imp fun error hrefused => ?_
      exact ⟨state.pool, method, List.mem_cons_self, hrefused⟩
    · refine FitsIn.bind ?_ fun rest last _ => fitsIn_of_ok rfl
      refine (ih middle).imp fun error ⟨pool, other, hmem, hrefused⟩ => ?_
      exact ⟨pool, other, List.mem_cons_of_mem _ hmem, hrefused⟩

/-- The helper takes six slots beyond the reach: its name, its descriptor and the name of its
attribute, and a reference with two parts of its own, since all texts that it spells are in the
pool by then. -/
theorem fitsIn_makeHelper {className : String}
    (hname : (state.pool.findUtf8? className).isSome = true) :
    FitsIn 6 refused (makeHelper className) state := by
  have hmem : ∀ text ∈ [className, Helper.name, Helper.descriptor, Attribute.codeName],
      text ∈ helperTexts className := fun _ h => List.mem_append_left _ h
  change FitsIn (0 + (1 + (1 + (1 + (0 + (3 + 0)))))) refused _ state
  refine FitsIn.bind (fitsIn_raiseRefs _ state) fun refs s₁ hrefs => ?_
  refine FitsIn.bind (fitsIn_onPool (ConstantPool.fitsIn_internUtf8 _ _))
    fun nameIndex s₂ hnameIndex => ?_
  refine FitsIn.bind (fitsIn_onPool (ConstantPool.fitsIn_internUtf8 _ _))
    fun descriptorIndex s₃ hdescriptorIndex => ?_
  refine FitsIn.bind (fitsIn_onPool (ConstantPool.fitsIn_internUtf8 _ _))
    fun codeIndex s₄ hcodeIndex => ?_
  refine FitsIn.bind ?_ fun payload s₅ hpayload => ?_
  · rw [CodePayload.returningException_eq]
    exact fitsIn_of_ok rfl
  obtain ⟨-, rfl⟩ := ofDescriptor_eq_ok_iff.1 hpayload
  -- what was found or interned by a step is found in the pools behind it
  obtain ⟨p₂, hrun₂, rfl⟩ := onPool_eq_ok_iff.1 hnameIndex
  obtain ⟨p₃, hrun₃, rfl⟩ := onPool_eq_ok_iff.1 hdescriptorIndex
  obtain ⟨p₄, hrun₄, rfl⟩ := onPool_eq_ok_iff.1 hcodeIndex
  have hgrows₁ := (raiseRefs_gains _ _ _ hrefs).growsTo.mono (raiseTexts_subset className)
  have hgrows₂ := (ConstantPool.internUtf8_gains (hmem _ (by simp)) hrun₂).growsTo
  have hgrows₃ := (ConstantPool.internUtf8_gains (hmem _ (by simp)) hrun₃).growsTo
  have hgrows₄ := (ConstantPool.internUtf8_gains (hmem _ (by simp)) hrun₄).growsTo
  have howner := (((hgrows₁.trans hgrows₂).trans hgrows₃).trans hgrows₄).isSome_findUtf8? hname
  have hhelper := (hgrows₃.trans hgrows₄).isSome_findUtf8?
    (ConstantPool.isSome_findUtf8?_of_internUtf8 hrun₂)
  have hdescriptor := hgrows₄.isSome_findUtf8?
    (ConstantPool.isSome_findUtf8?_of_internUtf8 hrun₃)
  exact FitsIn.bind
    (fitsIn_onPool (ConstantPool.fitsIn_internMethodRef_of_isSome howner hhelper hdescriptor))
    fun reference _ _ => fitsIn_of_ok rfl

private theorem fitsIn_requireNoHelper (className : String) (methods : List Member)
    (state : StubState) :
    FitsIn 0 (· ≠ .pool .outOfSpace) (requireNoHelper className methods) state := by
  constructor
  · intro _ state' hrun
    obtain ⟨rfl, -⟩ := requireNoHelper_eq_ok_iff.1 hrun
    exact Nat.le_refl _
  · intro error state' hrun
    left
    obtain ⟨method, -, ⟨-, rfl⟩ | ⟨cause, rfl, hcause⟩⟩ := requireNoHelper_eq_error hrun
    · exact nofun
    · rintro ⟨⟩
      rcases hcause with hname | hdescriptor
      · exact state.pool.utf8_ne_outOfSpace _ hname
      · exact state.pool.utf8_ne_outOfSpace _ hdescriptor

/-- Other errors than that there is no room. -/
private theorem ne_outOfSpace_of_refused {methods : List Member} (error : StubError)
    (h : ∃ pool, ∃ method ∈ methods, method.Refused pool error) : error ≠ .pool .outOfSpace := by
  obtain ⟨pool, method, -, hrefused⟩ := h
  exact hrefused.ne_outOfSpace

private theorem fitsIn_stubClass (policy : InitializerPolicy) {className : String}
    (methods : List Member) (hname : (state.pool.findUtf8? className).isSome = true) :
    FitsIn 6 (· ≠ .pool .outOfSpace) (stubClass policy className methods) state := by
  change FitsIn (0 + (6 + (0 + 0))) _ _ state
  refine FitsIn.bind (fitsIn_requireNoHelper className methods state) fun _ middle hrequire => ?_
  obtain ⟨rfl, -⟩ := requireNoHelper_eq_ok_iff.1 hrequire
  refine FitsIn.bind (fitsIn_makeHelper hname) fun (helper, reference) made _ => ?_
  refine FitsIn.bind ?_ fun stubbed _ _ => fitsIn_of_ok rfl
  exact (fitsIn_stubMethods policy (some reference) methods made).imp ne_outOfSpace_of_refused

end Stub

/-! ### Classes -/

namespace ClassFile

/-- The most slots that the stub of a class has beyond those of the class. -/
def stubSlots (policy : InitializerPolicy) (c : ClassFile) : Nat :=
  if c.isModule then
    0
  else if c.isInterface then
    if c.methods.any (·.makesException policy c.pool) then 8 else 0
  else
    14

/-- The run over the methods of a class starts with this reach, and stays within it. -/
theorem stubRun_space (policy : InitializerPolicy) {c : ClassFile} {className : String}
    (hmodule : c.isModule = false)
    (hname : c.className = .ok className) :
    (∀ methods state, c.stubRun policy className = .ok methods state →
      state.pool.size ≤ c.pool.size + c.stubSlots policy) ∧
    ∀ state, c.stubRun policy className = .error (.pool .outOfSpace) state →
      ConstantPool.maxSlots < c.pool.size + c.stubSlots policy := by
  rw [stubSlots, hmodule, if_neg Bool.false_ne_true, stubRun]
  cases c.isInterface with
  | true =>
    rw [if_pos rfl, if_pos rfl]
    cases hraises : c.methods.any (·.makesException policy c.pool) with
    | true =>
      -- an interface needs its eight slots if some method makes the exception, and else none
      have hfits := Stub.fitsIn_stubMethods policy none c.methods ⟨c.pool, none⟩
      refine ⟨fun methods state hrun => ?_, fun state hrun => ?_⟩
      · exact Nat.le_trans state.size_le_reach (hfits.reach_le methods state hrun)
      · rcases hfits.eq_error _ state hrun with hrefused | ⟨-, hfull⟩
        · exact absurd rfl (Stub.ne_outOfSpace_of_refused _ hrefused)
        · exact hfull
    | false =>
      refine ⟨fun methods state hrun => ?_, fun state hrun => ?_⟩
      · have hstate := Stub.stubMethods_raise hrun
        rw [if_neg (by simp [hraises])] at hstate
        exact Nat.le_of_eq (congrArg (·.pool.size) hstate.symm)
      · obtain ⟨method, -, hrefused⟩ := Stub.stubMethods_eq_error hrun hraises
        exact absurd rfl hrefused.ne_outOfSpace
  | false =>
    -- the name of the class is in the pool, which the helper counts on
    obtain ⟨nameIndex, -, htext⟩ := ConstantPool.className_eq_ok_iff.1 hname
    have hfits : StubAction.FitsIn 6 _ (Stub.stubClass policy className c.methods)
        ⟨c.pool, none⟩ :=
      Stub.fitsIn_stubClass policy c.methods (ConstantPool.isSome_findUtf8?_of_utf8 htext)
    refine ⟨fun methods state hrun => ?_, fun state hrun => ?_⟩
    · exact Nat.le_trans state.size_le_reach (hfits.reach_le methods state hrun)
    · rcases hfits.eq_error _ state hrun with hother | ⟨-, hfull⟩
      · exact absurd rfl hother
      · exact hfull

/-- **How far a pool grows does not depend on the class.** A stub has at most fourteen slots more
than its class, at most eight more if this is an interface, and none more if it is a module
descriptor or an interface without a body that makes the exception. When the pool has room for so
many slots, stubbing does not fail for want of room. This holds of any class and any pool. -/
theorem stub_space (policy : InitializerPolicy) (c : ClassFile) :
    (∀ o, c.stub policy = .ok o → o.pool.size ≤ c.pool.size + c.stubSlots policy) ∧
      (c.pool.size + c.stubSlots policy ≤ ConstantPool.maxSlots →
        c.stub policy ≠ .error (.pool .outOfSpace)) := by
  constructor
  · intro o hstub
    obtain ⟨hmodule, rfl⟩ | ⟨hmodule, className, methods, state, hname, hrun, rfl⟩ :=
      stub_eq_ok_iff.1 hstub
    · exact Nat.le_add_right _ _
    · exact (stubRun_space policy hmodule hname).1 methods state hrun
  · intro hroom hstub
    obtain ⟨hmodule, ⟨cause, hcause, herror⟩ | ⟨className, state, hname, hrun⟩⟩ :=
      stub_eq_error hstub
    · obtain rfl := StubError.pool.inj herror
      exact c.pool.className_ne_outOfSpace _ hcause
    · exact Nat.not_lt.2 hroom ((stubRun_space policy hmodule hname).2 state hrun)

/-- A class whose name is in the pool twice, so that its own entry is not the one that is found. -/
def doublyNamed : ClassFile :=
  { empty with
    pool := ⟨#[.utf8 "p/A", .utf8 "p/A", .classRef 2, .utf8 objectClassName, .classRef 4]⟩
    thisClass := 3
    superClass := 5 }

/-- All fourteen slots may be needed. -/
theorem stub_space_doublyNamed :
    doublyNamed.pool.size + doublyNamed.stubSlots .stub ≤ ConstantPool.maxSlots ∧
      doublyNamed.stub .stub ≠ .error (.pool .outOfSpace) ∧
      (doublyNamed.stub .stub).toOption.map (·.pool.size) =
        some (doublyNamed.pool.size + doublyNamed.stubSlots .stub) := by
  obtain ⟨-, hroom⟩ := stub_space .stub doublyNamed
  exact ⟨by decide, hroom (by decide), by decide +kernel⟩

end ClassFile

end ClassStub
