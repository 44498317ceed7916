import ClassStub.Proofs.PoolSpace
import ClassStub.Proofs.Stubbing

/-!
# Runs over methods

A run over the methods of a class stops at the first method that cannot be stubbed. There are two
reasons for that. The method may be refused on its own account (`Member.Refused`): its name or its
descriptor cannot be read, or the descriptor is not that of a method. Or its body makes the
exception and the pool has no room for the entries of it.

In an interface, these entries are added for the first body that makes the exception
(`Member.makesException`) and for no other. So what a run leaves is either what it started from or
what it is after adding the entries at the start (`Stub.stubMethods_raise`), and it does not
matter at which method this happened.
-/

namespace ClassStub

variable {α : Type} {policy : InitializerPolicy} {helper? : Option UInt16} {pool : ConstantPool}
  {state state' : StubState} {error : StubError} {method stubbed : Member}

/-! ### Steps that fail -/

namespace StubAction

/-- An action on the pool may leave some of its entries behind when it fails. -/
theorem onPool_eq_error_iff {action : PoolAction α} :
    onPool action state = .error error state' ↔ ∃ cause left,
      action state.pool = .error cause left ∧ .pool cause = error ∧
        { state with pool := left } = state' := by
  rw [onPool]
  cases action state.pool with
  | ok a grown => simp
  | error cause left => simp [and_assoc]

private theorem lookUp_eq_error_iff {resolve : ConstantPool → Except PoolError α} :
    lookUp resolve state = .error error state' ↔ ∃ cause,
      resolve state.pool = .error cause ∧ .pool cause = error ∧ state = state' := by
  rw [lookUp]
  cases resolve state.pool with
  | ok a => simp
  | error cause => simp

private theorem ofDescriptor_eq_error_iff {value : Except DescriptorError α} :
    ofDescriptor value state = .error error state' ↔ ∃ cause,
      value = .error cause ∧ .descriptor cause = error ∧ state = state' := by
  cases value with
  | ok a =>
    constructor
    · intro h
      exact nomatch h
    · rintro ⟨_, ⟨⟩, -⟩
  | error cause =>
    constructor
    · rintro ⟨⟩
      exact ⟨cause, rfl, rfl, rfl⟩
    · rintro ⟨_, ⟨⟩, rfl, rfl⟩
      rfl

end StubAction

/-- Why a method is refused, whatever the run has done before. -/
inductive Member.Refused (pool : ConstantPool) (method : Member) : StubError → Prop
  | name {cause : PoolError} (h : method.name pool = .error cause) :
      Refused pool method (.pool cause)
  | descriptor {cause : PoolError} (h : method.descriptor pool = .error cause) :
      Refused pool method (.pool cause)
  | slots {descriptor : String} {cause : DescriptorError}
      (hdescriptor : method.descriptor pool = .ok descriptor)
      (h : parameterSlots descriptor = .error cause) : Refused pool method (.descriptor cause)

/-- A method is not refused for lack of room. -/
theorem Member.Refused.ne_outOfSpace (h : method.Refused pool error) :
    error ≠ .pool .outOfSpace := by
  cases h with
  | name h =>
    rintro ⟨⟩
    exact pool.utf8_ne_outOfSpace _ h
  | descriptor h =>
    rintro ⟨⟩
    exact pool.utf8_ne_outOfSpace _ h
  | slots => simp

/-- The method has a body in the pool, it is not refused, and under the policy its body raises
the exception. -/
def Member.makesException (policy : InitializerPolicy) (pool : ConstantPool) (method : Member) :
    Bool :=
  method.hasBody pool &&
    match method.name pool, method.descriptor pool with
    | .ok name, .ok descriptor =>
      (parameterSlots descriptor).isOk && !(name == initializerName && policy == .empty)
    | _, _ => false

/-- An exception is made for a method with a body that is not an initializer to be emptied. -/
theorem Member.makesException_iff {method : Member} :
    method.makesException policy pool = true ↔ method.hasBody pool = true ∧
      ∃ name descriptor slots, method.name pool = .ok name ∧
        method.descriptor pool = .ok descriptor ∧ parameterSlots descriptor = .ok slots ∧
        ¬ (name = initializerName ∧ policy = .empty) := by
  rw [makesException, Bool.and_eq_true]
  refine and_congr_right fun _ => ?_
  cases method.name pool with
  | error => simp
  | ok name =>
    cases method.descriptor pool with
    | error => simp
    | ok descriptor =>
      cases hslots : parameterSlots descriptor with
      | error => simp [Except.isOk, Except.toBool, hslots]
      | ok slots => simp [Except.isOk, Except.toBool, hslots, imp_iff_not_or]

namespace Stub

open StubAction

/-- The references are only refused when they are interned for the first time. -/
theorem raiseRefs_eq_error (hrun : raiseRefs state = .error error state') :
    state.raise? = none ∧ ∃ cause left,
      RaiseRefs.intern state.pool = .error cause left ∧ .pool cause = error := by
  rw [raiseRefs, bind_run_of_ok (get_run state)] at hrun
  cases hraise : state.raise? with
  | some present =>
    rw [hraise] at hrun
    cases hrun
  | none =>
    rw [hraise] at hrun
    obtain hintern | ⟨refs, middle, -, hrest⟩ := bind_run_eq_error_iff.1 hrun
    · obtain ⟨cause, left, hcause, herror, -⟩ := onPool_eq_error_iff.1 hintern
      exact ⟨rfl, cause, left, hcause, herror⟩
    · cases hrest

/-- Entries that are there are not added again. -/
theorem raiseRefs_again {refs : RaiseRefs} (hrun : raiseRefs state = .ok refs state') :
    raiseRefs state' = .ok refs state' := by
  obtain ⟨hraise, rfl⟩ | ⟨-, grown, -, rfl⟩ := raiseRefs_eq_ok_iff.1 hrun
  · exact hrun
  · exact raiseRefs_eq_ok_iff.2 (.inl ⟨rfl, rfl⟩)

private theorem makeBody_eq_error_iff {name : String} {maxLocals : UInt16} :
    makeBody policy helper? name maxLocals state = .error error state' ↔
      ¬ (name = initializerName ∧ policy = .empty) ∧ helper? = none ∧
        raiseRefs state = .error error state' := by
  unfold makeBody
  by_cases hempty : name = initializerName ∧ policy = .empty
  · rw [if_pos (by simpa using hempty)]
    exact ⟨nofun, fun h => absurd hempty h.1⟩
  · rw [if_neg (by simpa using hempty), and_iff_right hempty]
    cases helper? with
    | some helper =>
      rw [ofDescriptor_eq_error_iff, CodePayload.delegating_eq]
      simp
    | none =>
      rw [bind_run_eq_error_iff, and_iff_right rfl]
      simp [CodePayload.raisingInline_eq, ofDescriptor_eq_error_iff]

/-- A method that cannot be stubbed is refused, or the entries of the exception cannot be added
for it. -/
theorem stubMethod_eq_error (hrun : stubMethod policy helper? method state = .error error state') :
    method.hasBody state.pool = true ∧ (method.Refused state.pool error ∨
      (method.makesException policy state.pool = true ∧ helper? = none ∧
        raiseRefs state = .error error state')) := by
  rw [stubMethod, bind_run_of_ok (get_run state)] at hrun
  cases hbody : method.hasBody state.pool with
  | false =>
    rw [hbody] at hrun
    cases hrun
  | true =>
    -- one step after another: what was read by those before is known
    refine ⟨rfl, ?_⟩
    rw [hbody, if_pos rfl] at hrun
    obtain hfailed | ⟨name, s₁, hlook, hrun⟩ := bind_run_eq_error_iff.1 hrun
    · obtain ⟨cause, hcause, rfl, -⟩ := lookUp_eq_error_iff.1 hfailed
      exact .inl (.name hcause)
    obtain ⟨hname, rfl⟩ := lookUp_eq_ok_iff.1 hlook
    obtain hfailed | ⟨descriptor, s₂, hlook, hrun⟩ := bind_run_eq_error_iff.1 hrun
    · obtain ⟨cause, hcause, rfl, -⟩ := lookUp_eq_error_iff.1 hfailed
      exact .inl (.descriptor hcause)
    obtain ⟨hdescriptor, rfl⟩ := lookUp_eq_ok_iff.1 hlook
    obtain hfailed | ⟨slots, s₃, hlook, hrun⟩ := bind_run_eq_error_iff.1 hrun
    · obtain ⟨cause, hcause, rfl, -⟩ := ofDescriptor_eq_error_iff.1 hfailed
      exact .inl (.slots hdescriptor hcause)
    obtain ⟨hslots, rfl⟩ := ofDescriptor_eq_ok_iff.1 hlook
    obtain hmake | ⟨payload, s₄, -, hrun⟩ := bind_run_eq_error_iff.1 hrun
    · obtain ⟨hraises, hhelper, hraise⟩ := makeBody_eq_error_iff.1 hmake
      exact .inr ⟨Member.makesException_iff.2
        ⟨hbody, name, descriptor, slots, hname, hdescriptor, hslots, hraises⟩, hhelper, hraise⟩
    · cases hrun

/-- The search for a helper fails at a method of the helper's name and descriptor, or at one whose
name or descriptor cannot be read. -/
theorem requireNoHelper_eq_error {className : String} {methods : List Member}
    (hrun : requireNoHelper className methods state = .error error state') :
    ∃ method ∈ methods,
      (method.isDeclaredAs state.pool Helper.name Helper.descriptor = true ∧
        error = .helperNameCollision className) ∨
      ∃ cause, error = .pool cause ∧
        (method.name state.pool = .error cause ∨ method.descriptor state.pool = .error cause) := by
  induction methods with
  | nil => cases hrun
  | cons method methods ih =>
    rw [requireNoHelper, List.forM_eq_forM, List.forM_cons] at hrun
    obtain hmethod | ⟨_, middle, hmethod, hrest⟩ := bind_run_eq_error_iff.1 hrun
    · refine ⟨method, List.mem_cons_self, ?_⟩
      obtain hfailed | ⟨name, _, hlook, hmethod⟩ := bind_run_eq_error_iff.1 hmethod
      · obtain ⟨cause, hcause, rfl, -⟩ := lookUp_eq_error_iff.1 hfailed
        exact .inr ⟨cause, rfl, .inl hcause⟩
      obtain ⟨hname, rfl⟩ := lookUp_eq_ok_iff.1 hlook
      split at hmethod
      case isFalse => cases hmethod
      case isTrue hhelper =>
        obtain hfailed | ⟨descriptor, _, hlook, hmethod⟩ := bind_run_eq_error_iff.1 hmethod
        · obtain ⟨cause, hcause, rfl, -⟩ := lookUp_eq_error_iff.1 hfailed
          exact .inr ⟨cause, rfl, .inr hcause⟩
        obtain ⟨hdescriptor, rfl⟩ := lookUp_eq_ok_iff.1 hlook
        split at hmethod
        case isFalse => cases hmethod
        case isTrue hsame =>
          obtain ⟨herror, -⟩ := EStateM.Result.error.inj hmethod
          rw [beq_iff_eq] at hhelper hsame
          refine .inl ⟨Member.isDeclaredAs_iff.2 ⟨?_, ?_⟩, herror.symm⟩
          · rw [hname, hhelper]
          · rw [hdescriptor, hsame]
    · -- the methods before the one at which the search fails leave the state as it is
      have hsingle : requireNoHelper className [method] state = .ok () middle :=
        (bind_run_of_ok hmethod).trans rfl
      obtain ⟨rfl, -⟩ := requireNoHelper_eq_ok_iff.1 hsingle
      obtain ⟨other, hmem, hother⟩ := ih hrest
      exact ⟨other, List.mem_cons_of_mem _ hmem, hother⟩

/-! ### Where the entries of the exception are added -/

/-- A method of an interface leaves the state as it is, unless its body makes the exception. -/
private theorem stubMethod_raise (hrun : stubMethod policy none method state = .ok stubbed state') :
    if method.makesException policy state.pool then ∃ refs, raiseRefs state = .ok refs state'
      else state = state' := by
  obtain ⟨hbody, -, rfl⟩ | ⟨hbody, name, descriptor, slots, payload, hname, hdescriptor, hslots,
    hmake, -⟩ := stubMethod_eq_ok_iff.1 hrun
  · rw [if_neg]
    intro hraises
    exact absurd ((Member.makesException_iff.1 hraises).1.symm.trans hbody) (by decide)
  · obtain ⟨hempty, rfl, -⟩ | ⟨hraises, ⟨_, hnone, -⟩ | ⟨-, refs, hrefs, -⟩⟩ :=
      makeBody_eq_ok_iff.1 hmake
    · rw [if_neg]
      intro hraises
      obtain ⟨-, name', -, -, hname', -, -, hnot⟩ := Member.makesException_iff.1 hraises
      obtain rfl := Except.ok.inj (hname.symm.trans hname')
      exact hnot hempty
    · exact nomatch hnone
    · rw [if_pos (Member.makesException_iff.2
        ⟨hbody, name, descriptor, slots, hname, hdescriptor, hslots, hraises⟩)]
      exact ⟨refs, hrefs⟩

/-- The methods of an interface leave the state as it is, or with the entries of the exception
added once. Which it is can be seen from the methods and the pool at the start. -/
theorem stubMethods_raise {methods results : List Member}
    (hrun : methods.mapM (stubMethod policy none) state = .ok results state') :
    if methods.any (·.makesException policy state.pool) then
      ∃ refs, raiseRefs state = .ok refs state'
    else state = state' := by
  induction methods generalizing state results with
  | nil =>
    obtain ⟨-, hstate⟩ := pure_run_eq_ok_iff.1 hrun
    exact hstate
  | cons method methods ih =>
    obtain ⟨stubbed, middle, rest, hfirst, hrest, -⟩ := mapM_cons_run_eq_ok_iff.1 hrun
    have hmethod := stubMethod_raise hfirst
    have hmethods := ih hrest
    rw [List.any_cons]
    cases hraises : method.makesException policy state.pool with
    | false =>
      rw [hraises, if_neg Bool.false_ne_true] at hmethod
      rw [Bool.false_or, hmethod]
      exact hmethods
    | true =>
      rw [hraises, if_pos rfl] at hmethod
      obtain ⟨refs, hrefs⟩ := hmethod
      refine (if_pos rfl).symm ▸ ⟨refs, ?_⟩
      -- once the entries are there, nothing changes any more
      split at hmethods
      · obtain ⟨later, hlater⟩ := hmethods
        rw [raiseRefs_again hrefs] at hlater
        obtain ⟨-, rfl⟩ := EStateM.Result.ok.inj hlater
        exact hrefs
      · exact hmethods ▸ hrefs

/-- If no body makes the exception, a run can only end because a method is refused. -/
theorem stubMethods_eq_error {methods : List Member}
    (hrun : methods.mapM (stubMethod policy none) state = .error error state')
    (hnone : methods.any (·.makesException policy state.pool) = false) :
    ∃ method ∈ methods, method.Refused state.pool error := by
  induction methods with
  | nil => exact nomatch hrun
  | cons method methods ih =>
    rw [List.any_cons, Bool.or_eq_false_iff] at hnone
    obtain hfirst | ⟨stubbed, middle, hfirst, hrest⟩ := mapM_cons_run_eq_error_iff.1 hrun
    · obtain ⟨-, hrefused | ⟨hraises, -⟩⟩ := stubMethod_eq_error hfirst
      · exact ⟨method, List.mem_cons_self, hrefused⟩
      · exact absurd (hraises.symm.trans hnone.1) (by decide)
    · have hmiddle := stubMethod_raise hfirst
      rw [hnone.1, if_neg Bool.false_ne_true] at hmiddle
      subst hmiddle
      obtain ⟨other, hmem, hrefused⟩ := ih hrest hnone.2
      exact ⟨other, List.mem_cons_of_mem _ hmem, hrefused⟩

end Stub

/-- A class cannot be stubbed if its name cannot be read, or if the run over its methods fails. -/
theorem ClassFile.stub_eq_error {c : ClassFile} (hstub : c.stub policy = .error error) :
    c.isModule = false ∧
      ((∃ cause, c.className = .error cause ∧ error = .pool cause) ∨
        ∃ className state, c.className = .ok className ∧
          c.stubRun policy className = .error error state) := by
  cases hmodule : c.isModule with
  | true =>
    rw [stub, if_pos hmodule] at hstub
    cases hstub
  | false =>
    refine ⟨rfl, ?_⟩
    cases hname : c.className with
    | error cause =>
      rw [stub, hmodule, hname] at hstub
      exact .inl ⟨cause, rfl, (Except.error.inj hstub).symm⟩
    | ok className =>
      rw [stub_of_className hmodule hname] at hstub
      split at hstub
      case h_1 => cases hstub
      case h_2 found state hrun =>
        obtain rfl := Except.error.inj hstub
        exact .inr ⟨className, state, rfl, hrun⟩

end ClassStub
