import ClassStub.Proofs.StubCheck
import ClassStub.Proofs.StubFormat
import ClassStub.Proofs.StubSpace

/-!
# When stubbing fails

What can go wrong with a class that was read from its bytes is little, since all names in it can
be looked up. A class may declare the helper, which is found out before anything else is done. A
method may have a body and a descriptor that is none of a method; the first of these methods is
the one that is reported (`Member.refusal?`). And the pool may be too full.

The look-ups are made in a pool that grows, and there more names can be read than in the pool of
the class. For a name and a descriptor this makes no difference, because they were checked when
the class was read. For an attribute it might, and so the names of the attributes of methods are
asked to lie in the pool.

The main result is `ClassFile.stub_outcome`.
-/

namespace ClassStub

variable {α β : Type} {policy : InitializerPolicy} {helper? : Option UInt16}
  {pool grown : ConstantPool} {texts : List String} {state state' : StubState}
  {refusal later : Option DescriptorError} {method : Member}

/-! ### Methods that are refused -/

namespace Member

/-- Why a method that has a body cannot be given another one: the slots of its parameters cannot
be counted. -/
def refusal? (pool : ConstantPool) (method : Member) : Option DescriptorError :=
  if method.hasBody pool then
    match method.descriptor pool with
    | .ok descriptor =>
      match parameterSlots descriptor with
      | .ok _ => none
      | .error cause => some cause
    | .error _ => none
  else
    none

private theorem refusal?_eq_some_iff {cause : DescriptorError} :
    method.refusal? pool = some cause ↔ method.hasBody pool = true ∧ ∃ descriptor,
      method.descriptor pool = .ok descriptor ∧ parameterSlots descriptor = .error cause := by
  rw [refusal?]
  cases method.hasBody pool with
  | false => simp
  | true =>
    cases method.descriptor pool with
    | error => simp
    | ok descriptor => cases hslots : parameterSlots descriptor <;> simp [hslots]

/-- A method is not refused if the descriptor of a method with a body can be read. -/
theorem refusal?_eq_none_iff (hread : ∃ descriptor, method.descriptor pool = .ok descriptor) :
    method.refusal? pool = none ↔ (method.hasBody pool = true → ∃ descriptor slots,
      method.descriptor pool = .ok descriptor ∧ parameterSlots descriptor = .ok slots) := by
  obtain ⟨descriptor, hdescriptor⟩ := hread
  rw [refusal?, hdescriptor]
  cases method.hasBody pool with
  | false => simp
  | true => cases hslots : parameterSlots descriptor <;> simp [hslots]

/-- A method whose attributes have their names in the pool has a body in a later pool only if it
has one now. -/
private theorem NamesWithin.hasBody_eq (h : method.NamesWithin pool)
    (hgrows : pool.GrowsTo texts grown) :
    method.hasBody grown = method.hasBody pool := by
  have hcode : (method.codePosition? grown).isSome = (method.codePosition? pool).isSome := by
    rw [codePosition?, codePosition?, Bool.eq_iff_iff, List.findIdx?_isSome, List.findIdx?_isSome,
      List.any_eq_true, List.any_eq_true]
    refine exists_congr fun attr => and_congr_right fun hmem => ?_
    rw [Attribute.isNamed_of_le hgrows (h attr hmem)]
  rw [hasBody, hasBody, hcode]

/-- The method stands in the pool with its name and its descriptor, and the names of its
attributes are not behind it. -/
structure IsPlacedIn (pool : ConstantPool) (method : Member) : Prop where
  name : ∃ name, method.name pool = .ok name
  descriptor : ∃ descriptor, method.descriptor pool = .ok descriptor
  within : method.NamesWithin pool

private theorem IsPlacedIn.refusal?_eq (h : method.IsPlacedIn pool)
    (hgrows : pool.GrowsTo texts grown) :
    method.refusal? grown = method.refusal? pool := by
  obtain ⟨descriptor, hdescriptor⟩ := h.descriptor
  have hlater : method.descriptor grown = .ok descriptor := hgrows.utf8 hdescriptor
  rw [refusal?, refusal?, h.within.hasBody_eq hgrows, hdescriptor, hlater]

/-- The only reason to refuse such a method is its descriptor. -/
theorem IsPlacedIn.refused (h : method.IsPlacedIn pool) (hgrows : pool.GrowsTo texts grown)
    (hbody : method.hasBody grown = true) {error : StubError}
    (hrefused : method.Refused grown error) :
    ∃ cause, error = .descriptor cause ∧ method.refusal? pool = some cause := by
  obtain ⟨name, hname⟩ := h.name
  obtain ⟨descriptor, hdescriptor⟩ := h.descriptor
  rw [← h.refusal?_eq hgrows]
  cases hrefused with
  | name hfailed => exact nomatch (hgrows.utf8 hname).symm.trans hfailed
  | descriptor hfailed => exact nomatch (hgrows.utf8 hdescriptor).symm.trans hfailed
  | @slots found cause hfound hslots =>
    exact ⟨cause, rfl, refusal?_eq_some_iff.2 ⟨hbody, found, hfound, hslots⟩⟩

end Member

/-! ### Steps that report a refusal -/

/-- The step succeeds only if there is nothing to refuse. If it fails, it reports the refusal, or
the pool is full. -/
structure StubAction.Reports (refusal : Option DescriptorError) (action : StubAction α)
    (state : StubState) : Prop where
  of_ok : ∀ a state', action state = .ok a state' → refusal = none
  of_error : ∀ error state', action state = .error error state' →
    error = .pool .outOfSpace ∨ ∃ cause, error = .descriptor cause ∧ refusal = some cause

namespace StubAction

private theorem reports_of_ok {action : StubAction α} {a : α} (h : action state = .ok a state') :
    Reports none action state :=
  ⟨fun _ _ _ => rfl, fun _ _ hrun => nomatch h.symm.trans hrun⟩

private theorem reports_pure (a : α) (state : StubState) :
    Reports none (pure a : StubAction α) state :=
  reports_of_ok (pure_run_eq_ok_iff.2 ⟨rfl, rfl⟩)

/-- A step that fails for want of room only has nothing to report. -/
private theorem FitsIn.reports {slots : Nat} {action : StubAction α}
    (h : FitsIn slots (fun _ => False) action state) : Reports none action state where
  of_ok _ _ _ := rfl
  of_error error state' hrun := (h.eq_error error state' hrun).elim False.elim fun h => .inl h.1

/-- The first refusal is the one that counts. -/
theorem Reports.bind {first : StubAction α} {next : α → StubAction β}
    (h : Reports refusal first state)
    (hnext : ∀ a middle, first state = .ok a middle → Reports later (next a) middle) :
    Reports (refusal.or later) (first >>= next) state := by
  constructor
  · intro b state' hrun
    obtain ⟨a, middle, hfirst, hrest⟩ := bind_run_eq_ok_iff.1 hrun
    rw [h.of_ok a middle hfirst, Option.none_or]
    exact (hnext a middle hfirst).of_ok b state' hrest
  · intro error state' hrun
    obtain hfirst | ⟨a, middle, hfirst, hrest⟩ := bind_run_eq_error_iff.1 hrun
    · refine (h.of_error error state' hfirst).imp id fun ⟨cause, herror, hcause⟩ => ?_
      exact ⟨cause, herror, by rw [hcause, Option.some_or]⟩
    · rw [h.of_ok a middle hfirst, Option.none_or]
      exact (hnext a middle hfirst).of_error error state' hrest

end StubAction

namespace Stub

open StubAction

private theorem stubMethod_reports (hplaced : method.IsPlacedIn pool)
    (hgrows : pool.GrowsTo texts state.pool) :
    Reports (method.refusal? pool) (stubMethod policy helper? method) state := by
  constructor
  · intro stubbed state' hrun
    rw [← hplaced.refusal?_eq hgrows]
    have hread : ∃ descriptor, method.descriptor state.pool = .ok descriptor :=
      hplaced.descriptor.imp fun _ => hgrows.utf8
    refine (Member.refusal?_eq_none_iff hread).2 fun hbody => ?_
    obtain ⟨hnone, -⟩ | ⟨-, name, descriptor, slots, payload, -, hdescriptor, hslots, -⟩ :=
      stubMethod_eq_ok_iff.1 hrun
    · exact absurd (hbody.symm.trans hnone) (by decide)
    · exact ⟨descriptor, slots, hdescriptor, hslots⟩
  · intro error state' hrun
    obtain ⟨hbody, hrefused | ⟨-, -, hraise⟩⟩ := stubMethod_eq_error hrun
    · exact .inr (hplaced.refused hgrows hbody hrefused)
    · have hfits := fitsIn_raiseRefs (fun _ => False) state
      exact .inl ((hfits.eq_error error state' hraise).resolve_left id).1

/-- A run over methods reports the first refusal. -/
private theorem stubMethods_reports (policy : InitializerPolicy) (helper? : Option UInt16)
    {methods : List Member} (hplaced : ∀ method ∈ methods, method.IsPlacedIn pool)
    (hgrows : pool.GrowsTo texts state.pool) (hraise : RaiseRefs.texts ⊆ texts) :
    Reports (methods.findSome? (·.refusal? pool)) (methods.mapM (stubMethod policy helper?))
      state := by
  induction methods generalizing state with
  | nil => exact reports_pure [] state
  | cons method methods ih =>
    rw [List.forall_mem_cons] at hplaced
    rw [List.mapM_cons]
    have hsplit : (method :: methods).findSome? (·.refusal? pool) =
        (method.refusal? pool).or ((methods.findSome? (·.refusal? pool)).or none) := by
      rw [List.findSome?_cons, Option.or_none]
      cases method.refusal? pool <;> rfl
    rw [hsplit]
    refine (stubMethod_reports hplaced.1 hgrows).bind fun stubbed middle hfirst => ?_
    have hmiddle := (stubMethod_gains method _ _ _ hfirst).growsTo.mono hraise
    exact (ih hplaced.2 (hgrows.trans hmiddle)).bind fun rest last _ => reports_pure _ last

/-- If all names can be read, the search for a helper fails just when one is declared. -/
private theorem requireNoHelper_of_isPlacedIn (className : String) {methods : List Member}
    (state : StubState) (hplaced : ∀ method ∈ methods, method.IsPlacedIn state.pool) :
    if methods.any (·.isDeclaredAs state.pool Helper.name Helper.descriptor) then
      ∃ state', requireNoHelper className methods state =
        .error (.helperNameCollision className) state'
    else requireNoHelper className methods state = .ok () state := by
  cases hrun : requireNoHelper className methods state with
  | ok _ state' =>
    obtain ⟨rfl, hothers⟩ := requireNoHelper_spec hrun
    rw [if_neg]
    intro hany
    obtain ⟨method, hmem, hdeclared⟩ := List.any_eq_true.1 hany
    have hnot := hothers method hmem (.refl [] state.pool)
    exact absurd (hdeclared.symm.trans hnot) (by decide)
  | error error state' =>
    -- the names of all methods can be read, so the error is the collision
    obtain ⟨method, hmem, ⟨hdeclared, rfl⟩ | ⟨cause, -, hname | hdescriptor⟩⟩ :=
      requireNoHelper_eq_error hrun
    · rw [if_pos (List.any_eq_true.2 ⟨method, hmem, hdeclared⟩)]
      exact ⟨state', rfl⟩
    · obtain ⟨name, hread⟩ := (hplaced method hmem).name
      exact nomatch hread.symm.trans hname
    · obtain ⟨descriptor, hread⟩ := (hplaced method hmem).descriptor
      exact nomatch hread.symm.trans hdescriptor

private theorem stubClass_reports (policy : InitializerPolicy) (state : StubState)
    {className : String}
    {methods : List Member} (hplaced : ∀ method ∈ methods, method.IsPlacedIn state.pool)
    (hnone : methods.any (·.isDeclaredAs state.pool Helper.name Helper.descriptor) = false)
    (hname : (state.pool.findUtf8? className).isSome = true) :
    Reports (methods.findSome? (·.refusal? state.pool)) (stubClass policy className methods)
      state := by
  have hrequire := requireNoHelper_of_isPlacedIn className state hplaced
  rw [hnone, if_neg Bool.false_ne_true] at hrequire
  have hmake : Reports none (makeHelper className) state := (fitsIn_makeHelper hname).reports
  rw [← Option.none_or (o := methods.findSome? _), ← Option.none_or (o := methods.findSome? _)]
  refine (reports_of_ok hrequire).bind fun _ middle hrun => ?_
  obtain ⟨-, rfl⟩ := EStateM.Result.ok.inj (hrequire.symm.trans hrun)
  refine hmake.bind fun (helper, reference) made hmade => ?_
  rw [← Option.or_none (o := methods.findSome? _)]
  have hgrows := (makeHelper_gains className _ _ _ hmade).growsTo
  exact (stubMethods_reports policy _ hplaced hgrows (raiseTexts_subset className)).bind
    fun stubbed last _ => reports_pure _ last

end Stub

/-! ### Classes -/

namespace ClassFile

variable {c : ClassFile}

/-- The class declares a method of the helper's name and descriptor. -/
def declaresHelper (c : ClassFile) : Bool :=
  c.methods.any (·.isDeclaredAs c.pool Helper.name Helper.descriptor)

/-- The first refusal among the methods, in their order. -/
def refusal? (c : ClassFile) : Option DescriptorError :=
  c.methods.findSome? (·.refusal? c.pool)

private theorem stub_of_declaresHelper {className : String} (hmodule : c.isModule = false)
    (hinterface : c.isInterface = false) (hname : c.className = .ok className)
    (hplaced : ∀ method ∈ c.methods, method.IsPlacedIn c.pool)
    (hdeclares : c.declaresHelper = true) :
    c.stub policy = .error (.helperNameCollision className) := by
  have hrequire := Stub.requireNoHelper_of_isPlacedIn className ⟨c.pool, none⟩ hplaced
  rw [declaresHelper] at hdeclares
  rw [hdeclares, if_pos rfl] at hrequire
  obtain ⟨state, hcollision⟩ := hrequire
  have hrun : Stub.stubClass policy className c.methods ⟨c.pool, none⟩ =
      .error (.helperNameCollision className) state := bind_run_of_error hcollision
  rw [stub_of_className hmodule hname, stubRun, hinterface, if_neg Bool.false_ne_true, hrun]

/-- A run that does not fail at the helper reports the first refusal. -/
private theorem stubRun_reports (policy : InitializerPolicy) {className : String}
    (hname : c.className = .ok className)
    (hplaced : ∀ method ∈ c.methods, method.IsPlacedIn c.pool)
    (hallowed : c.isInterface = true ∨ c.declaresHelper = false) :
    (∀ methods state, c.stubRun policy className = .ok methods state → c.refusal? = none) ∧
      ∀ error state, c.stubRun policy className = .error error state →
        error = .pool .outOfSpace ∨
          ∃ cause, error = .descriptor cause ∧ c.refusal? = some cause := by
  rw [stubRun]
  cases hinterface : c.isInterface with
  | true =>
    have hreports : StubAction.Reports c.refusal? (Stub.stubInterface policy c.methods)
        ⟨c.pool, none⟩ :=
      Stub.stubMethods_reports policy none hplaced (.refl RaiseRefs.texts c.pool)
        (List.Subset.refl _)
    exact ⟨hreports.of_ok, hreports.of_error⟩
  | false =>
    obtain ⟨nameIndex, -, htext⟩ := ConstantPool.className_eq_ok_iff.1 hname
    have hnone := hallowed.resolve_left (by simp [hinterface])
    have hreports := Stub.stubClass_reports policy ⟨c.pool, none⟩ hplaced hnone
      (ConstantPool.isSome_findUtf8?_of_utf8 htext)
    exact ⟨hreports.of_ok, hreports.of_error⟩

private theorem stubSlots_le (policy : InitializerPolicy) (c : ClassFile) :
    c.stubSlots policy ≤ if c.isInterface then 8 else 14 := by
  rw [stubSlots]
  split
  · exact Nat.zero_le _
  · split
    · split
      · exact Nat.le_refl 8
      · exact Nat.zero_le 8
    · exact Nat.le_refl 14

/-- No method is refused if the descriptors of all methods with bodies can be read. -/
theorem refusal?_eq_none_iff (hplaced : ∀ method ∈ c.methods, method.IsPlacedIn c.pool) :
    c.refusal? = none ↔ ∀ method ∈ c.methods, method.hasBody c.pool = true →
      ∃ descriptor slots, method.descriptor c.pool = .ok descriptor ∧
        parameterSlots descriptor = .ok slots := by
  rw [refusal?, List.findSome?_eq_none_iff]
  exact forall₂_congr fun method hmem =>
    Member.refusal?_eq_none_iff (hplaced method hmem).descriptor

/-- A class with a stub refuses no method. One without a stub refuses a method, or its pool has
too little room. -/
private theorem stub_reports (policy : InitializerPolicy) {className : String}
    (hmodule : c.isModule = false) (hname : c.className = .ok className)
    (hplaced : ∀ method ∈ c.methods, method.IsPlacedIn c.pool)
    (hallowed : c.isInterface = true ∨ c.declaresHelper = false) :
    (∀ o, c.stub policy = .ok o → c.refusal? = none) ∧
      ∀ error, c.stub policy = .error error →
        (∃ cause, c.refusal? = some cause ∧ error = .descriptor cause) ∨
          (error = .pool .outOfSpace ∧
            ConstantPool.maxSlots < c.pool.size + if c.isInterface then 8 else 14) := by
  obtain ⟨hok, herror⟩ := stubRun_reports policy hname hplaced hallowed
  constructor
  · intro o hstub
    obtain ⟨hmodule', -⟩ | ⟨-, found, methods, state, hfound, hrun, -⟩ := stub_eq_ok_iff.1 hstub
    · exact absurd (hmodule.symm.trans hmodule') (by decide)
    · obtain rfl := Except.ok.inj (hname.symm.trans hfound)
      exact hok methods state hrun
  · intro error hstub
    obtain ⟨-, ⟨cause, hcause, -⟩ | ⟨found, state, hfound, hrun⟩⟩ := stub_eq_error hstub
    · exact nomatch hname.symm.trans hcause
    obtain rfl := Except.ok.inj (hname.symm.trans hfound)
    obtain rfl | ⟨cause, hcause, hrefusal⟩ := herror error state hrun
    · -- the slots that the run needs are at most eight or fourteen
      have hlt := (stubRun_space policy hmodule hname).2 state hrun
      have hslots := stubSlots_le policy c
      exact .inr ⟨rfl, by omega⟩
    · exact .inl ⟨cause, hrefusal, hcause⟩

/-- **What stubbing fails of.** Of a class that was read from its bytes, and whose methods have no
attribute with a name behind the pool, stubbing gives the following. A module descriptor is its
own stub. A class that declares the helper is refused for that, whatever else is wrong. If the
pool has room, any other class has a stub just when each method with a body has a descriptor whose
parameter slots can be counted, and else the error is that of the first method for which they
cannot. The only other error is that the pool has no room. -/
theorem stub_outcome {bytes : Bytes} (hdecode : decode bytes = .ok c)
    (hwithin : ∀ method ∈ c.methods, method.NamesWithin c.pool) (policy : InitializerPolicy) :
    (c.isModule = true → c.stub policy = .ok c) ∧
    (c.isModule = false → c.isInterface = false → c.declaresHelper = true →
      ∃ className, c.className = .ok className ∧
        c.stub policy = .error (.helperNameCollision className)) ∧
    (c.isModule = false → (c.isInterface = true ∨ c.declaresHelper = false) →
      (c.pool.size + (if c.isInterface then 8 else 14) ≤ ConstantPool.maxSlots →
        ((∃ o, c.stub policy = .ok o) ↔ ∀ method ∈ c.methods, method.hasBody c.pool = true →
          ∃ descriptor slots, method.descriptor c.pool = .ok descriptor ∧
            parameterSlots descriptor = .ok slots) ∧
        ∀ cause, c.refusal? = some cause → c.stub policy = .error (.descriptor cause)) ∧
      ∀ error, c.stub policy = .error error →
        (∃ cause, c.refusal? = some cause ∧ error = .descriptor cause) ∨
          (error = .pool .outOfSpace ∧
            ConstantPool.maxSlots < c.pool.size + if c.isInterface then 8 else 14)) := by
  have hclass := (decode_eq_ok_iff.1 hdecode).1
  obtain ⟨className, hname⟩ := hclass.thisClass
  have hplaced : ∀ method ∈ c.methods, method.IsPlacedIn c.pool := fun method hmem =>
    ⟨(hclass.methods method hmem).name, (hclass.methods method hmem).descriptor,
      hwithin method hmem⟩
  refine ⟨fun hmodule => stub_eq_ok_iff.2 (.inl ⟨hmodule, rfl⟩),
    fun hmodule hinterface hdeclares =>
      ⟨className, hname, stub_of_declaresHelper hmodule hinterface hname hplaced hdeclares⟩, ?_⟩
  intro hmodule hallowed
  -- what the run reports decides all that is left
  obtain ⟨hstubbed, hfailed⟩ := stub_reports policy hmodule hname hplaced hallowed
  refine ⟨fun hroom => ?_, hfailed⟩
  rw [← refusal?_eq_none_iff hplaced]
  -- with enough room, the only errors are those of descriptors
  cases hstub : c.stub policy with
  | ok o =>
    have hrefusal := hstubbed o hstub
    refine ⟨iff_of_true ⟨o, rfl⟩ hrefusal, fun cause hcause => ?_⟩
    exact nomatch hrefusal.symm.trans hcause
  | error error =>
    obtain ⟨cause, hrefusal, rfl⟩ | ⟨-, hlt⟩ := hfailed error hstub
    · refine ⟨iff_of_false nofun fun hnone => ?_, fun other hother => ?_⟩
      · exact nomatch hrefusal.symm.trans hnone
      · obtain rfl := Option.some.inj (hrefusal.symm.trans hother)
        rfl
    · exact absurd hroom (Nat.not_le.2 hlt)

/-- The class with the method of `greeter`, whose descriptor lacks a result. -/
def illDescribed : ClassFile :=
  { greeter with
    pool := ⟨#[.utf8 "p/Greeter", .classRef 1, .utf8 objectClassName, .classRef 3,
      .utf8 Attribute.codeName, .utf8 "greet", .utf8 "(IJ)"]⟩ }

/-- A class with a method whose descriptor is none. -/
theorem stub_outcome_illDescribed :
    decode illDescribed.encode = .ok illDescribed ∧
      (∀ method ∈ illDescribed.methods, method.NamesWithin illDescribed.pool) ∧
      illDescribed.stub .empty = .error (.descriptor (.invalidMethodDescriptor "(IJ)")) := by
  have hdecode : decode illDescribed.encode = .ok illDescribed := by
    decide +kernel
  have hwithin : ∀ method ∈ illDescribed.methods, method.NamesWithin illDescribed.pool := by
    intro method hmem attr hattr
    obtain rfl := List.mem_singleton.1 hmem
    obtain rfl := List.mem_singleton.1 hattr
    decide
  obtain ⟨-, -, hother⟩ := stub_outcome hdecode hwithin .empty
  obtain ⟨hroom, -⟩ := hother (by decide) (.inr (by decide))
  exact ⟨hdecode, hwithin, (hroom (by decide)).2 _ (by decide +kernel)⟩

end ClassFile

end ClassStub
