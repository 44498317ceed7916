import ClassStub.Proofs.MethodRuns
import ClassStub.Proofs.StubFrame

/-!
# The two policies for initializers

Under the policy `empty`, a static initializer returns at once, and under the policy `stub` it
raises the exception like any other method. What the two stubs of a class have in common is shown
by going through both runs at once. In a class the entries of the exception are there before any
method is visited, and so both runs go through the same states. In an interface they are added
for the first body that makes the exception, and this may come later when initializers are empty:
one run lags behind the other (`StubState.Lags`) until they meet at the next body that makes it.

While a run lags behind, its pool is smaller, and a name behind the pool of the interface may be
read in the one run and not in the other. So it matters that the methods with a body have their
names and descriptors in the pool (`ClassFile.stub_empty_of_stub`); without this, the policy
`empty` may fail where the policy `stub` does not (`ClassFile.stub_empty_lateNamed`).
-/

namespace ClassStub

variable {policy : InitializerPolicy} {helper? : Option UInt16}
  {pool pool' grown grown' : ConstantPool} {texts : List String}
  {state ahead state' ahead' : StubState} {method raised emptied : Member}

/-! ### Emptied initializers -/

/-- The payload of an initializer that returns at once. -/
def CodePayload.bareReturn (maxLocals : UInt16) : CodePayload := ⟨0, maxLocals, [0xB1], [], []⟩

namespace Member

private theorem code_of_growsTo (h : pool.GrowsTo texts grown) (hnot : Attribute.codeName ∉ texts)
    (method : Member) : method.code grown = method.code pool := by
  rw [code, funext (Attribute.isNamed_of_growsTo h hnot), code]

/-- What a method of the stub under the policy `stub` is in the stub under the policy `empty`,
given the pools of the two. An initializer with a body has a bare return in place of its code,
with as many local slots; any other method is the same. -/
inductive EmptiedTo (pool pool' : ConstantPool) (raised : Member) : Member → Prop
  | bodiless (hbody : raised.hasBody pool = false) : EmptiedTo pool pool' raised raised
  | other {name : String} (hname : raised.name pool = .ok name) (hne : name ≠ initializerName) :
      EmptiedTo pool pool' raised raised
  | emptied {payload : CodePayload} (hbody : raised.hasBody pool = true)
      (hname : raised.name pool = .ok initializerName)
      (hcode : raised.code pool = .ok (some payload))
      (hempty : (raised.replaceCode pool (.bareReturn payload.maxLocals)).code pool' =
        .ok (some (.bareReturn payload.maxLocals))) :
      EmptiedTo pool pool' raised (raised.replaceCode pool (.bareReturn payload.maxLocals))

/-- What was emptied stays so in later pools. -/
theorem EmptiedTo.grow (h : raised.EmptiedTo pool pool' emptied)
    (hgrows : pool.GrowsTo RaiseRefs.texts grown)
    (hgrows' : pool'.GrowsTo RaiseRefs.texts grown') : raised.EmptiedTo grown grown' emptied := by
  have hcode := RaiseRefs.codeName_not_mem_texts
  cases h with
  | bodiless hbody => exact .bodiless (by rw [hasBody_of_growsTo hgrows hcode, hbody])
  | other hname hne => exact .other (hgrows.utf8 hname) hne
  | emptied hbody hname hpayload hempty =>
    rw [← replaceCode_of_growsTo hgrows hcode] at hempty ⊢
    refine .emptied ?_ (hgrows.utf8 hname) ?_ ?_
    · rw [hasBody_of_growsTo hgrows hcode, hbody]
    · rw [code_of_growsTo hgrows hcode, hpayload]
    · rw [code_of_growsTo hgrows' hcode, hempty]

/-- If the method has a body, its name and its descriptor are not behind the pool. -/
def RefersWithin (pool : ConstantPool) (method : Member) : Prop :=
  method.hasBody pool = true →
    method.nameIndex.toNat ≤ pool.size ∧ method.descriptorIndex.toNat ≤ pool.size

/-- A method that refers to nothing behind the pool does not do so later. -/
theorem RefersWithin.grow (h : method.RefersWithin pool)
    (hgrows : pool.GrowsTo RaiseRefs.texts grown) : method.RefersWithin grown := by
  intro hbody
  rw [hasBody_of_growsTo hgrows RaiseRefs.codeName_not_mem_texts] at hbody
  have hsize := hgrows.size_le
  obtain ⟨hname, hdescriptor⟩ := h hbody
  exact ⟨Nat.le_trans hname hsize, Nat.le_trans hdescriptor hsize⟩

end Member

private theorem ConstantPool.GrowsTo.utf8_of_le (h : pool.GrowsTo texts grown) {index : UInt16}
    (hle : index.toNat ≤ pool.size) {text : String} (htext : grown.utf8 index = .ok text) :
    pool.utf8 index = .ok text := by
  rw [utf8_eq_ok_iff] at htext ⊢
  rwa [h.get?_of_le hle] at htext

/-! ### A run that lags behind -/

/-- The state is the one ahead, or it would be if the entries of the exception were added to it.
The second can only be so where there is no helper. -/
def StubState.Lags (helper? : Option UInt16) (state ahead : StubState) : Prop :=
  state = ahead ∨ (helper? = none ∧ ∃ refs, Stub.raiseRefs state = .ok refs ahead)

private theorem StubState.Lags.growsTo (h : state.Lags helper? ahead) :
    state.pool.GrowsTo RaiseRefs.texts ahead.pool := by
  obtain rfl | ⟨-, refs, hrefs⟩ := h
  · exact .refl _ _
  · exact (Stub.raiseRefs_gains _ _ _ hrefs).growsTo

/-- What is read ahead is read behind, if it does not lie between the two. -/
theorem StubState.Lags.utf8 (h : state.Lags helper? ahead) {index : UInt16} {text : String}
    (hle : helper? = none → index.toNat ≤ state.pool.size)
    (htext : ahead.pool.utf8 index = .ok text) : state.pool.utf8 index = .ok text := by
  have hgrows := h.growsTo
  obtain rfl | ⟨hnone, -⟩ := h
  · exact htext
  · exact hgrows.utf8_of_le (hle hnone) htext

namespace Stub

/-- The two runs meet where the entries of the exception are needed. -/
private theorem raiseRefs_of_lags (hlags : state.Lags helper? ahead) {refs : RaiseRefs}
    (hrun : raiseRefs ahead = .ok refs ahead') : raiseRefs state = .ok refs ahead' := by
  obtain rfl | ⟨-, found, hfound⟩ := hlags
  · exact hrun
  · rw [raiseRefs_again hfound] at hrun
    obtain ⟨rfl, rfl⟩ := EStateM.Result.ok.inj hrun
    exact hfound

private theorem makeBody_generated {name : String} {maxLocals : UInt16} {payload : CodePayload}
    (hrun : makeBody policy helper? name maxLocals state = .ok payload state') :
    ∃ body : GeneratedBody, payload = body.payload ∧ body.payload.maxLocals = maxLocals := by
  obtain ⟨-, -, rfl⟩ | ⟨-, ⟨helper, -, -, rfl⟩ | ⟨-, refs, -, rfl⟩⟩ := makeBody_eq_ok_iff.1 hrun
  · exact ⟨_, rfl, rfl⟩
  · exact ⟨_, rfl, rfl⟩
  · exact ⟨_, rfl, rfl⟩

/-- A body is made under the policy `empty` if one is made under the policy `stub`. -/
private theorem makeBody_empty (hlags : state.Lags helper? ahead) {name : String}
    {maxLocals : UInt16} {payload : CodePayload}
    (hrun : makeBody .stub helper? name maxLocals ahead = .ok payload ahead') :
    ∃ state', state'.Lags helper? ahead' ∧
      makeBody .empty helper? name maxLocals state =
        .ok (if name = initializerName then .bareReturn maxLocals else payload) state' := by
  obtain ⟨⟨-, hpolicy⟩, -⟩ | ⟨-, hmade⟩ := makeBody_eq_ok_iff.1 hrun
  · exact nomatch hpolicy
  by_cases hname : name = initializerName
  · -- the run behind stays where it is, and the one ahead may go on
    rw [if_pos hname]
    refine ⟨state, ?_, makeBody_eq_ok_iff.2 (.inl ⟨⟨hname, rfl⟩, rfl, rfl⟩)⟩
    obtain ⟨helper, -, rfl, -⟩ | ⟨hnone, refs, hrefs, -⟩ := hmade
    · exact hlags
    · exact .inr ⟨hnone, refs, raiseRefs_of_lags hlags hrefs⟩
  · rw [if_neg hname]
    have hraises : ¬ (name = initializerName ∧ InitializerPolicy.empty = .empty) :=
      fun h => hname h.1
    obtain ⟨helper, hhelper, rfl, hpayload⟩ | ⟨hnone, refs, hrefs, hpayload⟩ := hmade
    · obtain rfl | ⟨hnone, -⟩ := hlags
      · exact ⟨state, .inl rfl,
          makeBody_eq_ok_iff.2 (.inr ⟨hraises, .inl ⟨helper, hhelper, rfl, hpayload⟩⟩)⟩
      · exact nomatch hhelper.symm.trans hnone
    · exact ⟨ahead', .inl rfl, makeBody_eq_ok_iff.2
        (.inr ⟨hraises, .inr ⟨hnone, refs, raiseRefs_of_lags hlags hrefs, hpayload⟩⟩)⟩

/-- A method that is stubbed under the policy `stub` is stubbed under the policy `empty`. -/
private theorem stubMethod_empty (hlags : state.Lags helper? ahead)
    (hwithin : helper? = none → method.RefersWithin state.pool)
    (hrun : stubMethod .stub helper? method ahead = .ok raised ahead') :
    ∃ emptied state', stubMethod .empty helper? method state = .ok emptied state' ∧
      state'.Lags helper? ahead' ∧ raised.EmptiedTo ahead'.pool state'.pool emptied := by
  have hcode := RaiseRefs.codeName_not_mem_texts
  have hsame := Member.hasBody_of_growsTo hlags.growsTo hcode method
  have hgrows := (stubMethod_gains method _ _ _ hrun).growsTo
  have hlater := Member.hasBody_of_growsTo hgrows hcode method
  obtain ⟨hbody, rfl, rfl⟩ | ⟨hbody, name, descriptor, slots, payload, hname, hdescriptor, hslots,
    hmake, rfl⟩ := stubMethod_eq_ok_iff.1 hrun
  · exact ⟨method, state, stubMethod_eq_ok_iff.2 (.inl ⟨hsame ▸ hbody, rfl, rfl⟩), hlags,
      .bodiless hbody⟩
  have hbehind : method.hasBody state.pool = true := hsame.symm.trans hbody
  have hahead : method.hasBody ahead'.pool = true := hlater.trans hbody
  -- the run behind makes the same body, or the empty one of an initializer
  obtain ⟨state', hlags', hmake'⟩ := makeBody_empty hlags hmake
  obtain ⟨body, rfl, hlocals⟩ := makeBody_generated hmake
  refine ⟨_, state', stubMethod_eq_ok_iff.2 (.inr ⟨hbehind, name, descriptor, slots, _,
    hlags.utf8 (fun hnone => (hwithin hnone hbehind).1) hname,
    hlags.utf8 (fun hnone => (hwithin hnone hbehind).2) hdescriptor, hslots, hmake', rfl⟩), hlags',
    ?_⟩
  rw [← Member.replaceCode_of_growsTo hlags'.growsTo hcode]
  have hreplaced : method.SameButCode ahead'.pool (method.replaceCode ahead'.pool body.payload) :=
    method.sameButCode_replaceCode body.payload
  have hname' : (method.replaceCode ahead'.pool body.payload).name ahead'.pool = .ok name := by
    rw [Member.name_replaceCode]
    exact hgrows.utf8 hname
  -- only the body of an initializer differs
  by_cases hinitializer : name = initializerName
  · rw [if_pos hinitializer, ← hlocals,
      ← hreplaced.replaceCode_eq (.bareReturn body.payload.maxLocals)]
    subst hinitializer
    obtain ⟨nameIndex, hfind⟩ := Member.find?_replaceCode hahead body.payload
    refine .emptied (hreplaced.hasBody_eq.trans hahead) hname' (Member.code_of_find? hfind) ?_
    obtain ⟨nameIndex', hfind'⟩ := Member.find?_replaceCode
      (hreplaced.hasBody_eq.trans hahead) (GeneratedBody.returning body.payload.maxLocals).payload
    rw [← Member.code_of_growsTo hlags'.growsTo hcode]
    exact Member.code_of_find? hfind'
  · rw [if_neg hinitializer]
    exact .other hname' hinitializer

/-- So is a list of methods. -/
private theorem stubMethods_empty {methods raised : List Member}
    (hrun : methods.mapM (stubMethod .stub helper?) ahead = .ok raised ahead')
    (hlags : state.Lags helper? ahead)
    (hwithin : helper? = none → ∀ method ∈ methods, method.RefersWithin state.pool) :
    ∃ emptied state', methods.mapM (stubMethod .empty helper?) state = .ok emptied state' ∧
      state'.Lags helper? ahead' ∧
      List.Forall₂ (Member.EmptiedTo ahead'.pool state'.pool) raised emptied := by
  induction methods generalizing state ahead raised with
  | nil =>
    obtain ⟨rfl, rfl⟩ := pure_run_eq_ok_iff.1 hrun
    exact ⟨[], state, rfl, hlags, .nil⟩
  | cons method methods ih =>
    obtain ⟨first, middle, rest, hfirst, hrest, rfl⟩ := mapM_cons_run_eq_ok_iff.1 hrun
    obtain ⟨first', middle', hfirst', hlags', hmethod⟩ :=
      stubMethod_empty hlags (fun hnone => hwithin hnone method List.mem_cons_self) hfirst
    have hgrows := (stubMethod_gains method _ _ _ hfirst').growsTo
    obtain ⟨rest', last', hrest', hlast, hmethods⟩ := ih hrest hlags' fun hnone other hmem =>
      (hwithin hnone other (List.mem_cons_of_mem _ hmem)).grow hgrows
    refine ⟨first' :: rest', last', ?_, hlast, .cons (hmethod.grow ?_ ?_) hmethods⟩
    · exact mapM_cons_run_eq_ok_iff.2 ⟨first', middle', rest', hfirst', hrest', rfl⟩
    · exact (stubMethods_sameButCode hrest).1.growsTo
    · exact (stubMethods_sameButCode hrest').1.growsTo

/-- When a run has succeeded, the names and descriptors of all methods with a body can be read, and
the slots of the parameters were counted. -/
private theorem stubMethods_readable {methods results : List Member}
    (hrun : methods.mapM (stubMethod policy none) state = .ok results state') :
    ∀ method ∈ methods, method.hasBody state'.pool = true → ∃ name descriptor slots,
      method.name state'.pool = .ok name ∧ method.descriptor state'.pool = .ok descriptor ∧
        parameterSlots descriptor = .ok slots := by
  induction methods generalizing state results with
  | nil =>
    intro method hmem
    exact absurd hmem List.not_mem_nil
  | cons method methods ih =>
    obtain ⟨first, middle, rest, hfirst, hrest, -⟩ := mapM_cons_run_eq_ok_iff.1 hrun
    refine List.forall_mem_cons.2 ⟨fun hbody => ?_, ih hrest⟩
    -- the method was read before the pool grew to what is left
    have hgrows := (stubMethod_gains method _ _ _ hfirst).growsTo.trans
      (stubMethods_sameButCode hrest).1.growsTo
    rw [Member.hasBody_of_growsTo hgrows RaiseRefs.codeName_not_mem_texts] at hbody
    obtain ⟨hnone, -⟩ | ⟨-, name, descriptor, slots, payload, hname, hdescriptor, hslots, -⟩ :=
      stubMethod_eq_ok_iff.1 hfirst
    · exact absurd (hbody.symm.trans hnone) (by decide)
    · exact ⟨name, descriptor, slots, hgrows.utf8 hname, hgrows.utf8 hdescriptor, hslots⟩

/-! ### Classes -/

/-- The two runs over a class end in one state, with the same helper. -/
private theorem stubClass_empty {className : String} {methods result : List Member}
    (hrun : stubClass .stub className methods state = .ok result state') :
    ∃ raised emptied helper, result = raised ++ [helper] ∧ raised.length = methods.length ∧
      stubClass .empty className methods state = .ok (emptied ++ [helper]) state' ∧
      List.Forall₂ (Member.EmptiedTo state'.pool state'.pool) raised emptied := by
  obtain ⟨_, _, hrequire, hrun⟩ := bind_run_eq_ok_iff.1 hrun
  obtain ⟨⟨helper, reference⟩, middle, hmake, hrun⟩ := bind_run_eq_ok_iff.1 hrun
  obtain ⟨raised, _, hmethods, hpure⟩ := bind_run_eq_ok_iff.1 hrun
  obtain ⟨rfl, rfl⟩ := pure_run_eq_ok_iff.1 hpure
  obtain ⟨emptied, last, hmethods', hlags, hemptied⟩ :=
    stubMethods_empty hmethods (.inl rfl) fun hnone => nomatch hnone
  obtain rfl | ⟨hnone, -⟩ := hlags
  · refine ⟨raised, emptied, helper, rfl, (stubMethods_sameButCode hmethods).2.length_eq.symm, ?_,
      hemptied⟩
    exact bind_run_eq_ok_iff.2 ⟨(), _, hrequire, bind_run_eq_ok_iff.2
      ⟨(helper, reference), middle, hmake, bind_run_eq_ok_iff.2
        ⟨emptied, last, hmethods', rfl⟩⟩⟩
  · exact nomatch hnone

/-- The two runs over an interface end in one state if there is a method with a body that is no
initializer. Else the one under the policy `empty` ends where it started. -/
private theorem stubInterface_pools {methods raised emptied : List Member}
    (hraised : methods.mapM (stubMethod .stub none) state = .ok raised ahead)
    (hemptied : methods.mapM (stubMethod .empty none) state = .ok emptied state')
    (hwithin : ∀ method ∈ methods, method.RefersWithin state.pool) :
    ((∀ method ∈ methods, method.hasBody state.pool = true →
      method.name state.pool = .ok initializerName) → state' = state) ∧
    ((∃ method ∈ methods, method.hasBody state.pool = true ∧
      method.name state.pool ≠ .ok initializerName) → state' = ahead) := by
  have hahead := stubMethods_raise hraised
  have hbehind := stubMethods_raise hemptied
  constructor
  · intro hall
    rw [if_neg] at hbehind
    · exact hbehind.symm
    · intro hany
      obtain ⟨method, hmem, hmakes⟩ := List.any_eq_true.1 hany
      obtain ⟨hbody, name, -, -, hname, -, -, hnot⟩ := Member.makesException_iff.1 hmakes
      obtain rfl := Except.ok.inj (hname.symm.trans (hall method hmem hbody))
      exact hnot ⟨rfl, rfl⟩
  · rintro ⟨method, hmem, hbody, hne⟩
    have hgrows := (stubMethods_sameButCode hemptied).1.growsTo
    have hbody' := (Member.hasBody_of_growsTo hgrows RaiseRefs.codeName_not_mem_texts method).trans
      hbody
    obtain ⟨name, descriptor, slots, hname, hdescriptor, hslots⟩ :=
      stubMethods_readable hemptied method hmem hbody'
    obtain ⟨hleName, hleDescriptor⟩ := hwithin method hmem hbody
    have hname' : method.name state.pool = .ok name := hgrows.utf8_of_le hleName hname
    have hdescriptor' : method.descriptor state.pool = .ok descriptor :=
      hgrows.utf8_of_le hleDescriptor hdescriptor
    -- so the method makes the exception under both policies, from the same state
    have hmakes : ∀ policy, methods.any (·.makesException policy state.pool) = true := by
      refine fun policy => List.any_eq_true.2 ⟨method, hmem, Member.makesException_iff.2
        ⟨hbody, name, descriptor, slots, hname', hdescriptor', hslots, ?_⟩⟩
      rintro ⟨rfl, -⟩
      exact hne hname'
    rw [if_pos (hmakes .stub)] at hahead
    rw [if_pos (hmakes .empty)] at hbehind
    obtain ⟨refs, hrefs⟩ := hahead
    obtain ⟨refs', hrefs'⟩ := hbehind
    exact (EStateM.Result.ok.inj (hrefs'.symm.trans hrefs)).2

end Stub

namespace ClassFile

/-- **The policy for initializers is about initializers only.** If a class has a stub under the
policy `stub`, it has one under the policy `empty`, and the two differ as follows. Each method that
is named `<clinit>` and has a body has a bare return as its code, in the same attribute, under the
same name index and with as many local slots; all other methods, the helper among them, are the
same. The pools are the same, too, except that an interface without any other method with a body
keeps its pool. Of an interface it is asked that the methods with a body have their names and
descriptors in its pool. -/
theorem stub_empty_of_stub {c o : ClassFile} (hmodule : c.isModule = false)
    (hwithin : c.isInterface = true → ∀ method ∈ c.methods, method.RefersWithin c.pool)
    (hstub : c.stub .stub = .ok o) :
    ∃ o', c.stub .empty = .ok o' ∧
      o' = { o with pool := o'.pool, methods := o'.methods } ∧
      List.Forall₂ (Member.EmptiedTo o.pool o'.pool) (o.methods.take c.methods.length)
        (o'.methods.take c.methods.length) ∧
      o'.methods.drop c.methods.length = o.methods.drop c.methods.length ∧
      (c.isInterface = true → (∀ method ∈ c.methods, method.hasBody c.pool = true →
        method.name c.pool = .ok initializerName) → o'.pool = c.pool) ∧
      (c.isInterface = false ∨ (∃ method ∈ c.methods, method.hasBody c.pool = true ∧
        method.name c.pool ≠ .ok initializerName) → o'.pool = o.pool) := by
  obtain ⟨hmodule', -⟩ | ⟨-, className, result, state, hname, hrun, rfl⟩ := stub_eq_ok_iff.1 hstub
  · exact absurd (hmodule.symm.trans hmodule') (by decide)
  cases hinterface : c.isInterface with
  | true =>
    rw [if_pos hinterface] at hrun
    obtain ⟨emptied, last, hrun', -, hmethods⟩ :=
      Stub.stubMethods_empty hrun (.inl rfl) fun _ => hwithin hinterface
    obtain ⟨hkept, hsame⟩ := Stub.stubInterface_pools hrun hrun' (hwithin hinterface)
    -- an interface has no helper, so the methods of its stub are those of the class
    have hlength := (Stub.stubMethods_sameButCode hrun).2.length_eq
    refine ⟨{ c with pool := last.pool, methods := emptied },
      stub_eq_ok_iff.2 (.inr ⟨hmodule, className, emptied, last, hname, ?_, rfl⟩), rfl, ?_, ?_,
      fun _ hall => congrArg (·.pool) (hkept hall), ?_⟩
    · rw [if_pos hinterface]
      exact hrun'
    · rw [hlength, List.take_length, hmethods.length_eq, List.take_length]
      exact hmethods
    · rw [hlength, List.drop_length, hmethods.length_eq, List.drop_length]
    · rintro (hclass | hother)
      · exact absurd hclass (by decide)
      · exact congrArg (·.pool) (hsame hother)
  | false =>
    rw [if_neg (by simp [hinterface])] at hrun
    -- the helper of a class stands behind its methods and is the same for both
    obtain ⟨raised, emptied, helper, rfl, hlength, hrun', hmethods⟩ := Stub.stubClass_empty hrun
    refine ⟨{ c with pool := state.pool, methods := emptied ++ [helper] },
      stub_eq_ok_iff.2 (.inr ⟨hmodule, className, _, state, hname, ?_, rfl⟩), rfl, ?_, ?_,
      fun hfalse => absurd hfalse Bool.false_ne_true, fun _ => rfl⟩
    · rw [if_neg (by simp [hinterface])]
      exact hrun'
    · rw [← hlength, List.take_left, hmethods.length_eq, List.take_left]
      exact hmethods
    · rw [← hlength, List.drop_left, hmethods.length_eq, List.drop_left]

/-- An interface with an initializer and a method with a default body, whose name has the given
index. -/
def initializing (nameIndex : UInt16) : ClassFile :=
  { greeter with
    access := ⟨0x0601⟩
    pool := ⟨#[.utf8 "p/I", .classRef 1, .utf8 objectClassName, .classRef 3,
      .utf8 Attribute.codeName, .utf8 initializerName, .utf8 "()V"]⟩
    methods := [⟨⟨0x0008⟩, 6, 7, [(CodePayload.returning 0).toAttribute 5]⟩,
      ⟨⟨0x0001⟩, nameIndex, 7, [(CodePayload.returning 1).toAttribute 5]⟩] }

/-- Its stub, in which both methods make the exception. -/
def initializingStub (nameIndex : UInt16) : ClassFile :=
  { initializing nameIndex with
    pool := ⟨(initializing nameIndex).pool.slots ++ #[.utf8 Diagnostic.exceptionClass, .classRef 8,
      .utf8 Diagnostic.message, .string 10, .utf8 constructorName,
      .utf8 Diagnostic.constructorDescriptor, .nameAndType 12 13, .methodRef 9 14]⟩
    methods :=
      [⟨⟨0x0008⟩, 6, 7, [(GeneratedBody.raisingInline ⟨9, 11, 15⟩ 0).payload.toAttribute 5]⟩,
        ⟨⟨0x0001⟩, nameIndex, 7,
          [(GeneratedBody.raisingInline ⟨9, 11, 15⟩ 1).payload.toAttribute 5]⟩] }

/-- A class with a static initializer of its own. -/
theorem stub_empty_of_stub_initializing :
    (initializing 5).isModule = false ∧
      ((initializing 5).isInterface = true →
        ∀ method ∈ (initializing 5).methods, method.RefersWithin (initializing 5).pool) ∧
      (initializing 5).stub .stub = .ok (initializingStub 5) ∧
      ∃ o, (initializing 5).stub .empty = .ok o ∧ o.pool = (initializingStub 5).pool := by
  have hwithin : ∀ method ∈ (initializing 5).methods,
      method.RefersWithin (initializing 5).pool := by
    intro method hmem _
    rcases List.mem_pair.1 hmem with rfl | rfl
    · exact ⟨by decide, by decide⟩
    · exact ⟨by decide, by decide⟩
  have hstub : (initializing 5).stub .stub = .ok (initializingStub 5) := by
    rw [← toOption_eq_some_iff]
    decide +kernel
  obtain ⟨o, hempty, -, -, -, -, hpool⟩ := stub_empty_of_stub (by decide) (fun _ => hwithin) hstub
  refine ⟨by decide, fun _ => hwithin, hstub, o, hempty, hpool (.inr ?_)⟩
  exact ⟨_, List.mem_cons_of_mem _ List.mem_cons_self, by decide +kernel,
    fun hname => absurd (toOption_eq_some_iff.2 hname) (by decide +kernel)⟩

/-- With the name of the second method behind the pool, the policy decides whether there is a
stub: under `stub`, the entries that are added for the initializer make up for the name. -/
theorem stub_empty_lateNamed :
    (initializing 8).isModule = false ∧
      (initializing 8).stub .stub = .ok (initializingStub 8) ∧
      (initializing 8).stub .empty = .error (.pool (.invalidIndex 8)) := by
  refine ⟨by decide, ?_, ?_⟩
  · rw [← toOption_eq_some_iff]
    decide +kernel
  · decide +kernel

end ClassFile

end ClassStub
