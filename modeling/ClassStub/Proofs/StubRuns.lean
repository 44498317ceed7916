import ClassStub.Proofs.Execution
import ClassStub.Proofs.Stubbing

/-!
# What stubbed methods do

Every body that a stub gives to a method, other than that of an emptied initializer, throws the
diagnostic exception and does nothing else. In a class this takes a call of the helper, which
the call reaches because no other method of the stub has the helper's name and descriptor.

The main result is `ClassFile.stub_methods_raise`.
-/

namespace ClassStub

variable {policy : InitializerPolicy} {helper? : Option UInt16} {pool : ConstantPool}

/-- On an empty stack, whatever the arguments and the objects that are there, the payload comes
to its end, and in one way only: it makes the diagnostic exception and nothing else, the method
is left as `leave` says of the address of the exception, and its stack gets exactly as deep as
the payload declares. -/
def CodePayload.MakesException (c : ClassFile) (payload : CodePayload)
    (leave : Nat → Completion) : Prop :=
  ∀ heap arguments ending, (Machine.start heap payload arguments).EndsIn c ending ↔
    ending = ⟨leave heap.length, heap ++ [Diagnostic.exception], payload.maxStack.toNat⟩

/-- Runs have one ending at most, so it is enough to know one. -/
private theorem CodePayload.makesException_of_endsIn {c : ClassFile} {payload : CodePayload}
    {leave : Nat → Completion}
    (h : ∀ heap arguments, (Machine.start heap payload arguments).EndsIn c
      ⟨leave heap.length, heap ++ [Diagnostic.exception], payload.maxStack.toNat⟩) :
    payload.MakesException c leave := by
  intro heap arguments ending
  constructor
  · intro hends
    exact hends.unique (h heap arguments)
  · rintro rfl
    exact h heap arguments

/-- A method of a stub raises with the body that it was given, if each body that suits a method
other than an initializer that was to be emptied does. -/
private theorem raises_of_mem {c : ClassFile} {maxStack : UInt16} {methods stubbed : List Member}
    (hmethods : List.Forall₂ (Member.StubbedTo policy helper? pool) methods stubbed)
    (hraises : ∀ (body : GeneratedBody) (name : String), body.Suits policy helper? pool name →
      ¬ (policy = .empty ∧ name = initializerName) →
        body.maxStack = maxStack ∧ body.payload.MakesException c .threw)
    {method : Member} (hmem : method ∈ stubbed) (hbody : method.hasBody pool = true)
    (hnot : ¬ (policy = .empty ∧ method.name pool = .ok initializerName)) :
    ∃ descriptor slots payload, method.descriptor pool = .ok descriptor ∧
      parameterSlots descriptor = .ok slots ∧ method.code pool = .ok (some payload) ∧
      payload.maxStack = maxStack ∧
      (slots + method.receiverSlots < 2 ^ 16 →
        payload.maxLocals.toNat = slots + method.receiverSlots) ∧
      payload.MakesException c .threw := by
  -- the method stands where one of the class stands that it was made from
  obtain ⟨position, hget⟩ := List.getElem?_of_mem hmem
  obtain ⟨original, -, horiginal⟩ := exists_of_getElem? hmethods hget
  obtain ⟨name, descriptor, slots, body, nameIndex, hname, hdescriptor, hslots, hlocals, hsuits,
    hfind⟩ := horiginal.body_eq hbody
  have hname' : ¬ (policy = .empty ∧ name = initializerName) := by
    rintro ⟨hpolicy, rfl⟩
    exact hnot ⟨hpolicy, hname⟩
  obtain ⟨hstack, hruns⟩ := hraises body name hsuits hname'
  refine ⟨descriptor, slots, body.payload, hdescriptor, hslots, Member.code_of_find? hfind, hstack,
    fun hlt => ?_, hruns⟩
  rw [GeneratedBody.payload, hlocals]
  exact UInt16.toNat_ofNat_of_lt' hlt

/-- **Stubbed methods raise the diagnostic and nothing else.** Each method that the stub has
from the class and that has a body, unless it is an initializer that was to be emptied, throws
an exception that was made by its constructor from the diagnostic message. Its stack never gets
deeper than declared and gets as deep, and its local slots are those of the parameters and the
receiver. The stub of a class has one method more, which returns such an exception. -/
theorem ClassFile.stub_methods_raise {c o : ClassFile} (hmodule : c.isModule = false)
    (hsize : c.pool.size ≤ ConstantPool.maxSlots) (hstub : c.stub policy = .ok o) :
    (∀ method ∈ o.methods.take c.methods.length, method.hasBody o.pool = true →
      ¬ (policy = .empty ∧ method.name o.pool = .ok initializerName) →
      ∃ descriptor slots payload, method.descriptor o.pool = .ok descriptor ∧
        parameterSlots descriptor = .ok slots ∧ method.code o.pool = .ok (some payload) ∧
        payload.maxStack = (if c.isInterface then 3 else 1) ∧
        (slots + method.receiverSlots < 2 ^ 16 →
          payload.maxLocals.toNat = slots + method.receiverSlots) ∧
        payload.MakesException o .threw) ∧
    (c.isInterface = true → o.methods.length = c.methods.length) ∧
    (c.isInterface = false → ∃ helper payload,
      o.methods = o.methods.take c.methods.length ++ [helper] ∧
      o.findMethod? Helper.name Helper.descriptor = some helper ∧
      helper.code o.pool = .ok (some payload) ∧ payload.maxStack = 3 ∧ payload.maxLocals = 0 ∧
      payload.MakesException o fun address => .returned (.object address)) := by
  cases isStub_of_stub hmodule hsize hstub with
  | @ofInterface pool stubbed hinterface hgrows hsize hmethods =>
    rw [hmethods.length_eq, List.take_length, if_pos hinterface]
    have hraises : ∀ (body : GeneratedBody) (name : String), body.Suits policy none pool name →
        ¬ (policy = .empty ∧ name = initializerName) → body.maxStack = 3 ∧
          body.payload.MakesException { c with pool, methods := stubbed } .threw := by
      intro body name hsuits hother
      cases body with
      | returning => exact absurd hsuits.symm hother
      | delegating => exact nomatch hsuits
      | raisingInline refs maxLocals =>
        exact ⟨rfl, CodePayload.makesException_of_endsIn fun heap arguments =>
          Machine.endsIn_raisingInline hsuits.2 _ _⟩
      | returningException => exact hsuits.elim
    refine ⟨?_, fun _ => rfl, fun hclass => ?_⟩
    · intro method hmem hbody hnot
      exact raises_of_mem hmethods hraises hmem hbody hnot
    · rw [hinterface] at hclass
      exact nomatch hclass
  | @ofClass className pool reference refs helper stubbed hclass hgrows hsize hname hhelper hothers
      hmethods =>
    have howner : ClassFile.className { c with pool, methods := stubbed ++ [helper] } =
        .ok className := hname
    -- the call reaches the helper, since no method before it is declared like it
    have hfind := hhelper.find?_append hothers hmethods
    rw [hmethods.length_eq, List.take_left, if_neg (by simp [hclass])]
    have hraises : ∀ (body : GeneratedBody) (name : String),
        body.Suits policy (some reference) pool name →
        ¬ (policy = .empty ∧ name = initializerName) → body.maxStack = 1 ∧
          body.payload.MakesException { c with pool, methods := stubbed ++ [helper] } .threw := by
      intro body name hsuits hother
      cases body with
      | returning => exact absurd hsuits.symm hother
      | delegating index maxLocals =>
        obtain rfl := Option.some.inj hsuits
        exact ⟨rfl, CodePayload.makesException_of_endsIn fun heap arguments =>
          Machine.endsIn_delegating hhelper.reference howner hfind hhelper.isStatic
            hhelper.hasBody hhelper.code hhelper.refs _ _⟩
      | raisingInline => exact nomatch hsuits.1
      | returningException => exact hsuits.elim
    refine ⟨?_, fun hinterface => ?_, fun _ => ?_⟩
    · intro method hmem hbody hnot
      exact raises_of_mem hmethods hraises hmem hbody hnot
    · rw [hclass] at hinterface
      exact nomatch hinterface
    · exact ⟨helper, _, rfl, hfind, hhelper.code, rfl, rfl,
        CodePayload.makesException_of_endsIn fun heap arguments =>
          Machine.endsIn_returningException hhelper.refs _⟩

/-- A class whose only body raises the exception in its stub. -/
theorem ClassFile.stub_methods_raise_greeter :
    greeter.isModule = false ∧ greeter.pool.size ≤ ConstantPool.maxSlots ∧
      greeter.stub .stub = .ok greeterStub ∧
      ∃ method payload, greeterStub.methods.head? = some method ∧
        method.code greeterStub.pool = .ok (some payload) ∧ payload.maxStack = 1 ∧
        payload.maxLocals.toNat = 4 ∧ payload.MakesException greeterStub .threw := by
  have hmodule : greeter.isModule = false := by decide
  have hsize : greeter.pool.size ≤ ConstantPool.maxSlots := by decide
  have hraises := (stub_methods_raise hmodule hsize stub_greeter).1
  obtain ⟨descriptor, slots, payload, hdescriptor, hslots, hcode, hstack, hlocals, hruns⟩ :=
    hraises _ List.mem_cons_self (by decide +kernel) (by decide)
  refine ⟨hmodule, hsize, stub_greeter, _, payload, rfl, hcode, hstack, ?_, hruns⟩
  obtain rfl : "(IJ)V" = descriptor := Except.ok.inj hdescriptor
  have hthree : parameterSlots "(IJ)V" = .ok 3 := by cbv
  obtain rfl := Except.ok.inj (hthree.symm.trans hslots)
  exact hlocals (by decide)

end ClassStub
