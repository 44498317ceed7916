import Mathlib.Data.List.Forall2
import ClassStub.ClassFile
import ClassStub.Stub
import ClassStub.Proofs.Bodies
import ClassStub.Proofs.Replacement

/-!
# The shape of a stub

What a class is made into, as a relation between the class and its stub (`ClassFile.IsStub`).
It says of every method whether it was kept or which body it was given (`Member.StubbedTo`), and
of the stub of a class what its helper is (`Stub.IsHelper`). Everything is said in terms of the
pool of the stub. This is possible because the pool only grows while the methods are visited,
and by no text `Code`: what a method looked like when it was visited, it still looks like in the
pool that is left at the end.
-/

namespace ClassStub

variable {policy : InitializerPolicy} {helper? : Option UInt16} {pool grown : ConstantPool}
  {texts : List String}

/-! ### Stubbed methods -/

/-- The body is one that a method of the given name may be given. Only an initializer that is to
be empty may return; a method may call the helper if there is a reference to one, and else raise
the exception on its own. -/
def GeneratedBody.Suits (policy : InitializerPolicy) (helper? : Option UInt16)
    (pool : ConstantPool) (name : String) : GeneratedBody → Prop
  | returning _ => name = initializerName ∧ policy = .empty
  | delegating reference _ => helper? = some reference
  | raisingInline refs _ => helper? = none ∧ refs.ResolveIn pool
  | returningException _ => False

/-- A body suits its method in a later pool as well. -/
theorem GeneratedBody.Suits.grow {body : GeneratedBody} {name : String}
    (h : body.Suits policy helper? pool name) (hgrows : pool.GrowsTo texts grown) :
    body.Suits policy helper? grown name := by
  cases body with
  | raisingInline refs => exact ⟨h.1, h.2.grow hgrows⟩
  | _ => exact h

/-- What a method is made into: without a body it is kept, and else its body is replaced by one
that suits it, with the local slots that its descriptor and its receiver need. -/
inductive Member.StubbedTo (policy : InitializerPolicy) (helper? : Option UInt16)
    (pool : ConstantPool) (method : Member) : Member → Prop
  | kept (hbody : method.hasBody pool = false) : StubbedTo policy helper? pool method method
  | replaced {name descriptor : String} {slots : Nat} {body : GeneratedBody}
      (hbody : method.hasBody pool = true) (hname : method.name pool = .ok name)
      (hdescriptor : method.descriptor pool = .ok descriptor)
      (hslots : parameterSlots descriptor = .ok slots)
      (hlocals : body.maxLocals = UInt16.ofNat (slots + method.receiverSlots))
      (hsuits : body.Suits policy helper? pool name) :
      StubbedTo policy helper? pool method (method.replaceCode pool body.payload)

/-- Raising code does not need the text `Code`. -/
theorem RaiseRefs.codeName_not_mem_texts : Attribute.codeName ∉ RaiseRefs.texts := by decide

/-- The exception brings no text `Code`, so its entries change no method's look. -/
theorem Member.StubbedTo.grow {method stubbed : Member}
    (h : method.StubbedTo policy helper? pool stubbed)
    (hgrows : pool.GrowsTo RaiseRefs.texts grown) :
    method.StubbedTo policy helper? grown stubbed := by
  have hcode := RaiseRefs.codeName_not_mem_texts
  cases h with
  | kept hbody => exact .kept (by rw [hasBody_of_growsTo hgrows hcode, hbody])
  | replaced hbody hname hdescriptor hslots hlocals hsuits =>
    rw [← replaceCode_of_growsTo hgrows hcode]
    exact .replaced (by rw [hasBody_of_growsTo hgrows hcode, hbody]) (hgrows.utf8 hname)
      (hgrows.utf8 hdescriptor) hslots hlocals (hsuits.grow hgrows)

/-- In lists that are related element by element, an element has a counterpart at its position. -/
theorem exists_of_getElem? {α β : Type} {R : α → β → Prop} {l : List α} {m : List β}
    (h : List.Forall₂ R l m) {position : Nat} {b : β} (hget : m[position]? = some b) :
    ∃ a, l[position]? = some a ∧ R a b := by
  induction h generalizing position with
  | nil => exact nomatch hget
  | cons hfirst hrest ih =>
    cases position with
    | zero =>
      obtain rfl := Option.some.inj hget
      exact ⟨_, rfl, hfirst⟩
    | succ position => exact ih hget

/-- What holds of one list holds of a related one if the relation carries it over. -/
theorem forall_mem_of_forall₂ {α β : Type} {R : α → β → Prop} {p : α → Prop} {q : β → Prop}
    {l : List α} {m : List β} (h : List.Forall₂ R l m) (hl : ∀ a ∈ l, p a)
    (hstep : ∀ a b, p a → R a b → q b) : ∀ b ∈ m, q b := by
  induction h with
  | nil =>
    intro b hmem
    exact absurd hmem List.not_mem_nil
  | cons hfirst _ ih =>
    rw [List.forall_mem_cons] at hl ⊢
    exact ⟨hstep _ _ hl.1 hfirst, ih hl.2⟩

namespace Member.StubbedTo

variable {method stubbed : Member}

/-- Stubbing a method changes its code at most. -/
theorem sameButCode (h : method.StubbedTo policy helper? pool stubbed) :
    method.SameButCode pool stubbed := by
  cases h with
  | kept => exact .same
  | replaced => exact method.sameButCode_replaceCode _

/-- A method is declared as before. -/
theorem isDeclaredAs_eq (h : method.StubbedTo policy helper? pool stubbed)
    (name descriptor : String) :
    stubbed.isDeclaredAs pool name descriptor = method.isDeclaredAs pool name descriptor := by
  cases h with
  | kept => rfl
  | replaced => rw [isDeclaredAs, name_replaceCode, descriptor_replaceCode, isDeclaredAs]

/-- The first `Code` attribute of a method with a body holds the body it was given. -/
theorem body_eq (h : method.StubbedTo policy helper? pool stubbed)
    (hbody : stubbed.hasBody pool = true) :
    ∃ name descriptor slots body nameIndex, stubbed.name pool = .ok name ∧
      stubbed.descriptor pool = .ok descriptor ∧ parameterSlots descriptor = .ok slots ∧
      GeneratedBody.maxLocals body = UInt16.ofNat (slots + stubbed.receiverSlots) ∧
      body.Suits policy helper? pool name ∧
      stubbed.attributes.find? (·.isNamed pool Attribute.codeName) =
        some (body.payload.toAttribute nameIndex) := by
  cases h with
  | kept hnone => rw [hnone] at hbody; exact nomatch hbody
  | replaced hreplaced hname hdescriptor hslots hlocals hsuits =>
    obtain ⟨nameIndex, hfind⟩ := find?_replaceCode hreplaced _
    refine ⟨_, _, _, _, nameIndex, ?_, ?_, hslots, ?_, hsuits, hfind⟩
    · rw [name_replaceCode, hname]
    · rw [descriptor_replaceCode, hdescriptor]
    · rw [receiverSlots_replaceCode, hlocals]

end Member.StubbedTo

/-- A method whose first `Code` attribute holds a generated body. -/
theorem Member.code_of_find? {method : Member} {body : GeneratedBody} {nameIndex : UInt16}
    (hfind : method.attributes.find? (·.isNamed pool Attribute.codeName) =
      some (body.payload.toAttribute nameIndex)) :
    method.code pool = .ok (some body.payload) := by
  rw [code, hfind]
  change CodePayload.decode body.payload.encode >>= _ = _
  rw [body.decode_encode]
  rfl

/-! ### The helper -/

namespace Stub

/-- The texts that the entries for the helper of a class bring into a pool. -/
def helperTexts (className : String) : List String :=
  [className, Helper.name, Helper.descriptor, Attribute.codeName] ++ RaiseRefs.texts

/-- A helper needs the texts of raising code. -/
theorem raiseTexts_subset (className : String) : RaiseRefs.texts ⊆ helperTexts className :=
  List.subset_append_right _ _

/-- The method is the helper of a class with the given name, and the reference is a reference
to it. -/
structure IsHelper (className : String) (pool : ConstantPool) (reference : UInt16)
    (refs : RaiseRefs) (helper : Member) : Prop where
  access : helper.access = Helper.access
  name : helper.name pool = .ok Helper.name
  descriptor : helper.descriptor pool = .ok Helper.descriptor
  attributes : ∃ nameIndex, pool.utf8 nameIndex = .ok Attribute.codeName ∧
    helper.attributes =
      [(GeneratedBody.returningException refs).payload.toAttribute nameIndex]
  refs : refs.ResolveIn pool
  reference : pool.methodRef reference = .ok (className, Helper.name, Helper.descriptor)

/-- A helper stays one in a later pool. -/
theorem IsHelper.grow {className : String} {reference : UInt16} {refs : RaiseRefs}
    {helper : Member} (h : IsHelper className pool reference refs helper)
    (hgrows : pool.GrowsTo texts grown) : IsHelper className grown reference refs helper := by
  obtain ⟨nameIndex, hname, hattributes⟩ := h.attributes
  exact ⟨h.access, hgrows.utf8 h.name, hgrows.utf8 h.descriptor,
    ⟨nameIndex, hgrows.utf8 hname, hattributes⟩, h.refs.grow hgrows,
    hgrows.methodRef h.reference⟩

namespace IsHelper

variable {className : String} {reference : UInt16} {refs : RaiseRefs} {helper : Member}

/-- A helper is static. -/
theorem isStatic (h : IsHelper className pool reference refs helper) :
    helper.access.isStatic = true := by
  rw [h.access]
  decide

/-- A helper is neither abstract nor native. -/
theorem isBodiless (h : IsHelper className pool reference refs helper) :
    helper.isBodiless = false := by
  rw [Member.isBodiless, h.access]
  decide

/-- The first attribute `Code` of a helper is its generated body. -/
theorem find?_code (h : IsHelper className pool reference refs helper) :
    ∃ nameIndex, helper.attributes.find? (·.isNamed pool Attribute.codeName) =
      some ((GeneratedBody.returningException refs).payload.toAttribute nameIndex) := by
  obtain ⟨nameIndex, hname, hattributes⟩ := h.attributes
  refine ⟨nameIndex, ?_⟩
  rw [hattributes, List.find?_cons_of_pos]
  exact Attribute.isNamed_iff.2 hname

/-- A helper has a body. -/
theorem hasBody (h : IsHelper className pool reference refs helper) :
    helper.hasBody pool = true := by
  obtain ⟨nameIndex, hname, hattributes⟩ := h.attributes
  have hnamed : ((GeneratedBody.returningException refs).payload.toAttribute nameIndex).isNamed
      pool Attribute.codeName = true := Attribute.isNamed_iff.2 hname
  simp [Member.hasBody, h.isBodiless, Member.codePosition?, hattributes, hnamed]

/-- The code of a helper is its generated body. -/
theorem code (h : IsHelper className pool reference refs helper) :
    helper.code pool = .ok (some (GeneratedBody.returningException refs).payload) := by
  obtain ⟨_, hfind⟩ := h.find?_code
  exact Member.code_of_find? hfind

/-- The helper is found behind methods none of which is declared like it. -/
theorem find?_append (h : IsHelper className pool reference refs helper)
    {methods stubbed : List Member}
    (hothers : ∀ method ∈ methods,
      method.isDeclaredAs pool Helper.name Helper.descriptor = false)
    (hmethods : List.Forall₂ (Member.StubbedTo policy helper? pool) methods stubbed) :
    (stubbed ++ [helper]).find? (·.isDeclaredAs pool Helper.name Helper.descriptor) =
      some helper := by
  induction hmethods with
  | nil =>
    rw [List.nil_append, List.find?_cons_of_pos]
    exact Member.isDeclaredAs_iff.2 ⟨h.name, h.descriptor⟩
  | cons hfirst hrest ih =>
    rw [List.cons_append, List.find?_cons_of_neg]
    · exact ih fun method hmem => hothers method (List.mem_cons_of_mem _ hmem)
    · rw [hfirst.isDeclaredAs_eq, hothers _ List.mem_cons_self]
      exact Bool.false_ne_true

end IsHelper

end Stub

/-! ### Stubs -/

/-- What a class that is no module descriptor is made into. Its pool grows, its methods are
stubbed, and unless it is an interface it gets the helper, which it did not declare before. -/
inductive ClassFile.IsStub (policy : InitializerPolicy) (c : ClassFile) : ClassFile → Prop
  | ofInterface {pool : ConstantPool} {stubbed : List Member} (hinterface : c.isInterface = true)
      (hgrows : c.pool.GrowsTo RaiseRefs.texts pool) (hsize : pool.size ≤ ConstantPool.maxSlots)
      (hmethods : List.Forall₂ (Member.StubbedTo policy none pool) c.methods stubbed) :
      IsStub policy c { c with pool, methods := stubbed }
  | ofClass {className : String} {pool : ConstantPool} {reference : UInt16} {refs : RaiseRefs}
      {helper : Member} {stubbed : List Member} (hclass : c.isInterface = false)
      (hgrows : c.pool.GrowsTo (Stub.helperTexts className) pool)
      (hsize : pool.size ≤ ConstantPool.maxSlots)
      (hname : pool.className c.thisClass = .ok className)
      (hhelper : Stub.IsHelper className pool reference refs helper)
      (hothers : ∀ method ∈ c.methods,
        method.isDeclaredAs pool Helper.name Helper.descriptor = false)
      (hmethods :
        List.Forall₂ (Member.StubbedTo policy (some reference) pool) c.methods stubbed) :
      IsStub policy c { c with pool, methods := stubbed ++ [helper] }

end ClassStub
