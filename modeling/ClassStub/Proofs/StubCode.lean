import ClassStub.Proofs.MemberCheck
import ClassStub.Proofs.Stubbing

/-!
# The code in a checked stub

Stubbing replaces the first `Code` attribute of a method that may have a body. It leaves the
attributes of the other methods and a second `Code` attribute as they are, so a stub alone may
still hold code of the class. Neither passes the check of methods. Stubbing and the check agree
on which attributes are named `Code`, although the check sees a larger pool: no text `Code` is
added to it once methods are visited.

The main result is `ClassFile.stub_code_generated`: all code in a stub that passes the check was
generated.
-/

namespace ClassStub

variable {policy : InitializerPolicy} {helper? : Option UInt16} {pool : ConstantPool}

/-- The body is the one for the method at a position of the stub of a class. The methods of the
class come first; the helper of a stub that is no interface is behind them. -/
def GeneratedBody.IsPlacedAt (policy : InitializerPolicy) (c o : ClassFile) (position : Nat)
    (method : Member) : GeneratedBody → Prop
  | returning _ => position < c.methods.length ∧ policy = .empty ∧
      method.name o.pool = .ok initializerName
  | delegating reference _ => position < c.methods.length ∧ c.isInterface = false ∧
      ∃ className, o.className = .ok className ∧
        o.pool.methodRef reference = .ok (className, Helper.name, Helper.descriptor)
  | raisingInline refs _ => position < c.methods.length ∧ c.isInterface = true ∧
      refs.ResolveIn o.pool
  | returningException refs => position = c.methods.length ∧ c.isInterface = false ∧
      refs.ResolveIn o.pool

/-! ### Single methods -/

namespace Member

variable {method : Member} {attr : Attribute}

private theorem hasBody_of_filter (hbodiless : method.isBodiless = false)
    (hfilter : method.attributes.filter (·.isNamed pool Attribute.codeName) = [attr]) :
    method.hasBody pool = true := by
  have hmem : attr ∈ method.attributes.filter (·.isNamed pool Attribute.codeName) := by
    rw [hfilter]
    exact List.mem_singleton_self attr
  obtain ⟨hmem, hnamed⟩ := List.mem_filter.1 hmem
  rw [hasBody, hbodiless, codePosition?, Bool.not_false, Bool.true_and, List.findIdx?_isSome,
    List.any_eq_true]
  exact ⟨attr, hmem, hnamed⟩

/-- What a method with sound code looks like: it may not have a body and has no `Code`
attribute, or it has a body, and the first `Code` attribute is the only one. -/
theorem HasSoundCode.cases (h : method.HasSoundCode pool) :
    (method.isBodiless = true ∧
      method.attributes.filter (·.isNamed pool Attribute.codeName) = []) ∨
    (method.isBodiless = false ∧ method.hasBody pool = true ∧
      ∀ first, method.attributes.find? (·.isNamed pool Attribute.codeName) = some first →
        method.attributes.filter (·.isNamed pool Attribute.codeName) = [first]) := by
  rcases h with hnone | ⟨hbodiless, attr, payload, hfilter, -⟩
  · exact .inl hnone
  · refine .inr ⟨hbodiless, hasBody_of_filter hbodiless hfilter, fun first hfirst => ?_⟩
    rw [← List.head?_filter, hfilter] at hfirst
    rw [hfilter, Option.some.inj hfirst]

end Member

/-- The method at a position of a stub holds no code but such as was generated. -/
inductive ClassFile.IsGeneratedAt (policy : InitializerPolicy) (c o : ClassFile) (position : Nat)
    (method : Member) : Prop
  /-- The method is abstract or native, and no attribute is named `Code`. -/
  | bodiless (hbodiless : method.isBodiless = true)
      (hnone : method.attributes.filter (·.isNamed o.pool Attribute.codeName) = [])
  /-- One attribute is named `Code`, and its payload is the generated body for the position,
  without handlers and without attributes of its own. -/
  | generated {attr : Attribute} {body : GeneratedBody} (hbodiless : method.isBodiless = false)
      (honly : method.attributes.filter (·.isNamed o.pool Attribute.codeName) = [attr])
      (hdecode : CodePayload.decode attr.info =
        .ok ⟨body.maxStack, body.maxLocals, Instruction.assemble body.instructions, [], []⟩)
      (hplaced : body.IsPlacedAt policy c o position method)

/-- A position is one of the list or the one behind it. -/
private theorem getElem?_append_singleton {α : Type} {l : List α} {a last : α} {position : Nat}
    (hget : (l ++ [last])[position]? = some a) :
    l[position]? = some a ∨ (position = l.length ∧ a = last) := by
  rw [List.getElem?_append] at hget
  split at hget
  case isTrue => exact .inl hget
  case isFalse hge =>
    rw [List.getElem?_singleton] at hget
    split at hget
    case isTrue hzero => exact .inr ⟨by omega, (Option.some.inj hget).symm⟩
    case isFalse => exact nomatch hget

namespace ClassFile

variable {c o : ClassFile} {position : Nat}

/-- A method that was stubbed, if the bodies that suit it are those for its place. -/
private theorem isGeneratedAt_of_stubbedTo {method stubbed : Member}
    (h : method.StubbedTo policy helper? o.pool stubbed) (hsound : stubbed.HasSoundCode o.pool)
    (hplaced : ∀ (body : GeneratedBody) (name : String), stubbed.name o.pool = .ok name →
      body.Suits policy helper? o.pool name → body.IsPlacedAt policy c o position stubbed) :
    IsGeneratedAt policy c o position stubbed := by
  rcases hsound.cases with ⟨hbodiless, hnone⟩ | ⟨hbodiless, hbody, honly⟩
  · exact .bodiless hbodiless hnone
  · obtain ⟨name, -, -, body, nameIndex, hname, -, -, -, hsuits, hfind⟩ := h.body_eq hbody
    exact .generated hbodiless (honly _ hfind) body.decode_encode
      (hplaced body name hname hsuits)

/-- The helper, if it is at its place. -/
private theorem isGeneratedAt_of_isHelper {className : String} {reference : UInt16}
    {refs : RaiseRefs} {helper : Member}
    (h : Stub.IsHelper className o.pool reference refs helper)
    (hsound : helper.HasSoundCode o.pool) (hclass : c.isInterface = false) :
    IsGeneratedAt policy c o c.methods.length helper := by
  rcases hsound.cases with ⟨hbodiless, -⟩ | ⟨hbodiless, -, honly⟩
  · have hbody := h.hasBody
    rw [Member.hasBody, hbodiless] at hbody
    cases hbody
  · obtain ⟨nameIndex, hfind⟩ := h.find?_code
    exact .generated hbodiless (honly _ hfind)
      (GeneratedBody.returningException refs).decode_encode ⟨rfl, hclass, h.refs⟩

/-- **No code of the class survives in a stub that passes the check.** A method of the stub that
is abstract or native has no `Code` attribute. Any other has exactly one, and this holds a
generated body, without handlers or nested attributes, that is the one for its place: a call of
the helper in a class, the making of the exception in an interface, a mere return for an
initializer that was to be emptied, and the return of the exception for the helper. The helper
is the last method of the stub of a class, and no other method is declared like it. -/
theorem stub_code_generated (hmodule : c.isModule = false)
    (hsize : c.pool.size ≤ ConstantPool.maxSlots) (hstub : c.stub policy = .ok o)
    (hcheck : o.check = .ok ()) :
    (∀ position method, o.methods[position]? = some method →
      IsGeneratedAt policy c o position method) ∧
    (∀ position method, o.methods[position]? = some method →
      (method.isDeclaredAs o.pool Helper.name Helper.descriptor = true ↔
        c.isInterface = false ∧ position + 1 = o.methods.length)) ∧
    o.methods.length = c.methods.length + (if c.isInterface then 0 else 1) := by
  have hsound := hasSoundMethod_of_check hcheck
  cases isStub_of_stub hmodule hsize hstub with
  | @ofInterface pool stubbed hinterface hgrows hsize hmethods =>
    refine ⟨?_, ?_, ?_⟩
    · intro position method hget
      have hcode := (hsound method (List.mem_of_getElem? hget)).code
      obtain ⟨original, horiginal, hstubbed⟩ := exists_of_getElem? hmethods hget
      obtain ⟨hlt, -⟩ := List.getElem?_eq_some_iff.1 horiginal
      refine isGeneratedAt_of_stubbedTo hstubbed hcode ?_
      intro body name hname hsuits
      cases body with
      | returning => exact ⟨hlt, hsuits.2, hsuits.1 ▸ hname⟩
      | delegating => exact nomatch hsuits
      | raisingInline => exact ⟨hlt, hinterface, hsuits.2⟩
      | returningException => exact hsuits.elim
    · intro position method hget
      -- an interface that declares the helper does not pass the check
      have hnot := (hsound method (List.mem_of_getElem? hget)).notHelper hinterface
      rw [hnot, hinterface]
      constructor
      · intro h
        exact nomatch h
      · intro h
        exact nomatch h.1
    · rw [if_pos hinterface, Nat.add_zero]
      exact hmethods.length_eq.symm
  | @ofClass className pool reference refs helper stubbed hclass hgrows hsize hname hhelper hothers
      hmethods =>
    have hlength := hmethods.length_eq
    -- a position is that of a method of the class, or it is that of the helper behind them
    refine ⟨?_, ?_, ?_⟩
    · intro position method hget
      have hcode := (hsound method (List.mem_of_getElem? hget)).code
      rcases getElem?_append_singleton hget with hget | ⟨hposition, rfl⟩
      · obtain ⟨original, horiginal, hstubbed⟩ := exists_of_getElem? hmethods hget
        obtain ⟨hlt, -⟩ := List.getElem?_eq_some_iff.1 horiginal
        refine isGeneratedAt_of_stubbedTo hstubbed hcode ?_
        intro body name hname' hsuits
        cases body with
        | returning => exact ⟨hlt, hsuits.2, hsuits.1 ▸ hname'⟩
        | delegating =>
          obtain rfl := Option.some.inj hsuits
          exact ⟨hlt, hclass, className, hname, hhelper.reference⟩
        | raisingInline => exact nomatch hsuits.1
        | returningException => exact hsuits.elim
      · rw [hposition, ← hlength]
        exact isGeneratedAt_of_isHelper hhelper hcode hclass
    · intro position method hget
      rw [List.length_append, List.length_singleton, ← hlength]
      rcases getElem?_append_singleton hget with hget | ⟨hposition, rfl⟩
      · obtain ⟨original, horiginal, hstubbed⟩ := exists_of_getElem? hmethods hget
        obtain ⟨hlt, -⟩ := List.getElem?_eq_some_iff.1 horiginal
        rw [hstubbed.isDeclaredAs_eq, hothers original (List.mem_of_getElem? horiginal)]
        constructor
        · intro h
          exact nomatch h
        · rintro ⟨-, hlast⟩
          omega
      · exact ⟨fun _ => ⟨hclass, by rw [hposition, hlength]⟩,
          fun _ => Member.isDeclaredAs_iff.2 ⟨hhelper.name, hhelper.descriptor⟩⟩
    · rw [List.length_append, List.length_singleton, hlength, if_neg (by simp [hclass])]

/-- A class whose only body is replaced by a generated one. -/
theorem stub_code_generated_greeter :
    greeter.isModule = false ∧ greeter.pool.size ≤ ConstantPool.maxSlots ∧
      greeter.stub .stub = .ok greeterStub ∧ greeterStub.check = .ok () ∧
      ∃ method, greeterStub.methods[0]? = some method ∧
        IsGeneratedAt .stub greeter greeterStub 0 method := by
  have hmodule : greeter.isModule = false := by decide
  have hsize : greeter.pool.size ≤ ConstantPool.maxSlots := by decide
  have hpool : greeterStub.checkPool = .ok () := by
    rw [← toOption_eq_some_iff]
    decide +kernel
  have hmethods : greeterStub.checkMethods = .ok () := by
    -- keys are kept by their hashes, so membership is shown by the lemmas on sets
    refine checkMethodsFrom_cons_eq_ok_iff.2
      ⟨("greet", "(IJ)V"), ?_, by simp, by decide, ?_, checkMethodsFrom_cons_eq_ok_iff.2
        ⟨(Helper.name, Helper.descriptor), ?_, ?_, by decide, ?_, rfl⟩⟩
    · rw [← toOption_eq_some_iff]
      decide +kernel
    · rw [← toOption_eq_some_iff]
      decide +kernel
    · rw [← toOption_eq_some_iff]
      decide +kernel
    · rw [Std.HashSet.contains_insert]
      simp [Helper.name]
    · rw [← toOption_eq_some_iff]
      decide +kernel
  have hcheck : greeterStub.check = .ok () :=
    check_eq_ok_iff.2 ⟨hpool, by decide +kernel, by decide +kernel, by decide +kernel, rfl, rfl,
      hmethods⟩
  exact ⟨hmodule, hsize, stub_greeter, hcheck, _, rfl,
    (stub_code_generated hmodule hsize stub_greeter hcheck).1 0 _ rfl⟩

end ClassFile

end ClassStub
