import ClassStub.Proofs.Finding

/-!
# How many slots interning takes

Interning an entry appends the entry and those of its parts that are not found. So the number of
slots that it takes is bounded whatever the pool holds (`ConstantPool.FitsIn`), and it can only
fail when the pool has no room for that many.

The bounds add up along a chain of actions, but a chain takes less than its actions on their own:
what one of them interned, a later one finds. For a text this is plain. For a class it is so,
too, though not always at the index that was returned (`isSome_findClass?_of_internClass`): a
pool may hold an older reference that comes to life when the name of the class is appended.
-/

namespace ClassStub

namespace ConstantPool

variable {α β : Type} {pool middle grown : ConstantPool} {index : UInt16} {texts : List String}
  {constant : Constant} {slots more : Nat}

/-! ### Actions that fit in a number of slots -/

/-- The action appends no more than a number of slots, and it fails only when the pool has no room
for so many. -/
structure FitsIn (slots : Nat) (action : PoolAction α) (pool : ConstantPool) : Prop where
  size_le : ∀ a grown, action pool = .ok a grown → grown.size ≤ pool.size + slots
  full : ∀ error left, action pool = .error error left →
    error = .outOfSpace ∧ maxSlots < pool.size + slots

/-- An action that leaves the pool as it is needs no slots. -/
theorem fitsIn_of_ok {action : PoolAction α} {a : α} (h : action pool = .ok a pool) :
    FitsIn 0 action pool := by
  constructor
  · intro b grown hrun
    obtain ⟨-, rfl⟩ := EStateM.Result.ok.inj (h.symm.trans hrun)
    exact Nat.le_refl _
  · intro error left hrun
    exact nomatch h.symm.trans hrun

/-- Two actions need as many slots as both of them, the second one in the pool that the first one
leaves. -/
theorem FitsIn.bind {first : PoolAction α} {next : α → PoolAction β} (h : FitsIn slots first pool)
    (hnext : ∀ a middle, first pool = .ok a middle → FitsIn more (next a) middle) :
    FitsIn (slots + more) (first >>= next) pool := by
  constructor
  · intro b grown hrun
    obtain ⟨a, middle, hfirst, hrest⟩ := bind_run_eq_ok_iff.1 hrun
    have hmiddle := h.size_le a middle hfirst
    have hgrown := (hnext a middle hfirst).size_le b grown hrest
    omega
  · intro error left hrun
    obtain hfirst | ⟨a, middle, hfirst, hrest⟩ := bind_run_eq_error_iff.1 hrun
    · obtain ⟨herror, hfull⟩ := h.full error left hfirst
      exact ⟨herror, by omega⟩
    · have hmiddle := h.size_le a middle hfirst
      obtain ⟨herror, hfull⟩ := (hnext a middle hfirst).full error left hrest
      exact ⟨herror, by omega⟩

/-- Changing the result takes no slots. -/
theorem FitsIn.map {action : PoolAction α} (h : FitsIn slots action pool) (f : α → β) :
    FitsIn slots (action >>= fun a => pure (f a)) pool :=
  h.bind fun _ _ _ => fitsIn_of_ok rfl

/-- An entry of width one needs one slot. -/
theorem fitsIn_push (hwidth : constant.width = 1) : FitsIn 1 (push constant) pool := by
  constructor
  · intro index grown hrun
    obtain ⟨-, -, rfl⟩ := push_eq_ok_iff.1 hrun
    rw [size_append, hwidth]
  · intro error left hrun
    rw [push, hwidth] at hrun
    split at hrun
    case isTrue hfull =>
      injection hrun with herror
      exact ⟨herror.symm, hfull⟩
    case isFalse => cases hrun

/-! ### Interning -/

section Interning

variable {found : ConstantPool → Option UInt16} {build : PoolAction Constant}

/-- Interning takes one slot more than the parts of the entry. -/
theorem fitsIn_internWith (h : FitsIn slots build pool)
    (hwidth : ∀ constant middle, build pool = .ok constant middle → constant.width = 1) :
    FitsIn (slots + 1) (internWith found build) pool := by
  cases hfound : found pool with
  | some index =>
    -- what is found is not built
    have hnone : FitsIn 0 (internWith found build) pool :=
      fitsIn_of_ok (internWith_of_found hfound)
    constructor
    · intro a grown hrun
      exact Nat.le_add_right_of_le (hnone.size_le a grown hrun)
    · intro error left hrun
      obtain ⟨herror, hfull⟩ := hnone.full error left hrun
      exact ⟨herror, by omega⟩
  | none =>
    -- what is not found is built and pushed
    have hparts : FitsIn (slots + 1) (build >>= push) pool :=
      h.bind fun constant middle hbuild => fitsIn_push (hwidth constant middle hbuild)
    have hrun : internWith found build pool = (build >>= push) pool := by
      rw [internWith, bind_run_of_ok (get_run pool), hfound]
    constructor
    · intro a grown hok
      exact hparts.size_le a grown (hrun.symm.trans hok)
    · intro error left herror
      exact hparts.full error left (hrun.symm.trans herror)

/-- What is found takes no slot. -/
theorem fitsIn_internWith_of_isSome (h : (found pool).isSome = true) :
    FitsIn 0 (internWith found build) pool := by
  obtain ⟨index, hfound⟩ := Option.isSome_iff_exists.1 h
  exact fitsIn_of_ok (internWith_of_found hfound)

end Interning

/-- An entry takes one slot if it is made in the same way from any indices of its parts. -/
theorem width_of_map {action : PoolAction α} {f : α → Constant} (hwidth : ∀ a, (f a).width = 1)
    (hrun : (action >>= fun a => pure (f a)) pool = .ok constant middle) : constant.width = 1 := by
  obtain ⟨a, _, -, hpure⟩ := bind_run_eq_ok_iff.1 hrun
  obtain ⟨rfl, -⟩ := pure_run_eq_ok_iff.1 hpure
  exact hwidth a

/-- A text needs one slot at most. -/
theorem fitsIn_internUtf8 (text : String) (pool : ConstantPool) :
    FitsIn 1 (internUtf8 text) pool := by
  have hbuild : FitsIn 0 (pure (.utf8 text) : PoolAction Constant) pool := fitsIn_of_ok rfl
  refine fitsIn_internWith hbuild fun _ _ hrun => ?_
  obtain ⟨rfl, -⟩ := pure_run_eq_ok_iff.1 hrun
  rfl

/-- A class needs one slot beside those of its name. -/
theorem fitsIn_internClass {name : String} (h : FitsIn slots (internUtf8 name) pool) :
    FitsIn (slots + 1) (internClass name) pool :=
  fitsIn_internWith (h.map Constant.classRef) fun _ _ hbuild => width_of_map (fun _ => rfl) hbuild

/-- A string needs one slot beside those of its text. -/
theorem fitsIn_internString {text : String} (h : FitsIn slots (internUtf8 text) pool) :
    FitsIn (slots + 1) (internString text) pool :=
  fitsIn_internWith (h.map Constant.string) fun _ _ hbuild => width_of_map (fun _ => rfl) hbuild

/-- A pair needs one slot beside those of its texts. -/
theorem fitsIn_internNameAndType {name descriptor : String}
    (hname : FitsIn slots (internUtf8 name) pool)
    (hdescriptor : ∀ index middle, internUtf8 name pool = .ok index middle →
      FitsIn more (internUtf8 descriptor) middle) :
    FitsIn (slots + more + 1) (internNameAndType name descriptor) pool := by
  have hparts := hname.bind fun nameIndex middle hrun =>
    (hdescriptor nameIndex middle hrun).map (Constant.nameAndType nameIndex)
  refine fitsIn_internWith hparts fun _ _ hbuild => ?_
  obtain ⟨nameIndex, _, -, hbuild⟩ := bind_run_eq_ok_iff.1 hbuild
  exact width_of_map (fun _ => rfl) hbuild

/-- A method needs one slot beside those of its class and its pair. -/
theorem fitsIn_internMethodRef {owner name descriptor : String}
    (howner : FitsIn slots (internClass owner) pool)
    (hsignature : ∀ index middle, internClass owner pool = .ok index middle →
      FitsIn more (internNameAndType name descriptor) middle) :
    FitsIn (slots + more + 1) (internMethodRef owner name descriptor) pool := by
  have hparts := howner.bind fun ownerIndex middle hrun =>
    (hsignature ownerIndex middle hrun).map (Constant.methodRef ownerIndex)
  refine fitsIn_internWith hparts fun _ _ hbuild => ?_
  obtain ⟨ownerIndex, _, -, hbuild⟩ := bind_run_eq_ok_iff.1 hbuild
  exact width_of_map (fun _ => rfl) hbuild

/-! ### What is found again -/

/-- A text that was found is found later. -/
theorem GrowsTo.isSome_findUtf8? (h : pool.GrowsTo texts grown) {text : String}
    (hfound : (pool.findUtf8? text).isSome = true) : (grown.findUtf8? text).isSome = true := by
  obtain ⟨index, hfound⟩ := Option.isSome_iff_exists.1 hfound
  exact Option.isSome_iff_exists.2 ⟨index, h.findUtf8? hfound⟩

/-- A text that resolves is found, perhaps at another index. -/
theorem isSome_findUtf8?_of_utf8 {text : String} (h : pool.utf8 index = .ok text) :
    (pool.findUtf8? text).isSome = true := by
  cases hfound : pool.findUtf8? text with
  | some other => rfl
  | none =>
    have hmem := mem_slots_of_get? (utf8_eq_ok_iff.1 h)
    exact absurd hmem (not_mem_of_findUtf8?_eq_none hfound)

/-- A text that was interned is found. -/
theorem isSome_findUtf8?_of_internUtf8 {text : String}
    (hrun : internUtf8 text pool = .ok index grown) : (grown.findUtf8? text).isSome = true :=
  Option.isSome_iff_exists.2 ⟨index, internUtf8_found hrun⟩

/-- An interned class is found, at the index that was returned or at an older reference to the
slot that its name was appended to. -/
theorem isSome_findClass?_of_internClass {name : String}
    (hrun : internClass name pool = .ok index grown) : (grown.findClass? name).isSome = true := by
  obtain ⟨hfound, rfl⟩ | ⟨-, constant, middle, hbuild, hpush⟩ := internWith_eq_ok hrun
  · exact Option.isSome_iff_exists.2 ⟨index, hfound⟩
  · obtain ⟨nameIndex, parts, hintern, hpure⟩ := bind_run_eq_ok_iff.1 hbuild
    obtain ⟨rfl, rfl⟩ := pure_run_eq_ok_iff.1 hpure
    have hname := (growsTo_of_push hpush Nat.one_pos).findUtf8? (internUtf8_found hintern)
    have hmem : Constant.classRef nameIndex ∈ grown.slots.toList := by
      obtain ⟨-, -, rfl⟩ := push_eq_ok_iff.1 hpush
      rw [toList_append]
      exact List.mem_append_right _ (List.mem_singleton_self _)
    cases hclass : grown.find? (· == .classRef nameIndex) with
    | some other =>
      exact Option.isSome_iff_exists.2
        ⟨other, findClass?_eq_some_iff.2 ⟨nameIndex, hname, hclass⟩⟩
    | none => exact absurd hmem (find?_beq_eq_none_iff.1 hclass)

/-- A reference to a method takes three slots if its texts are there. -/
theorem fitsIn_internMethodRef_of_isSome {owner name descriptor : String}
    (howner : (pool.findUtf8? owner).isSome = true) (hname : (pool.findUtf8? name).isSome = true)
    (hdescriptor : (pool.findUtf8? descriptor).isSome = true) :
    FitsIn 3 (internMethodRef owner name descriptor) pool := by
  have hclass : FitsIn 1 (internClass owner) pool :=
    fitsIn_internClass (fitsIn_internWith_of_isSome howner)
  have hsignature : ∀ index p₁, internClass owner pool = .ok index p₁ →
      FitsIn 1 (internNameAndType name descriptor) p₁ := by
    intro _ p₁ hrun₁
    have hgrows₁ := (internClass_gains (List.mem_singleton_self _) hrun₁).growsTo
    have hutf8 : FitsIn 0 (internUtf8 name) p₁ :=
      fitsIn_internWith_of_isSome (hgrows₁.isSome_findUtf8? hname)
    have hsecond : ∀ index p₂, internUtf8 name p₁ = .ok index p₂ →
        FitsIn 0 (internUtf8 descriptor) p₂ := by
      intro _ p₂ hrun₂
      have hgrows₂ := (internUtf8_gains (List.mem_singleton_self _) hrun₂).growsTo
      exact fitsIn_internWith_of_isSome
        (hgrows₂.isSome_findUtf8? (hgrows₁.isSome_findUtf8? hdescriptor))
    exact fitsIn_internNameAndType hutf8 hsecond
  exact fitsIn_internMethodRef hclass hsignature

end ConstantPool

open ConstantPool in
/-- The entries of the exception take eight slots at most: two for the class, two for the message
and four for the constructor, whose class is there by then. -/
theorem RaiseRefs.fitsIn_intern (pool : ConstantPool) : FitsIn 8 RaiseRefs.intern pool := by
  change FitsIn (2 + (2 + (0 + 3 + 1))) _ pool
  refine FitsIn.bind (fitsIn_internClass (fitsIn_internUtf8 _ _)) fun _ p₁ hclass => ?_
  refine FitsIn.bind (fitsIn_internString (fitsIn_internUtf8 _ _)) fun _ p₂ hstring => ?_
  have howner : FitsIn 0 (internClass Diagnostic.exceptionClass) p₂ := by
    obtain ⟨index, hfound⟩ := Option.isSome_iff_exists.1 (isSome_findClass?_of_internClass hclass)
    have hgrows := (internString_gains (List.mem_singleton_self _) hstring).growsTo
    exact fitsIn_of_ok (internWith_of_found (hgrows.findClass? hfound))
  have hconstructor : FitsIn (0 + 3 + 1) (internMethodRef Diagnostic.exceptionClass
      constructorName Diagnostic.constructorDescriptor) p₂ :=
    fitsIn_internMethodRef howner fun _ p₃ _ =>
      fitsIn_internNameAndType (fitsIn_internUtf8 _ _) fun _ _ _ => fitsIn_internUtf8 _ _
  exact hconstructor.map _

end ClassStub
