import ClassStub.Defect.Pool
import ClassStub.Proofs.NewEntries
import ClassStub.Proofs.Replacement

/-!
# What the check of the pool finds

The check looks at the layout of the slots first, and then at the references of one entry after
the other. Here it is stated without this order: a pool passes when its slots pass and each of
its constants is sound (`ClassFile.checkPool_eq_ok_iff`).

The layout alone would let a pool end in a wide constant whose second slot is missing. A pool
that was built by pushing has no such end (`ConstantPool.IsPushed.laidOut`), so another entry may
stand behind it. The entries that interning appends are sound, and those that were sound remain
so. Hence a pool that gains entries passes the check if it did before
(`ClassFile.checkPool_of_gains`).
-/

namespace ClassStub

variable {pool grown : ConstantPool} {texts : List String} {constant : Constant}

/-! ### The layout of the slots -/

private theorem checkSlots_cons_eq_ok_iff {afterWide : Bool} {slot : Nat} {rest : List Constant} :
    checkSlots afterWide slot (constant :: rest) = .ok () ↔
      constant.isUnusable = afterWide ∧ checkSlots constant.isWide (slot + 1) rest = .ok () := by
  rw [checkSlots]
  split
  case isTrue hne =>
    rw [bne_iff_ne] at hne
    simp [hne]
  case isFalse heq =>
    rw [bne_iff_ne, Ne, not_not] at heq
    exact (and_iff_right heq).symm

/-- Slots that are laid out well pass the check, which goes on behind them. -/
private theorem checkSlots_append_eq_ok_iff {afterWide : Bool} {slot : Nat}
    {first second : List Constant} (hfirst : LaidOut afterWide first) :
    checkSlots afterWide slot (first ++ second) = .ok () ↔
      checkSlots false (slot + first.length) second = .ok () := by
  induction first generalizing afterWide slot with
  | nil =>
    rw [show afterWide = false from hfirst]
    rfl
  | cons constant first ih =>
    obtain ⟨hunusable, hrest⟩ := hfirst
    rw [List.cons_append, checkSlots_cons_eq_ok_iff, ih hrest, List.length_cons, Nat.add_assoc,
      Nat.add_comm 1]
    exact and_iff_right hunusable

/-- Slots that are laid out well pass their check. -/
theorem checkSlots_of_laidOut {slot : Nat} {slots : List Constant} (h : LaidOut false slots) :
    checkSlots false slot slots = .ok () := by
  rw [← List.append_nil slots, checkSlots_append_eq_ok_iff h]
  rfl

/-- What passes as the front of more slots passes on its own. -/
private theorem checkSlots_of_append {afterWide : Bool} {slot : Nat} {first second : List Constant}
    (h : checkSlots afterWide slot (first ++ second) = .ok ()) :
    checkSlots afterWide slot first = .ok () := by
  induction first generalizing afterWide slot with
  | nil => rfl
  | cons constant first ih =>
    obtain ⟨hunusable, hrest⟩ := checkSlots_cons_eq_ok_iff.1 h
    exact checkSlots_cons_eq_ok_iff.2 ⟨hunusable, ih hrest⟩

namespace ConstantPool

/-- The pool was built from the empty one by pushing constants. -/
inductive IsPushed : ConstantPool → Prop
  | empty : IsPushed .empty
  | push {pool grown : ConstantPool} {constant : Constant} {index : UInt16} (h : IsPushed pool)
      (hpush : ConstantPool.push constant pool = .ok index grown) : IsPushed grown

/-- A pool that was filled by `push` is no larger than a pool may be. -/
theorem IsPushed.size_le (h : pool.IsPushed) : pool.size ≤ maxSlots := by
  cases h with
  | empty => exact Nat.zero_le _
  | push _ hpush =>
    obtain ⟨hfits, -, rfl⟩ := push_eq_ok_iff.1 hpush
    rw [size_append]
    exact hfits

/-- Another entry may be pushed as long as there is room. -/
theorem IsPushed.append (h : pool.IsPushed) (constant : Constant)
    (hfits : pool.size + constant.width ≤ maxSlots) : (pool.append constant).IsPushed :=
  h.push (push_eq_ok_iff.2 ⟨hfits, rfl, rfl⟩)

/-- If the slots of a pool that was built by pushing pass the check, they are laid out well: no
wide constant at the end lacks its second slot. -/
theorem IsPushed.laidOut (h : pool.IsPushed) {slot : Nat}
    (hcheck : checkSlots false slot pool.slots.toList = .ok ()) :
    LaidOut false pool.slots.toList := by
  induction h with
  | empty => rfl
  | @push pool _ constant _ _ hpush ih =>
    obtain ⟨-, -, rfl⟩ := push_eq_ok_iff.1 hpush
    rw [toList_append] at hcheck ⊢
    have hlaid := ih (checkSlots_of_append hcheck)
    rw [checkSlots_append_eq_ok_iff hlaid] at hcheck
    rw [laidOut_append hlaid, laidOut_slots]
    -- the first of the pushed slots is the constant
    rw [Constant.slots] at hcheck
    split at hcheck <;> exact (checkSlots_cons_eq_ok_iff.1 hcheck).1

/-! ### The references of the constants -/

/-- A reference passes its check if an entry of the right kind is there. -/
theorem expect_eq_ok_iff {culprit target : UInt16} {accept : Constant → Bool} :
    pool.expect culprit target accept = .ok () ↔ (pool.get? target).any accept = true := by
  rw [expect]
  cases pool.get? target with
  | none => simp
  | some constant => cases haccept : accept constant <;> simp [haccept]

/-- An entry of the right kind for a class refers to a name. -/
theorem any_isClassRef_iff {index : UInt16} :
    (pool.get? index).any Constant.isClassRef = true ↔
      ∃ name, pool.get? index = some (.classRef name) := by
  rw [Option.any_eq_true]
  constructor
  · rintro ⟨constant, hget, hclass⟩
    cases constant with
    | classRef name => exact ⟨name, hget⟩
    | _ => exact nomatch hclass
  · rintro ⟨name, hget⟩
    exact ⟨_, hget, rfl⟩

/-- An entry of the right kind that was there is still there. -/
theorem GrowsTo.any_get? (h : pool.GrowsTo texts grown) {index : UInt16}
    {accept : Constant → Bool} (hany : (pool.get? index).any accept = true) :
    (grown.get? index).any accept = true := by
  obtain ⟨constant, hget, haccept⟩ := (Option.any_eq_true _ _).1 hany
  exact (Option.any_eq_true _ _).2 ⟨constant, h.get? hget, haccept⟩

end ConstantPool

/-- What the check finds in a constant: it depends on bootstrap methods only if there are some,
and each of its references leads to an entry of the right kind. -/
structure Constant.IsSoundIn (pool : ConstantPool) (hasBootstrapMethods : Bool)
    (constant : Constant) : Prop where
  bootstrapMethods : constant.isDynamic = true → hasBootstrapMethods = true
  references : ∀ reference ∈ constant.references,
    (pool.get? reference.2).any reference.1.accepts = true

namespace ConstantPool

variable {hasBootstrapMethods : Bool}

private theorem checkEntry_eq_ok_iff {index : UInt16} :
    pool.checkEntry hasBootstrapMethods index constant = .ok () ↔
      constant.IsSoundIn pool hasBootstrapMethods := by
  rw [checkEntry, throw_if_eq_ok_iff, forM_eq_ok_iff]
  simp only [mapError_eq_ok_iff, expect_eq_ok_iff, Bool.and_eq_true, Bool.not_eq_true', not_and,
    Bool.not_eq_false]
  constructor
  · rintro ⟨hbootstrap, hreferences⟩
    exact ⟨hbootstrap, hreferences⟩
  · rintro ⟨hbootstrap, hreferences⟩
    exact ⟨hbootstrap, hreferences⟩

/-- The entries of a pool are the constants in its slots that are usable. -/
private theorem map_snd_entries :
    pool.entries.map Prod.snd = pool.slots.toList.filter fun constant => !constant.isUnusable := by
  rw [entries]
  generalize pool.slots.toList = slots
  generalize 1 = start
  induction slots generalizing start with
  | nil => rfl
  | cons constant slots ih =>
    rw [List.zipIdx_cons, List.filterMap_cons, List.filter_cons, ← ih (start + 1)]
    cases hunusable : constant.isUnusable <;> simp [hunusable]

end ConstantPool

private theorem Constant.isSoundIn_of_isUnusable {hasBootstrapMethods : Bool}
    (h : constant.isUnusable = true) : constant.IsSoundIn pool hasBootstrapMethods := by
  cases constant with
  | unusable => exact ⟨(nomatch ·), fun _ hmem => absurd hmem List.not_mem_nil⟩
  | _ => exact nomatch h

/-- A sound constant is sound in a later pool. -/
theorem Constant.IsSoundIn.grow {hasBootstrapMethods : Bool}
    (h : constant.IsSoundIn pool hasBootstrapMethods) (hgrows : pool.GrowsTo texts grown) :
    constant.IsSoundIn grown hasBootstrapMethods where
  bootstrapMethods := h.bootstrapMethods
  references reference hmem := hgrows.any_get? (h.references reference hmem)

/-- A sound constant is sound where there are bootstrap methods. -/
theorem Constant.IsSoundIn.imp {hasBootstrapMethods hasBootstrapMethods' : Bool}
    (h : constant.IsSoundIn pool hasBootstrapMethods)
    (himp : hasBootstrapMethods = true → hasBootstrapMethods' = true) :
    constant.IsSoundIn pool hasBootstrapMethods' where
  bootstrapMethods hdynamic := himp (h.bootstrapMethods hdynamic)
  references := h.references

namespace ConstantPool

variable {hasBootstrapMethods : Bool}

/-- The parts of a new entry were read in the pool, so its references are sound. -/
theorem NewEntry.isSoundIn (h : pool.NewEntry texts constant) :
    constant.IsSoundIn pool hasBootstrapMethods := by
  have htext : ∀ {index : UInt16} {text : String}, pool.utf8 index = .ok text →
      (pool.get? index).any ReferenceKind.text.accepts = true :=
    fun h => (Option.any_eq_true _ _).2 ⟨_, utf8_eq_ok_iff.1 h, rfl⟩
  cases h with
  | utf8 => exact ⟨(nomatch ·), fun _ hmem => absurd hmem List.not_mem_nil⟩
  | classRef hname =>
    refine ⟨(nomatch ·), ?_⟩
    simpa [Constant.references] using htext hname
  | string hstring =>
    refine ⟨(nomatch ·), ?_⟩
    simpa [Constant.references] using htext hstring
  | nameAndType hname hdescriptor =>
    refine ⟨(nomatch ·), ?_⟩
    simpa [Constant.references] using ⟨htext hname, htext hdescriptor⟩
  | methodRef howner hsignature =>
    obtain ⟨_, howner, -⟩ := className_eq_ok_iff.1 howner
    obtain ⟨_, _, hsignature, -⟩ := nameAndType_eq_ok_iff.1 hsignature
    refine ⟨(nomatch ·), ?_⟩
    simp [Constant.references, howner, hsignature, ReferenceKind.accepts, Constant.isClassRef,
      Constant.isNameAndType]

/-- If all constants of a pool are sound, they are when it has gained entries. -/
private theorem Gains.isSoundIn (h : pool.Gains texts grown)
    (hsound : ∀ constant ∈ pool.slots.toList, constant.IsSoundIn pool hasBootstrapMethods) :
    ∀ constant ∈ grown.slots.toList, constant.IsSoundIn grown hasBootstrapMethods := by
  induction h with
  | refl => exact hsound
  | @tail middle _ _ hstep ih =>
    obtain ⟨added, hnew, hroom, rfl⟩ := hstep
    have hgrows : middle.GrowsTo texts (middle.append added) :=
      Gains.growsTo (.single ⟨added, hnew, hroom, rfl⟩)
    intro constant hmem
    rw [toList_append, hnew.slots, List.mem_append, List.mem_singleton] at hmem
    rcases hmem with hmem | rfl
    · exact (ih constant hmem).grow hgrows
    · exact hnew.isSoundIn.grow hgrows

end ConstantPool

/-! ### Classes -/

namespace ClassFile

variable {c o : ClassFile}

/-- A pool passes the check when its slots do and each of its constants is sound. -/
theorem checkPool_eq_ok_iff :
    c.checkPool = .ok () ↔ checkSlots false 1 c.pool.slots.toList = .ok () ∧
      ∀ constant ∈ c.pool.slots.toList, constant.IsSoundIn c.pool c.hasBootstrapMethods := by
  rw [checkPool, bind_unit_eq_ok_iff, forM_eq_ok_iff]
  refine and_congr_right fun _ => ?_
  change (∀ entry ∈ c.pool.entries,
    c.pool.checkEntry c.hasBootstrapMethods entry.1 entry.2 = .ok ()) ↔ _
  simp only [ConstantPool.checkEntry_eq_ok_iff]
  constructor
  · intro h constant hmem
    cases hunusable : constant.isUnusable with
    | true => exact Constant.isSoundIn_of_isUnusable hunusable
    | false =>
      have hentry : constant ∈ c.pool.entries.map Prod.snd := by
        rw [ConstantPool.map_snd_entries, List.mem_filter, hunusable]
        exact ⟨hmem, rfl⟩
      obtain ⟨entry, hlisted, rfl⟩ := List.mem_map.1 hentry
      exact h entry hlisted
  · intro h entry hmem
    have hentry := List.mem_map_of_mem (f := Prod.snd) hmem
    rw [ConstantPool.map_snd_entries] at hentry
    exact h entry.2 (List.mem_filter.1 hentry).1

/-- A class that passes the check of its pool does so when the pool has gained entries, unless it
has lost its bootstrap methods. -/
theorem checkPool_of_gains_of_hasBootstrapMethods (hpushed : c.pool.IsPushed)
    (hgains : c.pool.Gains texts o.pool)
    (hbootstrap : c.hasBootstrapMethods = true → o.hasBootstrapMethods = true)
    (hcheck : c.checkPool = .ok ()) : o.checkPool = .ok () := by
  obtain ⟨hslots, hsound⟩ := checkPool_eq_ok_iff.1 hcheck
  refine checkPool_eq_ok_iff.2 ⟨?_, ?_⟩
  · exact checkSlots_of_laidOut (hgains.laidOut (hpushed.laidOut hslots))
  · exact hgains.isSoundIn fun constant hmem => (hsound constant hmem).imp hbootstrap

/-- A pool that passes its check passes it with what it gains, as the table of bootstrap methods is
the same. -/
theorem checkPool_of_gains (hpushed : c.pool.IsPushed) (hgains : c.pool.Gains texts o.pool)
    (hattributes : o.attributes = c.attributes)
    (hnot : Attribute.bootstrapMethodsName ∉ texts) (hcheck : c.checkPool = .ok ()) :
    o.checkPool = .ok () := by
  refine checkPool_of_gains_of_hasBootstrapMethods hpushed hgains (fun hbootstrap => ?_) hcheck
  rw [hasBootstrapMethods, hattributes, funext (Attribute.isNamed_of_growsTo hgains.growsTo hnot)]
  exact hbootstrap

end ClassFile

end ClassStub
