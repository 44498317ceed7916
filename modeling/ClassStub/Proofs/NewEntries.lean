import Mathlib.Logic.Relation
import ClassStub.Proofs.Interning

/-!
# The entries that interning appends

Interning appends entries one after another, and it does not append just anything. A text is
appended only if the pool does not hold it yet, and any other entry only behind the parts that
it refers to (`ConstantPool.NewEntry`). A pool that comes from another one in this way is said to
gain entries (`ConstantPool.Gains`). What is to be shown of every pool that interning leaves is
shown of one new entry and then holds for any number of them.

Nothing is asked of the pool at the start, not even that it is small enough: a pool that is too
large gains no entry.
-/

namespace ClassStub

namespace ConstantPool

variable {pool middle grown : ConstantPool} {index : UInt16} {texts : List String}
  {constant : Constant}

/-- An entry that interning may append: one of the texts, if the pool does not hold it, or an
entry whose parts can be read in the pool. -/
inductive NewEntry (texts : List String) (pool : ConstantPool) : Constant → Prop
  | utf8 {text : String} (hmem : text ∈ texts) (hfresh : .utf8 text ∉ pool.slots.toList) :
      NewEntry texts pool (.utf8 text)
  | classRef {nameIndex : UInt16} {name : String} (hname : pool.utf8 nameIndex = .ok name) :
      NewEntry texts pool (.classRef nameIndex)
  | string {textIndex : UInt16} {text : String} (htext : pool.utf8 textIndex = .ok text) :
      NewEntry texts pool (.string textIndex)
  | nameAndType {nameIndex descriptorIndex : UInt16} {name descriptor : String}
      (hname : pool.utf8 nameIndex = .ok name)
      (hdescriptor : pool.utf8 descriptorIndex = .ok descriptor) :
      NewEntry texts pool (.nameAndType nameIndex descriptorIndex)
  | methodRef {ownerIndex signature : UInt16} {owner name descriptor : String}
      (howner : pool.className ownerIndex = .ok owner)
      (hsignature : pool.nameAndType signature = .ok (name, descriptor)) :
      NewEntry texts pool (.methodRef ownerIndex signature)

private theorem NewEntry.isUnusable (h : pool.NewEntry texts constant) :
    constant.isUnusable = false := by
  cases h <;> rfl

/-- A new entry takes up a single slot. -/
theorem NewEntry.slots (h : pool.NewEntry texts constant) : constant.slots = [constant] := by
  cases h <;> rfl

/-- A new entry has the width one. -/
theorem NewEntry.width (h : pool.NewEntry texts constant) : constant.width = 1 := by
  rw [← Constant.length_slots, h.slots, List.length_singleton]

/-- Of the texts, only those matter that the pool does not hold yet. -/
theorem NewEntry.imp {more : List String} (h : pool.NewEntry texts constant)
    (htexts : ∀ text ∈ texts, .utf8 text ∉ pool.slots.toList → text ∈ more) :
    pool.NewEntry more constant := by
  cases h with
  | utf8 hmem hfresh => exact .utf8 (htexts _ hmem hfresh) hfresh
  | classRef hname => exact .classRef hname
  | string htext => exact .string htext
  | nameAndType hname hdescriptor => exact .nameAndType hname hdescriptor
  | methodRef howner hsignature => exact .methodRef howner hsignature

/-- The later pool is the pool with one new entry, for which it had room. -/
def GainsEntry (texts : List String) (pool grown : ConstantPool) : Prop :=
  ∃ constant, pool.NewEntry texts constant ∧ pool.size < maxSlots ∧ grown = pool.append constant

/-- The later pool is the pool with some new entries, each of them new when it was appended. -/
def Gains (texts : List String) : ConstantPool → ConstantPool → Prop :=
  Relation.ReflTransGen (GainsEntry texts)

/-! ### What a pool keeps when it gains entries -/

/-- A pool gains nothing to become itself. -/
theorem Gains.refl (texts : List String) (pool : ConstantPool) : pool.Gains texts pool :=
  Relation.ReflTransGen.refl

/-- What is gained in two steps is gained. -/
theorem Gains.trans (h₁ : pool.Gains texts middle) (h₂ : middle.Gains texts grown) :
    pool.Gains texts grown :=
  Relation.ReflTransGen.trans h₁ h₂

/-- More texts may be admitted than were gained. -/
theorem Gains.mono {more : List String} (h : pool.Gains texts grown) (hsub : texts ⊆ more) :
    pool.Gains more grown := by
  refine Relation.ReflTransGen.mono ?_ _ _ h
  rintro _ _ ⟨constant, hnew, hroom, rfl⟩
  exact ⟨constant, hnew.imp fun text hmem _ => hsub hmem, hroom, rfl⟩

/-- A pool that gains entries grows. -/
theorem Gains.growsTo (h : pool.Gains texts grown) : pool.GrowsTo texts grown := by
  induction h with
  | refl => exact .refl texts pool
  | tail _ hstep ih =>
    obtain ⟨constant, hnew, -, rfl⟩ := hstep
    refine ih.trans (growsTo_append ?_)
    rintro text rfl
    cases hnew with
    | utf8 hmem => exact hmem

/-- What is gained fits into the pool. -/
theorem Gains.size_le (h : pool.Gains texts grown) (hsize : pool.size ≤ maxSlots) :
    grown.size ≤ maxSlots := by
  induction h with
  | refl => exact hsize
  | tail _ hstep _ =>
    obtain ⟨constant, hnew, hroom, rfl⟩ := hstep
    rw [size_append, hnew.width]
    exact hroom

/-- A new entry is not wide and does not follow a wide one. -/
theorem Gains.laidOut (h : pool.Gains texts grown) (hlaid : LaidOut false pool.slots.toList) :
    LaidOut false grown.slots.toList := by
  induction h with
  | refl => exact hlaid
  | tail _ hstep ih =>
    obtain ⟨constant, hnew, -, rfl⟩ := hstep
    rw [toList_append, laidOut_append ih, laidOut_slots]
    exact hnew.isUnusable

/-- A text that the pool holds already is not appended again. -/
theorem Gains.of_mem {more : List String} (h : pool.Gains texts grown)
    (htexts : ∀ text ∈ texts, .utf8 text ∈ pool.slots.toList ∨ text ∈ more) :
    pool.Gains more grown := by
  induction h with
  | refl => exact .refl more pool
  | tail hfirst hstep ih =>
    obtain ⟨constant, hnew, hroom, rfl⟩ := hstep
    refine ih.trans (.single ⟨constant, hnew.imp fun text hmem hfresh => ?_, hroom, rfl⟩)
    -- the pool at the start is the front of every later one, so its texts are still there
    obtain ⟨added, hslots, -⟩ := Gains.growsTo hfirst
    refine (htexts text hmem).resolve_left fun hheld => hfresh ?_
    rw [hslots]
    exact List.mem_append_left added hheld

/-- So a text that the pool holds is in no list of appended texts. -/
theorem Gains.exists_growsTo (h : pool.Gains texts grown) {text : String}
    (hheld : .utf8 text ∈ pool.slots.toList) : ∃ more, text ∉ more ∧ pool.GrowsTo more grown := by
  refine ⟨texts.filter (· ≠ text), by simp, (h.of_mem fun other hmem => ?_).growsTo⟩
  by_cases heq : other = text
  · exact .inl (heq ▸ hheld)
  · exact .inr (List.mem_filter.2 ⟨hmem, decide_eq_true heq⟩)

/-! ### Interning -/

/-- A pool never shrinks. -/
theorem GrowsTo.size_le (h : pool.GrowsTo texts grown) : pool.size ≤ grown.size := by
  obtain ⟨added, hslots, -⟩ := h
  have hlength := congrArg List.length hslots
  rw [List.length_append, Array.length_toList, Array.length_toList] at hlength
  rw [size, size, hlength]
  exact Nat.le_add_right _ _

/-- An entry that was pushed is gained if it is new. That it was pushed means that there was
room, and so the pool at the start was no larger than a pool may be. -/
private theorem Gains.push (h : pool.Gains texts middle)
    (hpush : ConstantPool.push constant middle = .ok index grown)
    (hnew : pool.size ≤ maxSlots → middle.NewEntry texts constant) : pool.Gains texts grown := by
  obtain ⟨hfits, -, rfl⟩ := push_eq_ok_iff.1 hpush
  have hwidth := constant.width_pos
  have hsize := h.growsTo.size_le
  exact h.trans (.single ⟨constant, hnew (by omega), by omega, rfl⟩)

/-- A text that is not found is nowhere in the pool. -/
theorem not_mem_of_findUtf8?_eq_none {text : String} (h : pool.findUtf8? text = none) :
    .utf8 text ∉ pool.slots.toList := by
  rw [findUtf8?, find?, Option.map_eq_none_iff, Array.findIdx?_eq_none_iff] at h
  intro hmem
  exact absurd (h _ (Array.mem_toList_iff.1 hmem)) (by simp)

/-- Interning a text gains that text at most. -/
theorem internUtf8_gains {text : String} (htext : text ∈ texts)
    (hrun : internUtf8 text pool = .ok index grown) : pool.Gains texts grown := by
  rcases internWith_eq_ok hrun with ⟨-, rfl⟩ | ⟨hfound, constant, middle, hbuild, hpush⟩
  · exact .refl texts _
  · obtain ⟨rfl, rfl⟩ := pure_run_eq_ok_iff.1 hbuild
    exact (Gains.refl texts _).push hpush fun _ =>
      .utf8 htext (not_mem_of_findUtf8?_eq_none hfound)

/-- Interning a class gains its name and an entry that refers to it, at most. -/
theorem internClass_gains {name : String} (hname : name ∈ texts)
    (hrun : internClass name pool = .ok index grown) : pool.Gains texts grown := by
  rcases internWith_eq_ok hrun with ⟨-, rfl⟩ | ⟨-, constant, middle, hbuild, hpush⟩
  · exact .refl texts _
  · obtain ⟨nameIndex, _, hintern, hpure⟩ := bind_run_eq_ok_iff.1 hbuild
    obtain ⟨rfl, rfl⟩ := pure_run_eq_ok_iff.1 hpure
    exact (internUtf8_gains hname hintern).push hpush fun hsize =>
      .classRef (internUtf8_spec hsize hname hintern).resolved

/-- Interning a string gains its text and an entry that refers to it, at most. -/
theorem internString_gains {text : String} (htext : text ∈ texts)
    (hrun : internString text pool = .ok index grown) : pool.Gains texts grown := by
  rcases internWith_eq_ok hrun with ⟨-, rfl⟩ | ⟨-, constant, middle, hbuild, hpush⟩
  · exact .refl texts _
  · obtain ⟨textIndex, _, hintern, hpure⟩ := bind_run_eq_ok_iff.1 hbuild
    obtain ⟨rfl, rfl⟩ := pure_run_eq_ok_iff.1 hpure
    exact (internUtf8_gains htext hintern).push hpush fun hsize =>
      .string (internUtf8_spec hsize htext hintern).resolved

/-- Interning a pair gains its two texts and an entry that refers to them, at most. -/
theorem internNameAndType_gains {name descriptor : String} (hname : name ∈ texts)
    (hdescriptor : descriptor ∈ texts)
    (hrun : internNameAndType name descriptor pool = .ok index grown) :
    pool.Gains texts grown := by
  rcases internWith_eq_ok hrun with ⟨-, rfl⟩ | ⟨-, constant, middle, hbuild, hpush⟩
  · exact .refl texts _
  · obtain ⟨nameIndex, _, hintern₁, hbuild⟩ := bind_run_eq_ok_iff.1 hbuild
    obtain ⟨descriptorIndex, _, hintern₂, hpure⟩ := bind_run_eq_ok_iff.1 hbuild
    obtain ⟨rfl, rfl⟩ := pure_run_eq_ok_iff.1 hpure
    have hgains₁ := internUtf8_gains hname hintern₁
    have hgains₂ := internUtf8_gains hdescriptor hintern₂
    refine (hgains₁.trans hgains₂).push hpush fun hsize => ?_
    have hinterned₁ := internUtf8_spec hsize hname hintern₁
    have hinterned₂ := internUtf8_spec hinterned₁.size_le hdescriptor hintern₂
    exact .nameAndType (hinterned₂.grows.utf8 hinterned₁.resolved) hinterned₂.resolved

/-- Interning a method gains what its class and its pair gain, and an entry that refers to both. -/
theorem internMethodRef_gains {owner name descriptor : String} (howner : owner ∈ texts)
    (hname : name ∈ texts) (hdescriptor : descriptor ∈ texts)
    (hrun : internMethodRef owner name descriptor pool = .ok index grown) :
    pool.Gains texts grown := by
  rcases internWith_eq_ok hrun with ⟨-, rfl⟩ | ⟨-, constant, middle, hbuild, hpush⟩
  · exact .refl texts _
  · obtain ⟨ownerIndex, _, hintern₁, hbuild⟩ := bind_run_eq_ok_iff.1 hbuild
    obtain ⟨signature, _, hintern₂, hpure⟩ := bind_run_eq_ok_iff.1 hbuild
    obtain ⟨rfl, rfl⟩ := pure_run_eq_ok_iff.1 hpure
    have hgains₁ := internClass_gains howner hintern₁
    have hgains₂ := internNameAndType_gains hname hdescriptor hintern₂
    refine (hgains₁.trans hgains₂).push hpush fun hsize => ?_
    have hinterned₁ := internClass_spec hsize howner hintern₁
    have hinterned₂ := internNameAndType_spec hinterned₁.size_le hname hdescriptor hintern₂
    exact .methodRef (hinterned₂.grows.className hinterned₁.resolved) hinterned₂.resolved

end ConstantPool

/-- The references of raising code gain entries for the texts that the code needs. -/
theorem RaiseRefs.intern_gains {refs : RaiseRefs} {pool grown : ConstantPool}
    (hrun : RaiseRefs.intern pool = .ok refs grown) : pool.Gains RaiseRefs.texts grown := by
  obtain ⟨exceptionClass, _, hintern₁, hrun⟩ := bind_run_eq_ok_iff.1 hrun
  obtain ⟨message, _, hintern₂, hrun⟩ := bind_run_eq_ok_iff.1 hrun
  obtain ⟨constructor, _, hintern₃, hpure⟩ := bind_run_eq_ok_iff.1 hrun
  obtain ⟨rfl, rfl⟩ := pure_run_eq_ok_iff.1 hpure
  have h₁ : pool.Gains RaiseRefs.texts _ :=
    ConstantPool.internClass_gains (by simp [texts]) hintern₁
  have h₂ : ConstantPool.Gains RaiseRefs.texts _ _ :=
    ConstantPool.internString_gains (by simp [texts]) hintern₂
  have h₃ : ConstantPool.Gains RaiseRefs.texts _ _ :=
    ConstantPool.internMethodRef_gains (by simp [texts]) (by simp [texts]) (by simp [texts])
      hintern₃
  exact (h₁.trans h₂).trans h₃

end ClassStub
