import ClassStub.Stub.Raise
import ClassStub.Proofs.PoolFormat
import ClassStub.Proofs.Steps

/-!
# Interning in a growing pool

Interning appends to a pool and never changes what is there. `ConstantPool.GrowsTo` is this
relation between a pool and a later one. It also keeps account of the texts that were appended:
what resolves in the pool resolves to the same in the later pool (`GrowsTo.utf8` and the like),
and a text that was not among the appended ones is found in the later pool only where the pool
had it (`GrowsTo.utf8_of_not_mem`).

The pool that an interning action starts from may hold anything, duplicates and references to
nothing included. All that is asked for is that it is no larger than a pool may be, for then
every position has an index of its own. An action that succeeds gives an index which its
resolver takes back to the interned texts (`internUtf8_spec` and the like).
-/

namespace ClassStub

namespace ConstantPool

variable {pool grown final : ConstantPool} {index : UInt16} {texts : List String}

/-! ### Resolvers as look-ups -/

/-- A text is read from a text entry. -/
theorem utf8_eq_ok_iff {text : String} :
    pool.utf8 index = .ok text ↔ pool.get? index = some (.utf8 text) := by
  rw [utf8]
  split <;> simp_all

/-- The name of a class is the text that its entry refers to. -/
theorem className_eq_ok_iff {name : String} :
    pool.className index = .ok name ↔
      ∃ nameIndex, pool.get? index = some (.classRef nameIndex) ∧
        pool.utf8 nameIndex = .ok name := by
  rw [className]
  split <;> simp_all

/-- A string is the text that its entry refers to. -/
theorem string_eq_ok_iff {text : String} :
    pool.string index = .ok text ↔
      ∃ textIndex, pool.get? index = some (.string textIndex) ∧
        pool.utf8 textIndex = .ok text := by
  rw [string]
  split <;> simp_all

/-- A name and a descriptor are the two texts that their entry refers to. -/
theorem nameAndType_eq_ok_iff {name descriptor : String} :
    pool.nameAndType index = .ok (name, descriptor) ↔
      ∃ nameIndex descriptorIndex,
        pool.get? index = some (.nameAndType nameIndex descriptorIndex) ∧
        pool.utf8 nameIndex = .ok name ∧ pool.utf8 descriptorIndex = .ok descriptor := by
  rw [nameAndType]
  split
  case h_1 nameIndex descriptorIndex hget =>
    simp only [bind_eq_ok_iff, pure_eq_ok_iff, hget, Prod.mk.injEq]
    constructor
    · rintro ⟨_, hname, _, hdescriptor, rfl, rfl⟩
      exact ⟨nameIndex, descriptorIndex, rfl, hname, hdescriptor⟩
    · rintro ⟨_, _, ⟨⟩, hname, hdescriptor⟩
      exact ⟨name, hname, descriptor, hdescriptor, rfl, rfl⟩
  all_goals simp_all

/-- The names of a method are those of the two entries that its own refers to. -/
theorem methodRef_eq_ok_iff {owner name descriptor : String} :
    pool.methodRef index = .ok (owner, name, descriptor) ↔
      ∃ ownerIndex signature, pool.get? index = some (.methodRef ownerIndex signature) ∧
        pool.className ownerIndex = .ok owner ∧
        pool.nameAndType signature = .ok (name, descriptor) := by
  rw [methodRef]
  split
  case h_1 ownerIndex signature hget =>
    simp only [bind_eq_ok_iff, pure_eq_ok_iff, hget, Prod.mk.injEq]
    constructor
    · rintro ⟨_, howner, _, hsignature, rfl, rfl⟩
      exact ⟨ownerIndex, signature, rfl, howner, hsignature⟩
    · rintro ⟨_, _, ⟨⟩, howner, hsignature⟩
      exact ⟨owner, howner, _, hsignature, rfl, rfl⟩
  all_goals simp_all

/-- A look-up does not need room. -/
theorem utf8_ne_outOfSpace (pool : ConstantPool) (index : UInt16) :
    pool.utf8 index ≠ .error .outOfSpace := by
  rw [utf8]
  split <;> simp

theorem className_ne_outOfSpace (pool : ConstantPool) (index : UInt16) :
    pool.className index ≠ .error .outOfSpace := by
  rw [className]
  split
  · exact pool.utf8_ne_outOfSpace _
  · simp
  · simp

/-! ### Growth -/

/-- The later pool is the pool with slots behind it, of which each text is among `texts`. -/
def GrowsTo (texts : List String) (pool grown : ConstantPool) : Prop :=
  ∃ added, grown.slots.toList = pool.slots.toList ++ added ∧
    ∀ text, .utf8 text ∈ added → text ∈ texts

/-- A pool grows into itself. -/
theorem GrowsTo.refl (texts : List String) (pool : ConstantPool) : GrowsTo texts pool pool :=
  ⟨[], by simp, by simp⟩

/-- Growing twice is growing. -/
theorem GrowsTo.trans (h₁ : GrowsTo texts pool grown) (h₂ : GrowsTo texts grown final) :
    GrowsTo texts pool final := by
  obtain ⟨added₁, hslots₁, htexts₁⟩ := h₁
  obtain ⟨added₂, hslots₂, htexts₂⟩ := h₂
  refine ⟨added₁ ++ added₂, by rw [hslots₂, hslots₁, List.append_assoc], fun text hmem => ?_⟩
  rcases List.mem_append.1 hmem with hmem | hmem
  · exact htexts₁ text hmem
  · exact htexts₂ text hmem

/-- More texts may be admitted than were appended. -/
theorem GrowsTo.mono {more : List String} (h : GrowsTo texts pool grown) (hsub : texts ⊆ more) :
    GrowsTo more pool grown := by
  obtain ⟨added, hslots, htexts⟩ := h
  exact ⟨added, hslots, fun text hmem => hsub (htexts text hmem)⟩

/-- Indices start at one, positions of slots at zero. -/
theorem get?_eq_some_iff {constant : Constant} :
    pool.get? index = some constant ↔
      index ≠ 0 ∧ pool.slots.toList[index.toNat - 1]? = some constant := by
  rw [get?]
  split <;> simp_all

theorem mem_slots_of_get? {constant : Constant} (h : pool.get? index = some constant) :
    constant ∈ pool.slots.toList :=
  List.mem_of_getElem? (get?_eq_some_iff.1 h).2

/-- An index of some entry lies within the pool. -/
theorem toNat_le_of_get? {constant : Constant} (h : pool.get? index = some constant) :
    index.toNat ≤ pool.size := by
  obtain ⟨-, hget⟩ := get?_eq_some_iff.1 h
  obtain ⟨hlt, -⟩ := List.getElem?_eq_some_iff.1 hget
  rw [Array.length_toList] at hlt
  rw [size]
  omega

/-- What stands in the pool still stands there. -/
theorem GrowsTo.get? (h : GrowsTo texts pool grown) {constant : Constant}
    (hget : pool.get? index = some constant) : grown.get? index = some constant := by
  obtain ⟨added, hslots, -⟩ := h
  rw [get?_eq_some_iff] at hget ⊢
  obtain ⟨hlt, -⟩ := List.getElem?_eq_some_iff.1 hget.2
  rw [hslots, List.getElem?_append_left hlt]
  exact hget

/-- Within the pool nothing has changed. -/
theorem GrowsTo.get?_of_le (h : GrowsTo texts pool grown) (hle : index.toNat ≤ pool.size) :
    grown.get? index = pool.get? index := by
  obtain ⟨added, hslots, -⟩ := h
  rw [ConstantPool.get?, ConstantPool.get?]
  split
  case isTrue => rfl
  case isFalse hzero =>
    have hpos : index.toNat ≠ 0 := fun h => hzero (UInt16.toNat_inj.1 h)
    have hlt : index.toNat - 1 < pool.slots.toList.length := by
      rw [Array.length_toList]
      exact Nat.lt_of_lt_of_le (Nat.sub_one_lt hpos) hle
    rw [← Array.getElem?_toList, ← Array.getElem?_toList, hslots,
      List.getElem?_append_left hlt]

/-- A text that resolves resolves to the same later. -/
theorem GrowsTo.utf8 (h : GrowsTo texts pool grown) {text : String}
    (htext : pool.utf8 index = .ok text) : grown.utf8 index = .ok text := by
  rw [utf8_eq_ok_iff] at htext ⊢
  exact h.get? htext

/-- The name of a class is the same later. -/
theorem GrowsTo.className (h : GrowsTo texts pool grown) {name : String}
    (hname : pool.className index = .ok name) : grown.className index = .ok name := by
  obtain ⟨nameIndex, hget, hutf8⟩ := className_eq_ok_iff.1 hname
  exact className_eq_ok_iff.2 ⟨nameIndex, h.get? hget, h.utf8 hutf8⟩

/-- A string is the same later. -/
theorem GrowsTo.string (h : GrowsTo texts pool grown) {text : String}
    (htext : pool.string index = .ok text) : grown.string index = .ok text := by
  obtain ⟨textIndex, hget, hutf8⟩ := string_eq_ok_iff.1 htext
  exact string_eq_ok_iff.2 ⟨textIndex, h.get? hget, h.utf8 hutf8⟩

/-- A name and a descriptor are the same later. -/
theorem GrowsTo.nameAndType (h : GrowsTo texts pool grown) {name descriptor : String}
    (hsignature : pool.nameAndType index = .ok (name, descriptor)) :
    grown.nameAndType index = .ok (name, descriptor) := by
  obtain ⟨nameIndex, descriptorIndex, hget, hname, hdescriptor⟩ :=
    nameAndType_eq_ok_iff.1 hsignature
  exact nameAndType_eq_ok_iff.2
    ⟨nameIndex, descriptorIndex, h.get? hget, h.utf8 hname, h.utf8 hdescriptor⟩

/-- The names of a method are the same later. -/
theorem GrowsTo.methodRef (h : GrowsTo texts pool grown) {owner name descriptor : String}
    (hmethod : pool.methodRef index = .ok (owner, name, descriptor)) :
    grown.methodRef index = .ok (owner, name, descriptor) := by
  obtain ⟨ownerIndex, signature, hget, howner, hsignature⟩ := methodRef_eq_ok_iff.1 hmethod
  exact methodRef_eq_ok_iff.2
    ⟨ownerIndex, signature, h.get? hget, h.className howner, h.nameAndType hsignature⟩

/-- A text that was not appended is found only where the pool had it. -/
theorem GrowsTo.utf8_of_not_mem (h : GrowsTo texts pool grown) {text : String}
    (hnot : text ∉ texts) (htext : grown.utf8 index = .ok text) : pool.utf8 index = .ok text := by
  obtain ⟨added, hslots, htexts⟩ := h
  rw [utf8_eq_ok_iff, get?_eq_some_iff] at htext ⊢
  refine ⟨htext.1, ?_⟩
  rw [← htext.2, hslots]
  -- behind the slots of the pool stand only the appended ones, and none of them is the text
  by_cases hlt : index.toNat - 1 < pool.slots.toList.length
  · rw [List.getElem?_append_left hlt]
  · rw [hslots, List.getElem?_append_right (Nat.not_lt.1 hlt)] at htext
    exact absurd (htexts text (List.mem_of_getElem? htext.2)) hnot

/-! ### Finding and appending -/

/-- Positions in a pool of admissible size have indices of their own. -/
theorem get?_ofNat {position : Nat} (h : position < maxSlots) :
    pool.get? (UInt16.ofNat (position + 1)) = pool.slots[position]? := by
  have hposition : (UInt16.ofNat (position + 1)).toNat = position + 1 :=
    UInt16.toNat_ofNat_of_lt' (show _ < 65536 by rw [maxSlots] at h; omega)
  rw [ConstantPool.get?, if_neg, hposition, Nat.add_sub_cancel]
  intro hzero
  rw [hzero] at hposition
  exact absurd hposition (by simp)

/-- What was found stands at the index. -/
theorem get?_of_find? (hsize : pool.size ≤ maxSlots) {accept : Constant → Bool}
    (hfind : pool.find? accept = some index) :
    ∃ constant, pool.get? index = some constant ∧ accept constant = true := by
  rw [find?, Option.map_eq_some_iff] at hfind
  obtain ⟨position, hposition, rfl⟩ := hfind
  obtain ⟨hlt, haccept, -⟩ := Array.findIdx?_eq_some_iff_getElem.1 hposition
  refine ⟨pool.slots[position], ?_, haccept⟩
  rw [get?_ofNat (Nat.lt_of_lt_of_le hlt hsize), Array.getElem?_eq_getElem hlt]

theorem get?_of_find?_eq (hsize : pool.size ≤ maxSlots) {constant : Constant}
    (hfind : pool.find? (· == constant) = some index) : pool.get? index = some constant := by
  obtain ⟨found, hget, hfound⟩ := get?_of_find? hsize hfind
  rwa [beq_iff_eq.1 hfound] at hget

/-- An entry is appended if there is room for it, and its index is that of the next slot. -/
theorem push_eq_ok_iff {constant : Constant} :
    push constant pool = .ok index grown ↔
      pool.size + constant.width ≤ maxSlots ∧ index = UInt16.ofNat (pool.size + 1) ∧
        grown = pool.append constant := by
  rw [push]
  split
  case isTrue hfull => simp [Nat.not_le.2 hfull]
  case isFalse hfits => simp [Nat.not_lt.1 hfits, eq_comm]

/-- Appending a constant makes the pool grow by its text if it is one. -/
theorem growsTo_append {constant : Constant}
    (htext : ∀ text, constant = .utf8 text → text ∈ texts) :
    GrowsTo texts pool (pool.append constant) := by
  refine ⟨constant.slots, toList_append pool constant, fun text hmem => ?_⟩
  rw [Constant.slots] at hmem
  split at hmem <;> simp at hmem <;> exact htext text hmem.symm

/-- The appended constant stands at the index that `push` returns. -/
theorem get?_append (hsize : pool.size + 1 ≤ maxSlots) (constant : Constant) :
    (pool.append constant).get? (UInt16.ofNat (pool.size + 1)) = some constant := by
  have hlength : pool.slots.toList.length = pool.size := Array.length_toList
  rw [get?_ofNat hsize, ← Array.getElem?_toList, toList_append, ← hlength,
    List.getElem?_append_right (Nat.le_refl _), Nat.sub_self, Constant.slots]
  split <;> rfl

/-! ### Interning -/

/-- A run of an interning action: the pool stays admissible and grows by some of the texts, and
what was asked for holds of the index in the pool that is left. -/
structure Interned (texts : List String) (pool grown : ConstantPool) (resolved : Prop) :
    Prop where
  grows : GrowsTo texts pool grown
  size_le : grown.size ≤ maxSlots
  resolved : resolved

/-- An entry that is built and appended resolves in the pool that is left, if it does so wherever
it stands in a pool grown from the one that its parts were interned in. -/
private theorem interned_push {middle : ConstantPool} {constant : Constant} {resolved : Prop}
    (hgrows : GrowsTo texts pool middle) (hpush : push constant middle = .ok index grown)
    (htext : ∀ text, constant = .utf8 text → text ∈ texts)
    (hresolved : GrowsTo texts middle grown → grown.get? index = some constant → resolved) :
    Interned texts pool grown resolved := by
  obtain ⟨hfits, rfl, rfl⟩ := push_eq_ok_iff.1 hpush
  have hwidth := constant.width_pos
  have hlast : GrowsTo texts middle (middle.append constant) := growsTo_append htext
  have hsize : (middle.append constant).size ≤ maxSlots := by
    rw [size_append]
    exact hfits
  have hget := get?_append (show middle.size + 1 ≤ maxSlots by omega) constant
  exact ⟨hgrows.trans hlast, hsize, hresolved hlast hget⟩

/-- An entry that interning returns was found, or it was built and appended. -/
theorem internWith_eq_ok {found : ConstantPool → Option UInt16}
    {build : PoolAction Constant} (hrun : internWith found build pool = .ok index grown) :
    (found pool = some index ∧ grown = pool) ∨
      (found pool = none ∧ ∃ constant middle, build pool = .ok constant middle ∧
        push constant middle = .ok index grown) := by
  rw [internWith, bind_run_eq_ok_iff] at hrun
  obtain ⟨_, _, ⟨⟩, hrun⟩ := hrun
  cases hfound : found pool with
  | some present =>
    rw [hfound] at hrun
    obtain ⟨rfl, rfl⟩ := pure_run_eq_ok_iff.1 hrun
    exact .inl ⟨rfl, rfl⟩
  | none =>
    rw [hfound] at hrun
    exact .inr ⟨rfl, bind_run_eq_ok_iff.1 hrun⟩

/-- What a search for a text finds is that text. -/
theorem utf8_of_findUtf8? (hsize : pool.size ≤ maxSlots) {text : String}
    (hfind : pool.findUtf8? text = some index) : pool.utf8 index = .ok text := by
  obtain ⟨constant, hget, haccept⟩ := get?_of_find? hsize hfind
  cases constant with
  | utf8 other => rw [utf8_eq_ok_iff, hget, beq_iff_eq.1 haccept]
  | _ => exact absurd haccept (by simp)

/-- Interning a text gives an index of it, and appends nothing but it. -/
theorem internUtf8_spec (hsize : pool.size ≤ maxSlots) {text : String} (htext : text ∈ texts)
    (hrun : internUtf8 text pool = .ok index grown) :
    Interned texts pool grown (grown.utf8 index = .ok text) := by
  rcases internWith_eq_ok hrun with ⟨hfound, rfl⟩ | ⟨-, constant, middle, hbuild, hpush⟩
  · exact ⟨.refl texts _, hsize, utf8_of_findUtf8? hsize hfound⟩
  · obtain ⟨rfl, rfl⟩ := pure_run_eq_ok_iff.1 hbuild
    refine interned_push (.refl texts _) hpush ?_ ?_
    · rintro _ ⟨⟩
      exact htext
    · intro _ hget
      exact utf8_eq_ok_iff.2 hget

/-- What a search for a class finds has its name. -/
theorem className_of_findClass? (hsize : pool.size ≤ maxSlots) {name : String}
    (hfind : pool.findClass? name = some index) : pool.className index = .ok name := by
  rw [findClass?, Option.bind_eq_bind, Option.bind_eq_some_iff] at hfind
  obtain ⟨nameIndex, hname, hfind⟩ := hfind
  exact className_eq_ok_iff.2
    ⟨nameIndex, get?_of_find?_eq hsize hfind, utf8_of_findUtf8? hsize hname⟩

/-- Interning a class gives an index of it, and appends no text but its name. -/
theorem internClass_spec (hsize : pool.size ≤ maxSlots) {name : String} (hname : name ∈ texts)
    (hrun : internClass name pool = .ok index grown) :
    Interned texts pool grown (grown.className index = .ok name) := by
  rcases internWith_eq_ok hrun with ⟨hfound, rfl⟩ | ⟨-, constant, middle, hbuild, hpush⟩
  · exact ⟨.refl texts _, hsize, className_of_findClass? hsize hfound⟩
  · obtain ⟨nameIndex, _, hintern, hpure⟩ := bind_run_eq_ok_iff.1 hbuild
    obtain ⟨rfl, rfl⟩ := pure_run_eq_ok_iff.1 hpure
    have hinterned := internUtf8_spec hsize hname hintern
    refine interned_push hinterned.grows hpush (fun _ h => nomatch h) ?_
    intro hlast hget
    exact className_eq_ok_iff.2 ⟨nameIndex, hget, hlast.utf8 hinterned.resolved⟩

/-- What a search for a string finds has its text. -/
theorem string_of_findString? (hsize : pool.size ≤ maxSlots) {text : String}
    (hfind : pool.findString? text = some index) : pool.string index = .ok text := by
  rw [findString?, Option.bind_eq_bind, Option.bind_eq_some_iff] at hfind
  obtain ⟨textIndex, htext, hfind⟩ := hfind
  exact string_eq_ok_iff.2
    ⟨textIndex, get?_of_find?_eq hsize hfind, utf8_of_findUtf8? hsize htext⟩

/-- Interning a string gives an index of it, and appends no text but its own. -/
theorem internString_spec (hsize : pool.size ≤ maxSlots) {text : String} (htext : text ∈ texts)
    (hrun : internString text pool = .ok index grown) :
    Interned texts pool grown (grown.string index = .ok text) := by
  rcases internWith_eq_ok hrun with ⟨hfound, rfl⟩ | ⟨-, constant, middle, hbuild, hpush⟩
  · exact ⟨.refl texts _, hsize, string_of_findString? hsize hfound⟩
  · obtain ⟨textIndex, _, hintern, hpure⟩ := bind_run_eq_ok_iff.1 hbuild
    obtain ⟨rfl, rfl⟩ := pure_run_eq_ok_iff.1 hpure
    have hinterned := internUtf8_spec hsize htext hintern
    refine interned_push hinterned.grows hpush (fun _ h => nomatch h) ?_
    intro hlast hget
    exact string_eq_ok_iff.2 ⟨textIndex, hget, hlast.utf8 hinterned.resolved⟩

/-- What a search for a pair finds has its texts. -/
theorem nameAndType_of_findNameAndType? (hsize : pool.size ≤ maxSlots) {name descriptor : String}
    (hfind : pool.findNameAndType? name descriptor = some index) :
    pool.nameAndType index = .ok (name, descriptor) := by
  simp only [findNameAndType?, Option.bind_eq_bind, Option.bind_eq_some_iff] at hfind
  obtain ⟨nameIndex, hname, descriptorIndex, hdescriptor, hfind⟩ := hfind
  exact nameAndType_eq_ok_iff.2 ⟨nameIndex, descriptorIndex, get?_of_find?_eq hsize hfind,
    utf8_of_findUtf8? hsize hname, utf8_of_findUtf8? hsize hdescriptor⟩

/-- Interning a pair gives an index of it, and appends no texts but its own. -/
theorem internNameAndType_spec (hsize : pool.size ≤ maxSlots) {name descriptor : String}
    (hname : name ∈ texts) (hdescriptor : descriptor ∈ texts)
    (hrun : internNameAndType name descriptor pool = .ok index grown) :
    Interned texts pool grown (grown.nameAndType index = .ok (name, descriptor)) := by
  rcases internWith_eq_ok hrun with ⟨hfound, rfl⟩ | ⟨-, constant, middle, hbuild, hpush⟩
  · exact ⟨.refl texts _, hsize, nameAndType_of_findNameAndType? hsize hfound⟩
  · obtain ⟨nameIndex, _, hintern₁, hbuild⟩ := bind_run_eq_ok_iff.1 hbuild
    obtain ⟨descriptorIndex, _, hintern₂, hpure⟩ := bind_run_eq_ok_iff.1 hbuild
    obtain ⟨rfl, rfl⟩ := pure_run_eq_ok_iff.1 hpure
    have hinterned₁ := internUtf8_spec hsize hname hintern₁
    have hinterned₂ := internUtf8_spec hinterned₁.size_le hdescriptor hintern₂
    refine interned_push (hinterned₁.grows.trans hinterned₂.grows) hpush
      (fun _ h => nomatch h) ?_
    intro hlast hget
    -- the name was interned before the descriptor, so it is carried over two growths
    have hname' := hlast.utf8 (hinterned₂.grows.utf8 hinterned₁.resolved)
    have hdescriptor' := hlast.utf8 hinterned₂.resolved
    exact nameAndType_eq_ok_iff.2 ⟨nameIndex, descriptorIndex, hget, hname', hdescriptor'⟩

/-- What a search for a method finds has its names. -/
theorem methodRef_of_findMethodRef? (hsize : pool.size ≤ maxSlots)
    {owner name descriptor : String}
    (hfind : pool.findMethodRef? owner name descriptor = some index) :
    pool.methodRef index = .ok (owner, name, descriptor) := by
  simp only [findMethodRef?, Option.bind_eq_bind, Option.bind_eq_some_iff] at hfind
  obtain ⟨ownerIndex, howner, signature, hsignature, hfind⟩ := hfind
  exact methodRef_eq_ok_iff.2 ⟨ownerIndex, signature, get?_of_find?_eq hsize hfind,
    className_of_findClass? hsize howner, nameAndType_of_findNameAndType? hsize hsignature⟩

/-- Interning a method gives an index of it, and appends no texts but its names. -/
theorem internMethodRef_spec (hsize : pool.size ≤ maxSlots) {owner name descriptor : String}
    (howner : owner ∈ texts) (hname : name ∈ texts) (hdescriptor : descriptor ∈ texts)
    (hrun : internMethodRef owner name descriptor pool = .ok index grown) :
    Interned texts pool grown (grown.methodRef index = .ok (owner, name, descriptor)) := by
  rcases internWith_eq_ok hrun with ⟨hfound, rfl⟩ | ⟨-, constant, middle, hbuild, hpush⟩
  · exact ⟨.refl texts _, hsize, methodRef_of_findMethodRef? hsize hfound⟩
  · obtain ⟨ownerIndex, _, hintern₁, hbuild⟩ := bind_run_eq_ok_iff.1 hbuild
    obtain ⟨signature, _, hintern₂, hpure⟩ := bind_run_eq_ok_iff.1 hbuild
    obtain ⟨rfl, rfl⟩ := pure_run_eq_ok_iff.1 hpure
    have hinterned₁ := internClass_spec hsize howner hintern₁
    have hinterned₂ := internNameAndType_spec hinterned₁.size_le hname hdescriptor hintern₂
    refine interned_push (hinterned₁.grows.trans hinterned₂.grows) hpush
      (fun _ h => nomatch h) ?_
    intro hlast hget
    have howner' := hlast.className (hinterned₂.grows.className hinterned₁.resolved)
    have hsignature' := hlast.nameAndType hinterned₂.resolved
    exact methodRef_eq_ok_iff.2 ⟨ownerIndex, signature, hget, howner', hsignature'⟩

end ConstantPool

/-! ### The entries of the exception -/

/-- The entries are those that the diagnostic exception is made from. -/
structure RaiseRefs.ResolveIn (refs : RaiseRefs) (pool : ConstantPool) : Prop where
  exceptionClass : pool.className refs.exceptionClass = .ok Diagnostic.exceptionClass
  message : pool.string refs.message = .ok Diagnostic.message
  constructor : pool.methodRef refs.constructor =
    .ok (Diagnostic.exceptionClass, constructorName, Diagnostic.constructorDescriptor)

/-- The references of raising code stay right in a later pool. -/
theorem RaiseRefs.ResolveIn.grow {refs : RaiseRefs} {pool grown : ConstantPool}
    {texts : List String} (h : refs.ResolveIn pool) (hgrows : pool.GrowsTo texts grown) :
    refs.ResolveIn grown :=
  ⟨hgrows.className h.exceptionClass, hgrows.string h.message, hgrows.methodRef h.constructor⟩

/-- The texts that the entries of the exception bring into a pool. -/
def RaiseRefs.texts : List String :=
  [Diagnostic.exceptionClass, Diagnostic.message, constructorName,
    Diagnostic.constructorDescriptor]

/-- Interning the references of raising code makes them right, and appends no texts but those that
the code needs. -/
theorem RaiseRefs.intern_spec {refs : RaiseRefs} {pool grown : ConstantPool}
    (hsize : pool.size ≤ ConstantPool.maxSlots) (hrun : RaiseRefs.intern pool = .ok refs grown) :
    ConstantPool.Interned RaiseRefs.texts pool grown (refs.ResolveIn grown) := by
  obtain ⟨exceptionClass, _, hintern₁, hrun⟩ := bind_run_eq_ok_iff.1 hrun
  obtain ⟨message, _, hintern₂, hrun⟩ := bind_run_eq_ok_iff.1 hrun
  obtain ⟨constructor, _, hintern₃, hpure⟩ := bind_run_eq_ok_iff.1 hrun
  obtain ⟨rfl, rfl⟩ := pure_run_eq_ok_iff.1 hpure
  have h₁ : ConstantPool.Interned RaiseRefs.texts pool _ _ :=
    ConstantPool.internClass_spec hsize (by simp [texts]) hintern₁
  have h₂ : ConstantPool.Interned RaiseRefs.texts _ _ _ :=
    ConstantPool.internString_spec h₁.size_le (by simp [texts]) hintern₂
  have h₃ : ConstantPool.Interned RaiseRefs.texts _ _ _ :=
    ConstantPool.internMethodRef_spec h₂.size_le (by simp [texts]) (by simp [texts])
      (by simp [texts]) hintern₃
  have hgrows := h₂.grows.trans h₃.grows
  exact ⟨h₁.grows.trans hgrows, h₃.size_le,
    ⟨hgrows.className h₁.resolved, h₃.grows.string h₂.resolved, h₃.resolved⟩⟩

end ClassStub
