import ClassStub.Proofs.PoolCheck

/-!
# Finding what was interned

An entry is found by texts at the lowest level and by indices above it: a class is found as the
first class entry on the index at which its name is found first. So whether an interned entry is
found again is not a matter of course. A pool may hold a reference to a slot that does not exist
yet; once the name of a class is appended to that very slot, the old reference is a class of this
name, and it is found in place of the new one.

A pool without such references is *closed* (`ConstantPool.IsClosed`). The entries that interning
appends are at most as high as the one that is asked for (`Constant.height`) and those of its own
height lie in the pool already. Hence in a closed pool every interned entry is found at the index
that was returned (`internUtf8_found` and the like), and since what is found stays found when the
pool grows (`GrowsTo.find?`), interning it again only returns this index
(`internWith_of_found`).
-/

namespace ClassStub

/-! ### Finding in a grown pool -/

namespace ConstantPool

variable {pool middle grown : ConstantPool} {index : UInt16} {texts : List String}
  {constant : Constant} {accept : Constant → Bool}

/-- A search finds the first position at which the condition holds, by its index. -/
theorem find?_eq_some_iff :
    pool.find? accept = some index ↔ ∃ position,
      pool.slots.toList.findIdx? accept = some position ∧
        UInt16.ofNat (position + 1) = index := by
  rw [find?, ← List.findIdx?_toArray, Array.toArray_toList, Option.map_eq_some_iff]

/-- The first slot of some kind is still the first one when others follow. -/
theorem GrowsTo.find? (h : pool.GrowsTo texts grown) (hfind : pool.find? accept = some index) :
    grown.find? accept = some index := by
  obtain ⟨added, hslots, -⟩ := h
  obtain ⟨position, hposition, rfl⟩ := find?_eq_some_iff.1 hfind
  refine find?_eq_some_iff.2 ⟨position, ?_, rfl⟩
  rw [hslots, List.findIdx?_append, hposition, Option.some_or]

/-- A text that was found is found at the same index in a later pool. -/
theorem GrowsTo.findUtf8? (h : pool.GrowsTo texts grown) {text : String}
    (hfind : pool.findUtf8? text = some index) : grown.findUtf8? text = some index :=
  h.find? hfind

/-- A class is looked for by the index of the first entry with its name. -/
theorem findClass?_eq_some_iff {name : String} :
    pool.findClass? name = some index ↔ ∃ nameIndex, pool.findUtf8? name = some nameIndex ∧
      pool.find? (· == .classRef nameIndex) = some index := by
  rw [findClass?, Option.bind_eq_bind, Option.bind_eq_some_iff]

/-- A string is looked for by the index of the first entry with its text. -/
theorem findString?_eq_some_iff {text : String} :
    pool.findString? text = some index ↔ ∃ textIndex, pool.findUtf8? text = some textIndex ∧
      pool.find? (· == .string textIndex) = some index := by
  rw [findString?, Option.bind_eq_bind, Option.bind_eq_some_iff]

/-- A pair is looked for by the indices of the first entries with its texts. -/
theorem findNameAndType?_eq_some_iff {name descriptor : String} :
    pool.findNameAndType? name descriptor = some index ↔ ∃ nameIndex descriptorIndex,
      pool.findUtf8? name = some nameIndex ∧ pool.findUtf8? descriptor = some descriptorIndex ∧
        pool.find? (· == .nameAndType nameIndex descriptorIndex) = some index := by
  simp only [findNameAndType?, Option.bind_eq_bind, Option.bind_eq_some_iff, exists_and_left]

/-- A method is looked for by the indices of its class and of its pair. -/
theorem findMethodRef?_eq_some_iff {owner name descriptor : String} :
    pool.findMethodRef? owner name descriptor = some index ↔ ∃ ownerIndex signature,
      pool.findClass? owner = some ownerIndex ∧
        pool.findNameAndType? name descriptor = some signature ∧
        pool.find? (· == .methodRef ownerIndex signature) = some index := by
  simp only [findMethodRef?, Option.bind_eq_bind, Option.bind_eq_some_iff, exists_and_left]

/-- What was found is also found later: both parts of the search are. -/
theorem GrowsTo.findClass? (h : pool.GrowsTo texts grown) {name : String}
    (hfind : pool.findClass? name = some index) : grown.findClass? name = some index := by
  obtain ⟨nameIndex, hname, hfind⟩ := findClass?_eq_some_iff.1 hfind
  exact findClass?_eq_some_iff.2 ⟨nameIndex, h.findUtf8? hname, h.find? hfind⟩

theorem GrowsTo.findString? (h : pool.GrowsTo texts grown) {text : String}
    (hfind : pool.findString? text = some index) : grown.findString? text = some index := by
  obtain ⟨textIndex, htext, hfind⟩ := findString?_eq_some_iff.1 hfind
  exact findString?_eq_some_iff.2 ⟨textIndex, h.findUtf8? htext, h.find? hfind⟩

theorem GrowsTo.findNameAndType? (h : pool.GrowsTo texts grown) {name descriptor : String}
    (hfind : pool.findNameAndType? name descriptor = some index) :
    grown.findNameAndType? name descriptor = some index := by
  obtain ⟨nameIndex, descriptorIndex, hname, hdescriptor, hfind⟩ :=
    findNameAndType?_eq_some_iff.1 hfind
  exact findNameAndType?_eq_some_iff.2
    ⟨nameIndex, descriptorIndex, h.findUtf8? hname, h.findUtf8? hdescriptor, h.find? hfind⟩

theorem GrowsTo.findMethodRef? (h : pool.GrowsTo texts grown) {owner name descriptor : String}
    (hfind : pool.findMethodRef? owner name descriptor = some index) :
    grown.findMethodRef? owner name descriptor = some index := by
  obtain ⟨ownerIndex, signature, howner, hsignature, hfind⟩ := findMethodRef?_eq_some_iff.1 hfind
  exact findMethodRef?_eq_some_iff.2
    ⟨ownerIndex, signature, h.findClass? howner, h.findNameAndType? hsignature, h.find? hfind⟩

/-- Interning what is found already only returns its index. -/
theorem internWith_of_found {found : ConstantPool → Option UInt16} {build : PoolAction Constant}
    (h : found pool = some index) : internWith found build pool = .ok index pool := by
  refine bind_run_eq_ok_iff.2 ⟨pool, pool, rfl, ?_⟩
  rw [h]
  rfl

/-! ### Closed pools -/

/-- No reference leads out of the pool. -/
def IsClosed (pool : ConstantPool) : Prop :=
  ∀ constant ∈ pool.slots.toList, ∀ reference ∈ constant.references,
    reference.2.toNat ≤ pool.size

/-- References that lead to entries of the right kind do not lead out of the pool. -/
private theorem toNat_le_of_isSoundIn {hasBootstrapMethods : Bool}
    (h : constant.IsSoundIn pool hasBootstrapMethods) :
    ∀ reference ∈ constant.references, reference.2.toNat ≤ pool.size := by
  intro reference hmem
  obtain ⟨target, hget, -⟩ := (Option.any_eq_true _ _).1 (h.references reference hmem)
  exact toNat_le_of_get? hget

/-- The parts of a new entry are in the pool, so the pool stays closed. -/
theorem Gains.isClosed (h : pool.Gains texts grown) (hclosed : pool.IsClosed) :
    grown.IsClosed := by
  induction h with
  | refl => exact hclosed
  | @tail middle _ _ hstep ih =>
    obtain ⟨added, hnew, -, rfl⟩ := hstep
    intro constant hmem reference hreference
    rw [size_append]
    rw [toList_append, hnew.slots, List.mem_append, List.mem_singleton] at hmem
    rcases hmem with hmem | rfl
    · exact Nat.le_add_right_of_le (ih constant hmem reference hreference)
    · have hsound : constant.IsSoundIn middle false := hnew.isSoundIn
      exact Nat.le_add_right_of_le (toNat_le_of_isSoundIn hsound reference hreference)

/-! ### Going back to the pool before -/

/-- The search for a constant fails only if no slot holds it. -/
theorem find?_beq_eq_none_iff :
    pool.find? (· == constant) = none ↔ constant ∉ pool.slots.toList := by
  rw [find?, Option.map_eq_none_iff, Array.findIdx?_eq_none_iff, Array.mem_toList_iff]
  constructor
  · intro h hmem
    exact absurd (h constant hmem) (by simp)
  · rintro hfresh other hmem
    refine beq_eq_false_iff_ne.2 ?_
    rintro rfl
    exact hfresh hmem

/-- What is found in the front of a pool is found there without the rest. -/
private theorem GrowsTo.find?_of_le (h : pool.GrowsTo texts grown) (hsize : grown.size ≤ maxSlots)
    (hfind : grown.find? accept = some index) (hle : index.toNat ≤ pool.size) :
    pool.find? accept = some index := by
  obtain ⟨added, hslots, -⟩ := h
  obtain ⟨position, hposition, rfl⟩ := find?_eq_some_iff.1 hfind
  have hlt := (List.findIdx?_eq_some_iff_findIdx_eq.1 hposition).1
  rw [Array.length_toList] at hlt
  -- the index is the position and one more, so the position is one in the front
  have hfits : position + 1 < UInt16.size := by
    have hslots := Nat.lt_of_lt_of_le hlt hsize
    rw [maxSlots] at hslots
    rw [UInt16.size]
    omega
  rw [UInt16.toNat_ofNat_of_lt' hfits, size, ← Array.length_toList] at hle
  refine find?_eq_some_iff.2 ⟨position, ?_, rfl⟩
  rw [hslots, List.findIdx?_append] at hposition
  cases hfront : pool.slots.toList.findIdx? accept with
  | some first =>
    rw [hfront, Option.some_or] at hposition
    exact hposition
  | none =>
    rw [hfront, Option.none_or, Option.map_eq_some_iff] at hposition
    obtain ⟨behind, -, rfl⟩ := hposition
    omega

private theorem GrowsTo.findClass?_of_le (h : pool.GrowsTo texts grown) (hclosed : pool.IsClosed)
    (hsize : grown.size ≤ maxSlots) {name : String} (hfind : grown.findClass? name = some index)
    (hle : index.toNat ≤ pool.size) : pool.findClass? name = some index := by
  obtain ⟨nameIndex, hname, hfind⟩ := findClass?_eq_some_iff.1 hfind
  replace hfind := h.find?_of_le hsize hfind hle
  have hget := get?_of_find?_eq (Nat.le_trans h.size_le hsize) hfind
  have hnameIndex := hclosed _ (mem_slots_of_get? hget) (.text, nameIndex)
    (by simp [Constant.references])
  exact findClass?_eq_some_iff.2 ⟨nameIndex, h.find?_of_le hsize hname hnameIndex, hfind⟩

private theorem GrowsTo.findNameAndType?_of_le (h : pool.GrowsTo texts grown)
    (hclosed : pool.IsClosed) (hsize : grown.size ≤ maxSlots) {name descriptor : String}
    (hfind : grown.findNameAndType? name descriptor = some index)
    (hle : index.toNat ≤ pool.size) : pool.findNameAndType? name descriptor = some index := by
  obtain ⟨nameIndex, descriptorIndex, hname, hdescriptor, hfind⟩ :=
    findNameAndType?_eq_some_iff.1 hfind
  replace hfind := h.find?_of_le hsize hfind hle
  have hget := get?_of_find?_eq (Nat.le_trans h.size_le hsize) hfind
  have hparts := hclosed _ (mem_slots_of_get? hget)
  simp only [Constant.references, List.forall_mem_cons] at hparts
  obtain ⟨hnameIndex, hdescriptorIndex, -⟩ := hparts
  exact findNameAndType?_eq_some_iff.2 ⟨nameIndex, descriptorIndex,
    h.find?_of_le hsize hname hnameIndex, h.find?_of_le hsize hdescriptor hdescriptorIndex, hfind⟩

end ConstantPool

/-- The pool of a class that passes the check of its pool is closed. -/
theorem ClassFile.isClosed_of_checkPool {c : ClassFile} (h : c.checkPool = .ok ()) :
    c.pool.IsClosed :=
  fun constant hmem =>
    ConstantPool.toNat_le_of_isSoundIn ((checkPool_eq_ok_iff.1 h).2 constant hmem)

/-! ### The height of an entry -/

/-- How many levels of references there are between an entry and the texts it is found by. -/
def Constant.height : Constant → Nat
  | methodRef _ _ => 2
  | classRef _ | string _ | nameAndType _ _ => 1
  | _ => 0

namespace ConstantPool

variable {pool middle parts grown : ConstantPool} {index : UInt16} {texts : List String}
  {constant : Constant} {limit : Nat}

/-- Each entry of the later pool is in the pool or is of at most the given height. -/
def AddsUpTo (limit : Nat) (pool grown : ConstantPool) : Prop :=
  ∀ constant ∈ grown.slots.toList, constant ∈ pool.slots.toList ∨ constant.height ≤ limit

/-- A pool adds nothing to itself. -/
theorem AddsUpTo.refl (limit : Nat) (pool : ConstantPool) : pool.AddsUpTo limit pool :=
  fun _ => .inl

/-- What two steps add is bounded if what each of them adds is. -/
theorem AddsUpTo.trans (h₁ : pool.AddsUpTo limit middle) (h₂ : middle.AddsUpTo limit grown) :
    pool.AddsUpTo limit grown :=
  fun constant hmem => (h₂ constant hmem).elim (h₁ constant) .inr

/-- A bound on what is added may be raised. -/
theorem AddsUpTo.mono {higher : Nat} (h : pool.AddsUpTo limit grown) (hle : limit ≤ higher) :
    pool.AddsUpTo higher grown :=
  fun constant hmem => (h constant hmem).imp id fun hheight => Nat.le_trans hheight hle

/-- An entry that is higher than what was added was there before. -/
private theorem AddsUpTo.mem (h : pool.AddsUpTo limit grown) (hmem : constant ∈ grown.slots.toList)
    (hheight : limit < constant.height) : constant ∈ pool.slots.toList :=
  (h constant hmem).resolve_right (Nat.not_le.2 hheight)

private theorem AddsUpTo.push (h : pool.AddsUpTo limit middle)
    (hpush : ConstantPool.push constant middle = .ok index grown)
    (hheight : constant.height ≤ limit) : pool.AddsUpTo limit grown := by
  obtain ⟨-, -, rfl⟩ := push_eq_ok_iff.1 hpush
  intro other hmem
  rw [toList_append, List.mem_append] at hmem
  refine hmem.elim (h other) fun hmem => .inr ?_
  rw [Constant.slots] at hmem
  split at hmem
  · rcases List.mem_pair.1 hmem with rfl | rfl
    · exact hheight
    · exact Nat.zero_le limit
  · rwa [List.mem_singleton.1 hmem]

private theorem internUtf8_addsUpTo {text : String}
    (hrun : internUtf8 text pool = .ok index grown) :
    pool.AddsUpTo 0 grown := by
  rcases internWith_eq_ok hrun with ⟨-, rfl⟩ | ⟨-, constant, middle, hbuild, hpush⟩
  · exact .refl 0 _
  · obtain ⟨rfl, rfl⟩ := pure_run_eq_ok_iff.1 hbuild
    exact (AddsUpTo.refl 0 _).push hpush (Nat.le_refl 0)

private theorem internClass_addsUpTo {name : String}
    (hrun : internClass name pool = .ok index grown) :
    pool.AddsUpTo 1 grown := by
  rcases internWith_eq_ok hrun with ⟨-, rfl⟩ | ⟨-, constant, middle, hbuild, hpush⟩
  · exact .refl 1 _
  · obtain ⟨nameIndex, _, hintern, hpure⟩ := bind_run_eq_ok_iff.1 hbuild
    obtain ⟨rfl, rfl⟩ := pure_run_eq_ok_iff.1 hpure
    exact ((internUtf8_addsUpTo hintern).mono (Nat.zero_le 1)).push hpush (Nat.le_refl 1)

private theorem internNameAndType_addsUpTo {name descriptor : String}
    (hrun : internNameAndType name descriptor pool = .ok index grown) :
    pool.AddsUpTo 1 grown := by
  rcases internWith_eq_ok hrun with ⟨-, rfl⟩ | ⟨-, constant, middle, hbuild, hpush⟩
  · exact .refl 1 _
  · obtain ⟨nameIndex, _, hintern₁, hbuild⟩ := bind_run_eq_ok_iff.1 hbuild
    obtain ⟨descriptorIndex, _, hintern₂, hpure⟩ := bind_run_eq_ok_iff.1 hbuild
    obtain ⟨rfl, rfl⟩ := pure_run_eq_ok_iff.1 hpure
    have hparts := (internUtf8_addsUpTo hintern₁).trans (internUtf8_addsUpTo hintern₂)
    exact (hparts.mono (Nat.zero_le 1)).push hpush (Nat.le_refl 1)

/-! ### Interned entries are found -/

/-- A constant that was pushed is found at its index if nothing was found before. -/
private theorem find?_of_push {accept : Constant → Bool}
    (hpush : push constant pool = .ok index grown)
    (haccept : accept constant = true) (hnone : pool.find? accept = none) :
    grown.find? accept = some index := by
  obtain ⟨-, rfl, rfl⟩ := push_eq_ok_iff.1 hpush
  have hslots : pool.slots.toList.toArray = pool.slots := Array.toArray_toList
  rw [find?, Option.map_eq_none_iff, ← hslots, List.findIdx?_toArray] at hnone
  refine find?_eq_some_iff.2 ⟨pool.size, ?_, rfl⟩
  rw [toList_append, List.findIdx?_append, hnone, Option.none_or, Constant.slots,
    Array.length_toList]
  split <;> simp [size, List.findIdx?_cons, haccept]

/-- A constant that is higher than what was added is found only if it was there before, and then
its references lie in the closed pool. -/
private theorem AddsUpTo.find?_eq_none (h : pool.AddsUpTo limit grown) (hclosed : pool.IsClosed)
    (hheight : limit < constant.height)
    (hnone : (∀ reference ∈ constant.references, reference.2.toNat ≤ pool.size) →
      pool.find? (· == constant) = none) : grown.find? (· == constant) = none := by
  refine find?_beq_eq_none_iff.2 fun hmem => ?_
  replace hmem := h.mem hmem hheight
  exact find?_beq_eq_none_iff.1 (hnone (hclosed constant hmem)) hmem

theorem size_le_of_push (hpush : push constant pool = .ok index grown) : pool.size ≤ maxSlots :=
  Nat.le_of_add_right_le (push_eq_ok_iff.1 hpush).1

/-- An entry that is not a text adds no text. -/
theorem growsTo_of_push (hpush : push constant pool = .ok index grown)
    (hheight : 0 < constant.height) : pool.GrowsTo [] grown := by
  obtain ⟨-, -, rfl⟩ := push_eq_ok_iff.1 hpush
  refine growsTo_append ?_
  rintro text rfl
  exact absurd hheight (Nat.lt_irrefl 0)

/-- A text that was interned is found where it was interned, whatever else the pool holds. -/
theorem internUtf8_found {text : String} (hrun : internUtf8 text pool = .ok index grown) :
    grown.findUtf8? text = some index := by
  rcases internWith_eq_ok hrun with ⟨hfound, rfl⟩ | ⟨hnone, constant, middle, hbuild, hpush⟩
  · exact hfound
  · obtain ⟨rfl, rfl⟩ := pure_run_eq_ok_iff.1 hbuild
    exact find?_of_push hpush (beq_self_eq_true text) hnone

/-- The class entry on a name that was just interned is in the pool only if it is found there. -/
theorem classRef_fresh (hclosed : pool.IsClosed) {name : String}
    (hnone : pool.findClass? name = none) (hintern : internUtf8 name pool = .ok index parts)
    (hsize : parts.size ≤ maxSlots) : parts.find? (· == .classRef index) = none := by
  have hgrows := (internUtf8_gains (List.mem_singleton_self name) hintern).growsTo
  refine (internUtf8_addsUpTo hintern).find?_eq_none hclosed Nat.one_pos fun hle => ?_
  -- an older class entry on this index would have been found
  simp only [Constant.references, List.forall_mem_cons] at hle
  have hname := hgrows.find?_of_le hsize (internUtf8_found hintern) hle.1
  rwa [findClass?, findUtf8?, hname] at hnone

/-- A class that was interned is found where it was interned. -/
theorem internClass_found (hclosed : pool.IsClosed) {name : String}
    (hrun : internClass name pool = .ok index grown) : grown.findClass? name = some index := by
  rcases internWith_eq_ok hrun with ⟨hfound, rfl⟩ | ⟨hnone, constant, middle, hbuild, hpush⟩
  · exact hfound
  · obtain ⟨nameIndex, parts, hintern, hpure⟩ := bind_run_eq_ok_iff.1 hbuild
    obtain ⟨rfl, rfl⟩ := pure_run_eq_ok_iff.1 hpure
    have hfresh := classRef_fresh hclosed hnone hintern (size_le_of_push hpush)
    have hlast := growsTo_of_push hpush Nat.one_pos
    exact findClass?_eq_some_iff.2 ⟨nameIndex, hlast.findUtf8? (internUtf8_found hintern),
      find?_of_push hpush (beq_self_eq_true _) hfresh⟩

/-- If no string with the text was found before, then interning the text brings none into being. -/
theorem string_fresh (hclosed : pool.IsClosed) {text : String}
    (hnone : pool.findString? text = none) (hintern : internUtf8 text pool = .ok index parts)
    (hsize : parts.size ≤ maxSlots) : parts.find? (· == .string index) = none := by
  have hgrows := (internUtf8_gains (List.mem_singleton_self text) hintern).growsTo
  refine (internUtf8_addsUpTo hintern).find?_eq_none hclosed Nat.one_pos fun hle => ?_
  simp only [Constant.references, List.forall_mem_cons] at hle
  have htext := hgrows.find?_of_le hsize (internUtf8_found hintern) hle.1
  rwa [findString?, findUtf8?, htext] at hnone

/-- A string that was interned is found where it was interned. -/
theorem internString_found (hclosed : pool.IsClosed) {text : String}
    (hrun : internString text pool = .ok index grown) : grown.findString? text = some index := by
  rcases internWith_eq_ok hrun with ⟨hfound, rfl⟩ | ⟨hnone, constant, middle, hbuild, hpush⟩
  · exact hfound
  · obtain ⟨textIndex, parts, hintern, hpure⟩ := bind_run_eq_ok_iff.1 hbuild
    obtain ⟨rfl, rfl⟩ := pure_run_eq_ok_iff.1 hpure
    have hfresh := string_fresh hclosed hnone hintern (size_le_of_push hpush)
    have hlast := growsTo_of_push hpush Nat.one_pos
    exact findString?_eq_some_iff.2 ⟨textIndex, hlast.findUtf8? (internUtf8_found hintern),
      find?_of_push hpush (beq_self_eq_true _) hfresh⟩

/-- If no pair of the texts was found before, then interning them brings none into being. -/
theorem nameAndType_fresh (hclosed : pool.IsClosed) {name descriptor : String}
    (hnone : pool.findNameAndType? name descriptor = none) {nameIndex descriptorIndex : UInt16}
    (hintern₁ : internUtf8 name pool = .ok nameIndex middle)
    (hintern₂ : internUtf8 descriptor middle = .ok descriptorIndex parts)
    (hsize : parts.size ≤ maxSlots) :
    parts.find? (· == .nameAndType nameIndex descriptorIndex) = none := by
  have hgrows₁ := (internUtf8_gains (List.mem_singleton_self name) hintern₁).growsTo
  have hgrows₂ := (internUtf8_gains (List.mem_singleton_self descriptor) hintern₂).growsTo
  have hgrows := (hgrows₁.mono (List.subset_append_left _ [descriptor])).trans
    (hgrows₂.mono (List.subset_append_right [name] _))
  have hadds := (internUtf8_addsUpTo hintern₁).trans (internUtf8_addsUpTo hintern₂)
  refine hadds.find?_eq_none hclosed Nat.one_pos fun hle => ?_
  simp only [Constant.references, List.forall_mem_cons] at hle
  have hname := hgrows.find?_of_le hsize (hgrows₂.findUtf8? (internUtf8_found hintern₁)) hle.1
  have hdescriptor := hgrows.find?_of_le hsize (internUtf8_found hintern₂) hle.2.1
  rwa [findNameAndType?, findUtf8?, findUtf8?, hname, hdescriptor] at hnone

/-- A pair that was interned is found where it was interned. -/
theorem internNameAndType_found (hclosed : pool.IsClosed) {name descriptor : String}
    (hrun : internNameAndType name descriptor pool = .ok index grown) :
    grown.findNameAndType? name descriptor = some index := by
  rcases internWith_eq_ok hrun with ⟨hfound, rfl⟩ | ⟨hnone, constant, middle, hbuild, hpush⟩
  · exact hfound
  · obtain ⟨nameIndex, named, hintern₁, hbuild⟩ := bind_run_eq_ok_iff.1 hbuild
    obtain ⟨descriptorIndex, parts, hintern₂, hpure⟩ := bind_run_eq_ok_iff.1 hbuild
    obtain ⟨rfl, rfl⟩ := pure_run_eq_ok_iff.1 hpure
    have hgrows := (internUtf8_gains (List.mem_singleton_self descriptor) hintern₂).growsTo
    have hname := hgrows.findUtf8? (internUtf8_found hintern₁)
    have hdescriptor := internUtf8_found hintern₂
    have hfresh := nameAndType_fresh hclosed hnone hintern₁ hintern₂ (size_le_of_push hpush)
    have hlast := growsTo_of_push hpush Nat.one_pos
    exact findNameAndType?_eq_some_iff.2
      ⟨nameIndex, descriptorIndex, hlast.findUtf8? hname, hlast.findUtf8? hdescriptor,
        find?_of_push hpush (beq_self_eq_true _) hfresh⟩

/-- If no method with the names was found before, then interning its class and its pair brings none
into being. -/
theorem methodRef_fresh (hclosed : pool.IsClosed) {owner name descriptor : String}
    (hnone : pool.findMethodRef? owner name descriptor = none) {ownerIndex signature : UInt16}
    (hintern₁ : internClass owner pool = .ok ownerIndex middle)
    (hintern₂ : internNameAndType name descriptor middle = .ok signature parts)
    (hsize : parts.size ≤ maxSlots) :
    parts.find? (· == .methodRef ownerIndex signature) = none := by
  have hgains₁ : pool.Gains [owner, name, descriptor] middle :=
    internClass_gains (by simp) hintern₁
  have hgains₂ : middle.Gains [owner, name, descriptor] parts :=
    internNameAndType_gains (by simp) (by simp) hintern₂
  have hgrows := (hgains₁.trans hgains₂).growsTo
  have hadds := (internClass_addsUpTo hintern₁).trans (internNameAndType_addsUpTo hintern₂)
  have howner := hgains₂.growsTo.findClass? (internClass_found hclosed hintern₁)
  have hsignature := internNameAndType_found (hgains₁.isClosed hclosed) hintern₂
  refine hadds.find?_eq_none hclosed Nat.one_lt_two fun hle => ?_
  simp only [Constant.references, List.forall_mem_cons] at hle
  -- the parts lie in the closed front of the pool, and so do the parts of the parts
  have howner' := hgrows.findClass?_of_le hclosed hsize howner hle.1
  have hsignature' := hgrows.findNameAndType?_of_le hclosed hsize hsignature hle.2.1
  rwa [findMethodRef?, howner', hsignature'] at hnone

/-- A method that was interned is found where it was interned. -/
theorem internMethodRef_found (hclosed : pool.IsClosed) {owner name descriptor : String}
    (hrun : internMethodRef owner name descriptor pool = .ok index grown) :
    grown.findMethodRef? owner name descriptor = some index := by
  rcases internWith_eq_ok hrun with ⟨hfound, rfl⟩ | ⟨hnone, constant, middle, hbuild, hpush⟩
  · exact hfound
  · obtain ⟨ownerIndex, owned, hintern₁, hbuild⟩ := bind_run_eq_ok_iff.1 hbuild
    obtain ⟨signature, parts, hintern₂, hpure⟩ := bind_run_eq_ok_iff.1 hbuild
    obtain ⟨rfl, rfl⟩ := pure_run_eq_ok_iff.1 hpure
    have hgains₁ := internClass_gains (List.mem_singleton_self owner) hintern₁
    have hgains₂ : owned.Gains [name, descriptor] parts :=
      internNameAndType_gains (by simp) (by simp) hintern₂
    have howner := hgains₂.growsTo.findClass? (internClass_found hclosed hintern₁)
    have hsignature := internNameAndType_found (hgains₁.isClosed hclosed) hintern₂
    have hfresh := methodRef_fresh hclosed hnone hintern₁ hintern₂ (size_le_of_push hpush)
    have hlast := growsTo_of_push hpush Nat.two_pos
    exact findMethodRef?_eq_some_iff.2
      ⟨ownerIndex, signature, hlast.findClass? howner, hlast.findNameAndType? hsignature,
        find?_of_push hpush (beq_self_eq_true _) hfresh⟩

end ConstantPool

/-! ### The entries of the exception -/

/-- The entries are those that interning the parts of the exception finds. -/
structure RaiseRefs.FoundIn (refs : RaiseRefs) (pool : ConstantPool) : Prop where
  exceptionClass : pool.findClass? Diagnostic.exceptionClass = some refs.exceptionClass
  message : pool.findString? Diagnostic.message = some refs.message
  constructor : pool.findMethodRef? Diagnostic.exceptionClass constructorName
    Diagnostic.constructorDescriptor = some refs.constructor

namespace RaiseRefs

variable {refs other : RaiseRefs} {pool grown : ConstantPool} {texts : List String}

/-- What the references were found at, they are found at later. -/
theorem FoundIn.grow (h : refs.FoundIn pool) (hgrows : pool.GrowsTo texts grown) :
    refs.FoundIn grown :=
  ⟨hgrows.findClass? h.exceptionClass, hgrows.findString? h.message,
    hgrows.findMethodRef? h.constructor⟩

/-- A search has only one result. -/
theorem FoundIn.eq (h : refs.FoundIn pool) (hother : other.FoundIn pool) : refs = other := by
  cases refs
  cases other
  rw [mk.injEq]
  exact ⟨Option.some.inj (h.exceptionClass.symm.trans hother.exceptionClass),
    Option.some.inj (h.message.symm.trans hother.message),
    Option.some.inj (h.constructor.symm.trans hother.constructor)⟩

/-- References that are found are interned without any change to the pool. -/
theorem FoundIn.intern (h : refs.FoundIn pool) : RaiseRefs.intern pool = .ok refs pool := by
  refine bind_run_eq_ok_iff.2
    ⟨_, _, ConstantPool.internWith_of_found h.exceptionClass, bind_run_eq_ok_iff.2
      ⟨_, _, ConstantPool.internWith_of_found h.message, bind_run_eq_ok_iff.2
        ⟨_, _, ConstantPool.internWith_of_found h.constructor, rfl⟩⟩⟩

/-- References that were interned are found. -/
theorem intern_found (hclosed : pool.IsClosed) (hrun : RaiseRefs.intern pool = .ok refs grown) :
    refs.FoundIn grown := by
  obtain ⟨exceptionClass, p₁, hintern₁, hrun⟩ := bind_run_eq_ok_iff.1 hrun
  obtain ⟨message, p₂, hintern₂, hrun⟩ := bind_run_eq_ok_iff.1 hrun
  obtain ⟨constructor, _, hintern₃, hpure⟩ := bind_run_eq_ok_iff.1 hrun
  obtain ⟨rfl, rfl⟩ := pure_run_eq_ok_iff.1 hpure
  have h₁ : pool.Gains RaiseRefs.texts p₁ :=
    ConstantPool.internClass_gains (by simp [texts]) hintern₁
  have h₂ : p₁.Gains RaiseRefs.texts p₂ :=
    ConstantPool.internString_gains (by simp [texts]) hintern₂
  have h₃ : p₂.Gains RaiseRefs.texts _ :=
    ConstantPool.internMethodRef_gains (by simp [texts]) (by simp [texts]) (by simp [texts])
      hintern₃
  have hclosed₁ := h₁.isClosed hclosed
  have hclosed₂ := h₂.isClosed hclosed₁
  exact ⟨(h₂.trans h₃).growsTo.findClass? (ConstantPool.internClass_found hclosed hintern₁),
    h₃.growsTo.findString? (ConstantPool.internString_found hclosed₁ hintern₂),
    ConstantPool.internMethodRef_found hclosed₂ hintern₃⟩

end RaiseRefs

end ClassStub
