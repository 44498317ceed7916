import ClassStub.Proofs.Finding
import ClassStub.Proofs.PoolRuns

/-!
# Pools without duplicates

A look-up compares texts at the lowest level only and indices above it, so it may miss an entry
that spells the texts it looks for: the entry may stand on the second of two equal texts. In a
pool that holds nothing twice it misses nothing, and finding an entry is the inverse of resolving
an index (`ConstantPool.IsCanonical.find?_eq_some_iff`).

Interning keeps a pool free of duplicates, for an entry is appended only if it was not found, and
while its parts were interned it cannot have come into the pool (`classRef_fresh` and the like).
This holds of an action that fails half way as well, since the parts that it leaves are what
successful actions leave. Numbers are never looked for, so they may be pushed at will
(`ConstantPool.find?_serveAll`).
-/

namespace ClassStub

namespace Constant

/-- The constant is of a kind that is interned. -/
def isInternable : Constant → Bool
  | utf8 _ | classRef _ | string _ | nameAndType _ _ | methodRef _ _ => true
  | _ => false

/-- The constant is a number. -/
def isNumber : Constant → Bool
  | integer _ | float _ | long _ | double _ => true
  | _ => false

variable {constant : Constant}

private theorem eq_of_mem_slots {slot : Constant} (hmem : slot ∈ constant.slots)
    (hslot : slot.isInternable = true) : slot = constant := by
  rw [slots] at hmem
  split at hmem
  · rcases List.mem_pair.1 hmem with rfl | rfl
    · rfl
    · cases hslot
  · exact List.mem_singleton.1 hmem

private theorem isInternable_of_isNumber (h : constant.isNumber = true) :
    constant.isInternable = false := by
  cases constant with
  | integer _ | float _ | long _ | double _ => rfl
  | _ => exact nomatch h

private theorem references_of_isNumber (h : constant.isNumber = true) :
    constant.references = [] := by
  cases constant with
  | integer _ | float _ | long _ | double _ => rfl
  | _ => exact nomatch h

end Constant

namespace ConstantPool

variable {pool middle parts grown : ConstantPool} {index : UInt16} {constant : Constant}

/-- No entry of a kind that is interned stands in the pool twice. -/
def IsUnique (pool : ConstantPool) : Prop :=
  pool.slots.toList.Pairwise fun a b => a.isInternable = true → a ≠ b

/-! ### Duplicates are not made -/

private theorem IsUnique.append (h : pool.IsUnique)
    (hfresh : constant.isInternable = true → constant ∉ pool.slots.toList) :
    (pool.append constant).IsUnique := by
  rw [IsUnique, toList_append, List.pairwise_append]
  refine ⟨h, ?_, fun a ha b hb hinternable heq => ?_⟩
  · rw [Constant.slots]
    split
    case isTrue hwide => cases constant <;> simp_all [Constant.isWide, Constant.isInternable]
    case isFalse => exact List.pairwise_singleton _ _
  · subst heq
    obtain rfl := Constant.eq_of_mem_slots hb hinternable
    exact hfresh hinternable ha

/-- An entry that is not in the pool may be pushed. -/
theorem IsUnique.push (h : pool.IsUnique)
    (hpush : ConstantPool.push constant pool = .ok index grown)
    (hfresh : pool.find? (· == constant) = none) : grown.IsUnique := by
  obtain ⟨-, -, rfl⟩ := push_eq_ok_iff.1 hpush
  exact h.append fun _ => find?_beq_eq_none_iff.1 hfresh

/-- Interning a text appends it only if it is not there. -/
theorem IsUnique.internUtf8 (h : pool.IsUnique) {text : String}
    (hrun : ConstantPool.internUtf8 text pool = .ok index grown) : grown.IsUnique := by
  rcases internWith_eq_ok hrun with ⟨-, rfl⟩ | ⟨hnone, constant, middle, hbuild, hpush⟩
  · exact h
  · obtain ⟨rfl, rfl⟩ := pure_run_eq_ok_iff.1 hbuild
    exact h.push hpush (find?_beq_eq_none_iff.2 (not_mem_of_findUtf8?_eq_none hnone))

private theorem IsUnique.internClass (h : pool.IsUnique) (hclosed : pool.IsClosed) {name : String}
    (hrun : ConstantPool.internClass name pool = .ok index grown) : grown.IsUnique := by
  rcases internWith_eq_ok hrun with ⟨-, rfl⟩ | ⟨hnone, constant, middle, hbuild, hpush⟩
  · exact h
  · obtain ⟨nameIndex, parts, hintern, hpure⟩ := bind_run_eq_ok_iff.1 hbuild
    obtain ⟨rfl, rfl⟩ := pure_run_eq_ok_iff.1 hpure
    have hfresh := classRef_fresh hclosed hnone hintern (size_le_of_push hpush)
    exact (h.internUtf8 hintern).push hpush hfresh

private theorem IsUnique.internString (h : pool.IsUnique) (hclosed : pool.IsClosed) {text : String}
    (hrun : ConstantPool.internString text pool = .ok index grown) : grown.IsUnique := by
  rcases internWith_eq_ok hrun with ⟨-, rfl⟩ | ⟨hnone, constant, middle, hbuild, hpush⟩
  · exact h
  · obtain ⟨textIndex, parts, hintern, hpure⟩ := bind_run_eq_ok_iff.1 hbuild
    obtain ⟨rfl, rfl⟩ := pure_run_eq_ok_iff.1 hpure
    have hfresh := string_fresh hclosed hnone hintern (size_le_of_push hpush)
    exact (h.internUtf8 hintern).push hpush hfresh

private theorem IsUnique.internNameAndType (h : pool.IsUnique) (hclosed : pool.IsClosed)
    {name descriptor : String}
    (hrun : ConstantPool.internNameAndType name descriptor pool = .ok index grown) :
    grown.IsUnique := by
  rcases internWith_eq_ok hrun with ⟨-, rfl⟩ | ⟨hnone, constant, middle, hbuild, hpush⟩
  · exact h
  · obtain ⟨nameIndex, named, hintern₁, hbuild⟩ := bind_run_eq_ok_iff.1 hbuild
    obtain ⟨descriptorIndex, parts, hintern₂, hpure⟩ := bind_run_eq_ok_iff.1 hbuild
    obtain ⟨rfl, rfl⟩ := pure_run_eq_ok_iff.1 hpure
    have hfresh := nameAndType_fresh hclosed hnone hintern₁ hintern₂ (size_le_of_push hpush)
    exact ((h.internUtf8 hintern₁).internUtf8 hintern₂).push hpush hfresh

private theorem IsUnique.internMethodRef (h : pool.IsUnique) (hclosed : pool.IsClosed)
    {owner name descriptor : String}
    (hrun : ConstantPool.internMethodRef owner name descriptor pool = .ok index grown) :
    grown.IsUnique := by
  rcases internWith_eq_ok hrun with ⟨-, rfl⟩ | ⟨hnone, constant, middle, hbuild, hpush⟩
  · exact h
  · obtain ⟨ownerIndex, owned, hintern₁, hbuild⟩ := bind_run_eq_ok_iff.1 hbuild
    obtain ⟨signature, parts, hintern₂, hpure⟩ := bind_run_eq_ok_iff.1 hbuild
    obtain ⟨rfl, rfl⟩ := pure_run_eq_ok_iff.1 hpure
    have hfresh := methodRef_fresh hclosed hnone hintern₁ hintern₂ (size_le_of_push hpush)
    have howned := (internClass_gains (List.mem_singleton_self owner) hintern₁).isClosed hclosed
    exact ((h.internClass hclosed hintern₁).internNameAndType howned hintern₂).push hpush hfresh

/-! ### Canonical pools -/

/-- The pool has room for an index at each slot, no reference leads out of it and it holds no
entry twice. -/
structure IsCanonical (pool : ConstantPool) : Prop where
  size_le : pool.size ≤ maxSlots
  closed : pool.IsClosed
  unique : pool.IsUnique

private theorem isCanonical_empty : empty.IsCanonical where
  size_le := Nat.zero_le _
  closed _ hmem := absurd hmem List.not_mem_nil
  unique := List.Pairwise.nil

private theorem IsCanonical.intern (h : pool.IsCanonical) {wanted : Wanted}
    (hrun : wanted.intern pool = .ok index grown) : grown.IsCanonical where
  size_le := (Wanted.intern_gains hrun).size_le h.size_le
  closed := (Wanted.intern_gains hrun).isClosed h.closed
  unique := by
    cases wanted with
    | utf8 text => exact h.unique.internUtf8 hrun
    | classRef name => exact h.unique.internClass h.closed hrun
    | string text => exact h.unique.internString h.closed hrun
    | nameAndType name descriptor => exact h.unique.internNameAndType h.closed hrun
    | methodRef owner name descriptor => exact h.unique.internMethodRef h.closed hrun

/-- A number refers to nothing and is of no kind that is interned. -/
private theorem IsCanonical.append_number (h : pool.IsCanonical)
    (hnumber : constant.isNumber = true)
    (hfits : pool.size + constant.width ≤ maxSlots) : (pool.append constant).IsCanonical where
  size_le := by rwa [size_append]
  closed := by
    intro slot hmem reference hreference
    rw [size_append]
    rw [toList_append, List.mem_append] at hmem
    rcases hmem with hmem | hmem
    · exact Nat.le_add_right_of_le (h.closed slot hmem reference hreference)
    · -- neither a number nor the slot behind a wide one refers to anything
      have hnone : slot.references = [] := by
        rw [Constant.slots] at hmem
        split at hmem
        · rcases List.mem_pair.1 hmem with rfl | rfl
          · exact Constant.references_of_isNumber hnumber
          · rfl
        · rw [List.mem_singleton.1 hmem, Constant.references_of_isNumber hnumber]
      rw [hnone] at hreference
      exact absurd hreference List.not_mem_nil
  unique := by
    refine h.unique.append fun hinternable => ?_
    rw [Constant.isInternable_of_isNumber hnumber] at hinternable
    cases hinternable

/-- The request interns an entry or pushes a number. -/
def Request.keepsUnique : Request → Bool
  | push constant _ => constant.isNumber
  | intern _ => true

/-- Each request that interns keeps the entries unique. -/
theorem IsCanonical.serve (h : pool.IsCanonical) {request : Request}
    (hrequest : request.keepsUnique = true) : (pool.serve request).IsCanonical := by
  cases request with
  | push constant usable =>
    rw [serve_push]
    split
    case isTrue => exact h
    case isFalse hfits => exact h.append_number hrequest (Nat.not_lt.1 hfits)
  | intern wanted =>
    exact (internsTo_serve pool wanted).induction h fun _ _ _ _ hmiddle hrun =>
      hmiddle.intern hrun

private theorem IsCanonical.serveAll (h : pool.IsCanonical) {requests : List Request}
    (hrequests : ∀ request ∈ requests, request.keepsUnique = true) :
    (pool.serveAll requests).IsCanonical := by
  induction requests generalizing pool with
  | nil => exact h
  | cons request requests ih =>
    obtain ⟨hfirst, hothers⟩ := List.forall_mem_cons.1 hrequests
    exact ih (h.serve hfirst) hothers

/-! ### Finding is the inverse of resolving -/

private theorem IsUnique.index_eq (h : pool.IsUnique) {other : UInt16}
    (hinternable : constant.isInternable = true) (hget : pool.get? index = some constant)
    (hother : pool.get? other = some constant) : index = other := by
  have hfirst := (get?_eq_some_iff.1 hget).2
  have hsecond := (get?_eq_some_iff.1 hother).2
  obtain ⟨hlt, hslot⟩ := List.getElem?_eq_some_iff.1 hfirst
  obtain ⟨hlt', hslot'⟩ := List.getElem?_eq_some_iff.1 hsecond
  have hpairwise := List.pairwise_iff_getElem.1 h
  -- of two different positions the first would hold something else than the second
  have hposition : index.toNat - 1 = other.toNat - 1 := by
    rcases Nat.lt_trichotomy (index.toNat - 1) (other.toNat - 1) with hlt'' | heq | hgt
    · refine absurd (hslot.trans hslot'.symm) (hpairwise _ _ hlt hlt' hlt'' ?_)
      rwa [hslot]
    · exact heq
    · refine absurd (hslot'.trans hslot.symm) (hpairwise _ _ hlt' hlt hgt ?_)
      rwa [hslot']
  have hpos := toNat_pos_of_get? hget
  have hpos' := toNat_pos_of_get? hother
  exact UInt16.toNat_inj.1 (by omega)

/-- An entry of a kind that is interned is found where it stands. -/
private theorem IsCanonical.find?_eq (h : pool.IsCanonical)
    (hinternable : constant.isInternable = true)
    (hget : pool.get? index = some constant) {accept : Constant → Bool}
    (haccept : ∀ other, accept other = true ↔ other = constant) :
    pool.find? accept = some index := by
  cases hfind : pool.find? accept with
  | none =>
    rw [find?, Option.map_eq_none_iff, Array.findIdx?_eq_none_iff] at hfind
    have hnot := hfind constant (Array.mem_toList_iff.1 (mem_slots_of_get? hget))
    cases ((haccept constant).2 rfl).symm.trans hnot
  | some found =>
    obtain ⟨other, hother, haccepted⟩ := get?_of_find? h.size_le hfind
    obtain rfl := (haccept other).1 haccepted
    rw [h.unique.index_eq hinternable hget hother]

/-- The look-up of the entry. -/
def Wanted.find? (pool : ConstantPool) : Wanted → Option UInt16
  | utf8 text => pool.findUtf8? text
  | classRef name => pool.findClass? name
  | string text => pool.findString? text
  | nameAndType name descriptor => pool.findNameAndType? name descriptor
  | methodRef owner name descriptor => pool.findMethodRef? owner name descriptor

private theorem Wanted.isAt_of_find? (hsize : pool.size ≤ maxSlots) {wanted : Wanted}
    (hfind : wanted.find? pool = some index) : wanted.IsAt pool index := by
  cases wanted with
  | utf8 text => exact utf8_of_findUtf8? hsize hfind
  | classRef name => exact className_of_findClass? hsize hfind
  | string text => exact string_of_findString? hsize hfind
  | nameAndType name descriptor => exact nameAndType_of_findNameAndType? hsize hfind
  | methodRef owner name descriptor => exact methodRef_of_findMethodRef? hsize hfind

namespace IsCanonical

/-- A text that can be read is found where it stands, as it stands nowhere else. -/
theorem findUtf8? (h : pool.IsCanonical) {text : String} (htext : pool.utf8 index = .ok text) :
    pool.findUtf8? text = some index := by
  refine h.find?_eq rfl (utf8_eq_ok_iff.1 htext) fun other => ?_
  cases other <;> simp

private theorem findClass? (h : pool.IsCanonical) {name : String}
    (hname : pool.className index = .ok name) : pool.findClass? name = some index := by
  obtain ⟨nameIndex, hget, hutf8⟩ := className_eq_ok_iff.1 hname
  exact findClass?_eq_some_iff.2
    ⟨nameIndex, h.findUtf8? hutf8, h.find?_eq rfl hget fun _ => beq_iff_eq⟩

private theorem findString? (h : pool.IsCanonical) {text : String}
    (htext : pool.string index = .ok text) : pool.findString? text = some index := by
  obtain ⟨textIndex, hget, hutf8⟩ := string_eq_ok_iff.1 htext
  exact findString?_eq_some_iff.2
    ⟨textIndex, h.findUtf8? hutf8, h.find?_eq rfl hget fun _ => beq_iff_eq⟩

private theorem findNameAndType? (h : pool.IsCanonical) {name descriptor : String}
    (hsignature : pool.nameAndType index = .ok (name, descriptor)) :
    pool.findNameAndType? name descriptor = some index := by
  obtain ⟨nameIndex, descriptorIndex, hget, hname, hdescriptor⟩ :=
    nameAndType_eq_ok_iff.1 hsignature
  exact findNameAndType?_eq_some_iff.2 ⟨nameIndex, descriptorIndex, h.findUtf8? hname,
    h.findUtf8? hdescriptor, h.find?_eq rfl hget fun _ => beq_iff_eq⟩

private theorem findMethodRef? (h : pool.IsCanonical) {owner name descriptor : String}
    (hmethod : pool.methodRef index = .ok (owner, name, descriptor)) :
    pool.findMethodRef? owner name descriptor = some index := by
  obtain ⟨ownerIndex, signature, hget, howner, hsignature⟩ := methodRef_eq_ok_iff.1 hmethod
  exact findMethodRef?_eq_some_iff.2 ⟨ownerIndex, signature, h.findClass? howner,
    h.findNameAndType? hsignature, h.find?_eq rfl hget fun _ => beq_iff_eq⟩

/-- A search finds what is wanted exactly where it is. -/
theorem find?_eq_some_iff (h : pool.IsCanonical) {wanted : Wanted} :
    wanted.find? pool = some index ↔ wanted.IsAt pool index := by
  refine ⟨Wanted.isAt_of_find? h.size_le, fun hat => ?_⟩
  cases wanted with
  | utf8 text => exact h.findUtf8? hat
  | classRef name => exact h.findClass? hat
  | string text => exact h.findString? hat
  | nameAndType name descriptor => exact h.findNameAndType? hat
  | methodRef owner name descriptor => exact h.findMethodRef? hat

end IsCanonical

/-- **Interned pools have no duplicates.** After requests to intern entries and to push numbers,
some of which may have failed, no two indices of the pool hold the same text, class, string, name
and type or method reference, and an entry is found at an index exactly if the index resolves to
the texts that were looked for. -/
theorem find?_serveAll {requests : List Request}
    (hrequests : ∀ request ∈ requests, request.keepsUnique = true) :
    (∀ constant : Constant, constant.isInternable = true → ∀ index other,
        (empty.serveAll requests).get? index = some constant →
        (empty.serveAll requests).get? other = some constant → index = other) ∧
      ∀ (wanted : Wanted) (index : UInt16), wanted.find? (empty.serveAll requests) = some index ↔
        wanted.IsAt (empty.serveAll requests) index := by
  have hcanonical := isCanonical_empty.serveAll hrequests
  refine ⟨fun constant hinternable index other hget hother => ?_, fun wanted index => ?_⟩
  · exact hcanonical.unique.index_eq hinternable hget hother
  · exact hcanonical.find?_eq_some_iff

/-- A class that was interned behind a wide number is found at the fourth index: the number takes
the first two slots and the name of the class the third. -/
theorem find?_serveAll_class :
    (∀ request ∈ ([.push (.double 0) rfl, .intern (.classRef "p/A")] : List Request),
        request.keepsUnique = true) ∧
      className (empty.serveAll [.push (.double 0) rfl, .intern (.classRef "p/A")]) 4 =
        .ok "p/A" ∧
      findClass? (empty.serveAll [.push (.double 0) rfl, .intern (.classRef "p/A")]) "p/A" =
        some 4 := by
  have hrequests : ∀ request ∈ ([.push (.double 0) rfl, .intern (.classRef "p/A")] : List Request),
      request.keepsUnique = true := by
    simp [Request.keepsUnique, Constant.isNumber]
  have hname : className (empty.serveAll [.push (.double 0) rfl, .intern (.classRef "p/A")]) 4 =
      .ok "p/A" := by decide +kernel
  exact ⟨hrequests, hname, ((find?_serveAll hrequests).2 (.classRef "p/A") 4).2 hname⟩

end ConstantPool

end ClassStub
