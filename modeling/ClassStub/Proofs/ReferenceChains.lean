import Mathlib.Data.List.Chain
import Mathlib.Logic.Relation
import ClassStub.Proofs.PoolCheck

/-!
# Chains of references

The check of a pool looks at each entry once and at its references one level deep. A resolver
follows them down to the texts, and the entries of a chain may stand anywhere in the pool, in front
of each other or behind, even past the slots that are unusable. What the check finds is enough all
the same: every entry has a depth, and each of its references leads to an entry that is usable and
of smaller depth (`ConstantPool.depthAt_lt`).

Hence a chain of references in a pool that passes the check has at most three steps, leads to usable
entries only and never back to where it began, and it can be continued until it meets a text
(`ClassFile.hasSoundChains_of_checkPool`). A resolver that is applied to an entry of its kind fails
only if this text cannot be read.
-/

namespace ClassStub

variable {constant : Constant} {kind : ReferenceKind}

/-! ### The depth of an entry -/

namespace Constant

/-- The indices of other entries that a constant holds. The bootstrap method of a dynamic constant
is not an entry of the pool. -/
def indices : Constant → List UInt16
  | classRef index | string index | methodType index | moduleRef index | packageRef index => [index]
  | methodHandle _ reference => [reference]
  | fieldRef owner signature | methodRef owner signature | interfaceMethodRef owner signature =>
    [owner, signature]
  | nameAndType name descriptor => [name, descriptor]
  | dynamic _ signature | invokeDynamic _ signature => [signature]
  | utf8 _ | utf8Raw _ | integer _ | float _ | long _ | double _ | unusable => []

private theorem map_snd_references (constant : Constant) :
    constant.references.map Prod.snd = constant.indices := by
  cases constant <;> rfl

private theorem exists_mem_references {index : UInt16} (h : index ∈ constant.indices) :
    ∃ kind, (kind, index) ∈ constant.references := by
  rw [← map_snd_references, List.mem_map] at h
  obtain ⟨⟨kind, _⟩, hmem, rfl⟩ := h
  exact ⟨kind, hmem⟩

/-- How many references there are at most between a constant and the texts below it. -/
def depth : Constant → Nat
  | methodHandle _ _ => 3
  | fieldRef _ _ | methodRef _ _ | interfaceMethodRef _ _ | dynamic _ _ | invokeDynamic _ _ => 2
  | classRef _ | string _ | nameAndType _ _ | methodType _ | moduleRef _ | packageRef _ => 1
  | _ => 0

private theorem depth_le (constant : Constant) : constant.depth ≤ 3 := by
  cases constant <;> simp [depth]

private theorem indices_eq_nil_iff : constant.indices = [] ↔ constant.depth = 0 := by
  cases constant <;> simp [indices, depth]

end Constant

namespace ReferenceKind

/-- The depth of the entries of the kind. -/
def depth : ReferenceKind → Nat
  | text => 0
  | classRef | nameAndType => 1
  | member => 2

private theorem depth_lt (constant : Constant) :
    ∀ reference ∈ constant.references, reference.1.depth < constant.depth := by
  cases constant <;> simp [Constant.references, Constant.depth, depth]

private theorem depth_eq (h : kind.accepts constant = true) : constant.depth = kind.depth := by
  cases kind <;> cases constant <;> first | rfl | cases h

private theorem isUnusable_eq_false (h : kind.accepts constant = true) :
    constant.isUnusable = false := by
  cases kind <;> cases constant <;> first | rfl | cases h

/-- An entry that is referred to and refers to nothing is a text. -/
private theorem isUtf8_of_indices_eq_nil (h : kind.accepts constant = true)
    (hnone : constant.indices = []) : constant.isUtf8 = true := by
  have hdepth : kind.depth = 0 := by
    rw [← depth_eq h, Constant.indices_eq_nil_iff.1 hnone]
  cases kind with
  | text => exact h
  | classRef | nameAndType | member => exact nomatch hdepth

end ReferenceKind

/-! ### Following references -/

namespace ConstantPool

variable {α β : Type} {pool : ConstantPool} {index target : UInt16}

/-- The entry at the one index holds the other. -/
def RefersTo (pool : ConstantPool) (index target : UInt16) : Prop :=
  ∃ constant, pool.get? index = some constant ∧ target ∈ constant.indices

private theorem refersTo_of_mem (hget : pool.get? index = some constant)
    (hreference : (kind, target) ∈ constant.references) : pool.RefersTo index target := by
  refine ⟨constant, hget, ?_⟩
  rw [← Constant.map_snd_references]
  exact List.mem_map_of_mem hreference

/-- The depth of the entry at an index. -/
def depthAt (pool : ConstantPool) (index : UInt16) : Nat :=
  (pool.get? index).elim 0 Constant.depth

private theorem depthAt_of_get? (h : pool.get? index = some constant) :
    pool.depthAt index = constant.depth := by
  rw [depthAt, h, Option.elim_some]

private theorem depthAt_le : pool.depthAt index ≤ 3 := by
  rw [depthAt]
  cases pool.get? index with
  | none => exact Nat.zero_le 3
  | some constant => exact constant.depth_le

section

variable {hasBootstrapMethods : Bool}
  (hsound : ∀ constant ∈ pool.slots.toList, constant.IsSoundIn pool hasBootstrapMethods)

include hsound

/-- What stands at the end of a reference is of the kind that the reference asks for. -/
private theorem exists_accepts_of_mem (hget : pool.get? index = some constant)
    (hreference : (kind, target) ∈ constant.references) :
    ∃ found, pool.get? target = some found ∧ kind.accepts found = true :=
  (Option.any_eq_true _ _).1 ((hsound constant (mem_slots_of_get? hget)).references _ hreference)

private theorem exists_of_refersTo (h : pool.RefersTo index target) :
    ∃ constant found kind, pool.get? index = some constant ∧ pool.get? target = some found ∧
      (kind, target) ∈ constant.references ∧ kind.accepts found = true := by
  obtain ⟨constant, hget, hmem⟩ := h
  obtain ⟨kind, hreference⟩ := Constant.exists_mem_references hmem
  obtain ⟨found, hfound, haccepts⟩ := exists_accepts_of_mem hsound hget hreference
  exact ⟨constant, found, kind, hget, hfound, hreference, haccepts⟩

/-- Each reference leads to an entry of smaller depth. -/
theorem depthAt_lt (h : pool.RefersTo index target) :
    pool.depthAt target < pool.depthAt index := by
  obtain ⟨constant, found, kind, hget, hfound, hreference, haccepts⟩ :=
    exists_of_refersTo hsound h
  rw [depthAt_of_get? hget, depthAt_of_get? hfound, ReferenceKind.depth_eq haccepts]
  exact ReferenceKind.depth_lt constant _ hreference

private theorem depthAt_lt_of_transGen (h : Relation.TransGen pool.RefersTo index target) :
    pool.depthAt target < pool.depthAt index := by
  induction h with
  | single hstep => exact depthAt_lt hsound hstep
  | tail _ hstep ih => exact Nat.lt_trans (depthAt_lt hsound hstep) ih

/-- A chain is no longer than the entry it begins with is deep. -/
private theorem length_le_depthAt {path : List UInt16}
    (h : List.IsChain pool.RefersTo (index :: path)) :
    path.length ≤ pool.depthAt index := by
  induction path generalizing index with
  | nil => exact Nat.zero_le _
  | cons next path ih =>
    obtain ⟨hstep, hrest⟩ := List.isChain_cons_cons.1 h
    exact Nat.lt_of_le_of_lt (ih hrest) (depthAt_lt hsound hstep)

/-- A chain that has left its first entry is at one that some reference asks for. -/
private theorem exists_of_transGen (h : Relation.TransGen pool.RefersTo index target) :
    ∃ found kind, pool.get? target = some found ∧ ReferenceKind.accepts kind found = true := by
  obtain ⟨last, -, hstep⟩ := Relation.TransGen.tail'_iff.1 h
  obtain ⟨_, found, kind, -, hfound, -, haccepts⟩ := exists_of_refersTo hsound hstep
  exact ⟨found, kind, hfound, haccepts⟩

end

/-! ### Resolvers -/

/-- A look-up that begins at the index succeeds, or it fails at an entry on the chain whose bytes
are not a text. -/
def ResolvesUpToRaw (pool : ConstantPool) (index : UInt16) (value : Except PoolError α) : Prop :=
  (∃ a, value = .ok a) ∨ ∃ target bytes, Relation.ReflTransGen pool.RefersTo index target ∧
    pool.get? target = some (.utf8Raw bytes) ∧ value = .error (.notUnicode target)

private theorem ResolvesUpToRaw.head {value : Except PoolError α}
    (hstep : pool.RefersTo index target)
    (h : pool.ResolvesUpToRaw target value) : pool.ResolvesUpToRaw index value := by
  rcases h with hok | ⟨last, bytes, hreaches, hget, herror⟩
  · exact .inl hok
  · exact .inr ⟨last, bytes, .head hstep hreaches, hget, herror⟩

/-- One look-up behind another resolves if both do. -/
theorem ResolvesUpToRaw.bind {first : Except PoolError α} {next : α → Except PoolError β}
    (hfirst : pool.ResolvesUpToRaw index first)
    (hnext : ∀ a, pool.ResolvesUpToRaw index (next a)) :
    pool.ResolvesUpToRaw index (first >>= next) := by
  rcases hfirst with ⟨a, rfl⟩ | ⟨last, bytes, hreaches, hget, rfl⟩
  · exact hnext a
  · exact .inr ⟨last, bytes, hreaches, hget, rfl⟩

private theorem resolvesUpToRaw_utf8 (hget : pool.get? index = some constant)
    (hutf8 : constant.isUtf8 = true) : pool.ResolvesUpToRaw index (pool.utf8 index) := by
  cases constant with
  | utf8 text => exact .inl ⟨text, utf8_eq_ok_iff.2 hget⟩
  | utf8Raw bytes =>
    refine .inr ⟨index, bytes, .refl, hget, ?_⟩
    rw [utf8, hget]
  | _ => cases hutf8

section

variable {hasBootstrapMethods : Bool}
  (hsound : ∀ constant ∈ pool.slots.toList, constant.IsSoundIn pool hasBootstrapMethods)

include hsound

/-- Whatever an entry refers to as a text resolves to one, or cannot be read. -/
private theorem resolvesUpToRaw_text (hget : pool.get? index = some constant)
    (hreference : (.text, target) ∈ constant.references) :
    pool.ResolvesUpToRaw index (pool.utf8 target) := by
  obtain ⟨found, hfound, haccepts⟩ := exists_accepts_of_mem hsound hget hreference
  exact (resolvesUpToRaw_utf8 hfound haccepts).head (refersTo_of_mem hget hreference)

private theorem resolvesUpToRaw_className {name : UInt16}
    (hget : pool.get? index = some (.classRef name)) :
    pool.ResolvesUpToRaw index (pool.className index) := by
  rw [className, hget]
  exact resolvesUpToRaw_text hsound hget List.mem_cons_self

private theorem resolvesUpToRaw_string {text : UInt16}
    (hget : pool.get? index = some (.string text)) :
    pool.ResolvesUpToRaw index (pool.string index) := by
  rw [string, hget]
  exact resolvesUpToRaw_text hsound hget List.mem_cons_self

private theorem resolvesUpToRaw_nameAndType {name descriptor : UInt16}
    (hget : pool.get? index = some (.nameAndType name descriptor)) :
    pool.ResolvesUpToRaw index (pool.nameAndType index) := by
  rw [nameAndType, hget]
  refine (resolvesUpToRaw_text hsound hget List.mem_cons_self).bind fun foundName => ?_
  refine (resolvesUpToRaw_text hsound hget (List.mem_cons_of_mem _ List.mem_cons_self)).bind
    fun foundDescriptor => ?_
  exact .inl ⟨(foundName, foundDescriptor), rfl⟩

private theorem resolvesUpToRaw_methodRef {owner signature : UInt16}
    (hget : pool.get? index = some (.methodRef owner signature)) :
    pool.ResolvesUpToRaw index (pool.methodRef index) := by
  have howner : (.classRef, owner) ∈ (Constant.methodRef owner signature).references :=
    List.mem_cons_self
  have hsignature : (.nameAndType, signature) ∈ (Constant.methodRef owner signature).references :=
    List.mem_cons_of_mem _ List.mem_cons_self
  have hclass : pool.ResolvesUpToRaw owner (pool.className owner) := by
    obtain ⟨found, hfound, haccepts⟩ := exists_accepts_of_mem hsound hget howner
    cases found with
    | classRef name => exact resolvesUpToRaw_className hsound hfound
    | _ => exact nomatch haccepts
  have hpair : pool.ResolvesUpToRaw signature (pool.nameAndType signature) := by
    obtain ⟨found, hfound, haccepts⟩ := exists_accepts_of_mem hsound hget hsignature
    cases found with
    | nameAndType name descriptor => exact resolvesUpToRaw_nameAndType hsound hfound
    | _ => exact nomatch haccepts
  rw [methodRef, hget]
  refine (hclass.head (refersTo_of_mem hget howner)).bind fun foundOwner => ?_
  refine (hpair.head (refersTo_of_mem hget hsignature)).bind fun foundPair => ?_
  exact .inl ⟨(foundOwner, foundPair), rfl⟩

end

/-- The references of a pool may be followed to any depth. Each resolver, applied to an entry of
its kind, fails at most at a text that cannot be read. From an entry that refers to others, a chain
of references meets usable entries only, and where it cannot be continued it has met a text. It has
at most three steps, and it never comes back. -/
structure HasSoundChains (pool : ConstantPool) : Prop where
  className : ∀ {index name}, pool.get? index = some (.classRef name) →
    pool.ResolvesUpToRaw index (pool.className index)
  string : ∀ {index text}, pool.get? index = some (.string text) →
    pool.ResolvesUpToRaw index (pool.string index)
  nameAndType : ∀ {index name descriptor}, pool.get? index = some (.nameAndType name descriptor) →
    pool.ResolvesUpToRaw index (pool.nameAndType index)
  methodRef : ∀ {index owner signature}, pool.get? index = some (.methodRef owner signature) →
    pool.ResolvesUpToRaw index (pool.methodRef index)
  usable : ∀ {index target}, Relation.TransGen pool.RefersTo index target →
    ∃ found, pool.get? target = some found ∧ found.isUnusable = false
  ends : ∀ {index target}, Relation.TransGen pool.RefersTo index target →
    (∀ next, ¬ pool.RefersTo target next) →
      ∃ found, pool.get? target = some found ∧ found.isUtf8 = true
  length_le : ∀ {index path}, List.IsChain pool.RefersTo (index :: path) → path.length ≤ 3
  acyclic : ∀ {index}, ¬ Relation.TransGen pool.RefersTo index index

private theorem hasSoundChains_of_isSoundIn {hasBootstrapMethods : Bool}
    (hsound : ∀ constant ∈ pool.slots.toList, constant.IsSoundIn pool hasBootstrapMethods) :
    pool.HasSoundChains where
  className := resolvesUpToRaw_className hsound
  string := resolvesUpToRaw_string hsound
  nameAndType := resolvesUpToRaw_nameAndType hsound
  methodRef := resolvesUpToRaw_methodRef hsound
  usable hchain := by
    obtain ⟨found, kind, hfound, haccepts⟩ := exists_of_transGen hsound hchain
    exact ⟨found, hfound, ReferenceKind.isUnusable_eq_false haccepts⟩
  ends hchain hlast := by
    obtain ⟨found, kind, hfound, haccepts⟩ := exists_of_transGen hsound hchain
    refine ⟨found, hfound, ReferenceKind.isUtf8_of_indices_eq_nil haccepts ?_⟩
    exact List.eq_nil_iff_forall_not_mem.2 fun next hmem => hlast next ⟨found, hfound, hmem⟩
  length_le hchain := Nat.le_trans (length_le_depthAt hsound hchain) depthAt_le
  acyclic hchain := Nat.lt_irrefl _ (depthAt_lt_of_transGen hsound hchain)

end ConstantPool

/-! ### Classes that pass the check of their pool -/

namespace ClassFile

variable {c : ClassFile}

/-- **Checked references can be followed.** The check looks at references one level deep. In a pool
that passes it, chains of references are sound to any depth. -/
theorem hasSoundChains_of_checkPool (hcheck : c.checkPool = .ok ()) : c.pool.HasSoundChains :=
  ConstantPool.hasSoundChains_of_isSoundIn (checkPool_eq_ok_iff.1 hcheck).2

/-- A class with a method handle in front of all that it refers to, a wide constant among these,
and a lone surrogate in place of the name of the method. -/
def tangled : ClassFile :=
  { empty with
    pool := ⟨#[.methodHandle 6 2, .methodRef 6 7, .long 0, .unusable, .utf8 "p/A", .classRef 5,
      .nameAndType 8 9, .utf8Raw [0xED, 0xA0, 0x80], .utf8 "()V"]⟩ }

/-- The resolver of the method reference meets the surrogate, at the end of a chain that is as long
as any. -/
theorem hasSoundChains_of_checkPool_tangled :
    tangled.checkPool = .ok () ∧ tangled.pool.HasSoundChains ∧
      List.IsChain tangled.pool.RefersTo [1, 2, 7, 8] ∧
      tangled.pool.methodRef 2 = .error (.notUnicode 8) := by
  have hcheck : tangled.checkPool = .ok () := by
    rw [← toOption_eq_some_iff]
    decide +kernel
  refine ⟨hcheck, hasSoundChains_of_checkPool hcheck, ?_, by cbv⟩
  exact .cons_cons ⟨_, rfl, by decide⟩ (.cons_cons ⟨_, rfl, by decide⟩
    (.cons_cons ⟨_, rfl, by decide⟩ (.singleton 8)))

end ClassFile

end ClassStub
