import ClassStub.Proofs.NewEntries

/-!
# Pools that are built by requests

A pool starts empty and is built by requests: to append a constant, or to intern an entry for
given texts (`ConstantPool.Request`). Each request answers with an index or fails because the
pool is full, and a request that fails may have appended something before it did.

What such a request leaves is nothing new, however: an action that interns an entry fails only
after it has interned some parts of it, so what it leaves is what these smaller actions leave when
they succeed (`Wanted.internsTo_of_leaves`). Everything that successful actions keep is therefore
kept by failing ones as well (`InternsTo.induction`).
-/

namespace ClassStub

namespace ConstantPool

variable {pool middle left grown : ConstantPool} {index : UInt16} {constant : Constant}

/-! ### Requests -/

/-- What interning may be asked for: an entry of some kind that spells given texts. -/
inductive Wanted where
  | utf8 (text : String)
  | classRef (name : String)
  | string (text : String)
  | nameAndType (name descriptor : String)
  | methodRef (owner name descriptor : String)

/-- The action that interns the entry. -/
def Wanted.intern : Wanted → PoolAction UInt16
  | utf8 text => internUtf8 text
  | classRef name => internClass name
  | string text => internString text
  | nameAndType name descriptor => internNameAndType name descriptor
  | methodRef owner name descriptor => internMethodRef owner name descriptor

/-- The resolver of the kind takes the index back to the texts. -/
def Wanted.IsAt (pool : ConstantPool) (index : UInt16) : Wanted → Prop
  | utf8 text => pool.utf8 index = .ok text
  | classRef name => pool.className index = .ok name
  | string text => pool.string index = .ok text
  | nameAndType name descriptor => pool.nameAndType index = .ok (name, descriptor)
  | methodRef owner name descriptor => pool.methodRef index = .ok (owner, name, descriptor)

/-- The texts that the entry spells. -/
def Wanted.texts : Wanted → List String
  | utf8 text | classRef text | string text => [text]
  | nameAndType name descriptor => [name, descriptor]
  | methodRef owner name descriptor => [owner, name, descriptor]

/-- A request to a pool. An unusable slot comes with its wide constant and is not asked for. -/
inductive Request where
  | push (constant : Constant) (usable : constant.isUnusable = false)
  | intern (wanted : Wanted)

/-- The action that a request asks for. -/
def Request.action : Request → PoolAction UInt16
  | push constant _ => ConstantPool.push constant
  | intern wanted => wanted.intern

/-- What was asked for stands at the index. -/
def Request.IsMetAt (pool : ConstantPool) (index : UInt16) : Request → Prop
  | push constant _ => pool.get? index = some constant
  | intern wanted => wanted.IsAt pool index

/-- The pool that a request leaves, whether or not it fails. -/
def serve (pool : ConstantPool) (request : Request) : ConstantPool :=
  match request.action pool with
  | .ok _ grown => grown
  | .error _ left => left

/-- The pool that is left when requests were served one after another. -/
def serveAll (pool : ConstantPool) (requests : List Request) : ConstantPool :=
  requests.foldl serve pool

/-! ### What an action leaves -/

/-- The action leaves a pool behind, as a success or as a failure. -/
def Leaves {α : Type} (action : PoolAction α) (pool left : ConstantPool) : Prop :=
  (∃ a, action pool = .ok a left) ∨ ∃ error, action pool = .error error left

/-- A pool that serves a request is left by the action for it, whether this succeeds or fails. -/
theorem leaves_serve (pool : ConstantPool) (request : Request) :
    Leaves request.action pool (pool.serve request) := by
  rw [serve]
  cases hrun : request.action pool with
  | ok index grown => exact .inl ⟨index, hrun⟩
  | error error left => exact .inr ⟨error, hrun⟩

variable {α β : Type}

private theorem Leaves.of_bind {first : PoolAction α} {next : α → PoolAction β}
    (h : Leaves (first >>= next) pool left) :
    Leaves first pool left ∨
      ∃ a middle, first pool = .ok a middle ∧ Leaves (next a) middle left := by
  rcases h with ⟨b, hrun⟩ | ⟨error, hrun⟩
  · obtain ⟨a, middle, hfirst, hnext⟩ := bind_run_eq_ok_iff.1 hrun
    exact .inr ⟨a, middle, hfirst, .inl ⟨b, hnext⟩⟩
  · rcases bind_run_eq_error_iff.1 hrun with hfirst | ⟨a, middle, hfirst, hnext⟩
    · exact .inl (.inr ⟨error, hfirst⟩)
    · exact .inr ⟨a, middle, hfirst, .inr ⟨error, hnext⟩⟩

private theorem Leaves.of_pure {a : α} (h : Leaves (pure a : PoolAction α) pool left) :
    left = pool := by
  rcases h with ⟨b, hrun⟩ | ⟨error, hrun⟩
  · exact (pure_run_eq_ok_iff.1 hrun).2.symm
  · exact nomatch hrun

/-- What is done with a result does not change the pool. -/
private theorem Leaves.of_map {first : PoolAction α} {f : α → β}
    (h : Leaves (first >>= fun a => pure (f a)) pool left) : Leaves first pool left := by
  rcases h.of_bind with hfirst | ⟨a, middle, hfirst, hpure⟩
  · exact hfirst
  · obtain rfl := hpure.of_pure
    exact .inl ⟨a, hfirst⟩

/-- An entry that is refused leaves the pool as it was. -/
theorem push_eq_error {error : PoolError} (hrun : push constant pool = .error error left) :
    left = pool := by
  rw [push] at hrun
  split at hrun
  · injection hrun with _ hleft
    exact hleft.symm
  · cases hrun

/-- Interning fails in the pool that its parts were interned in. -/
private theorem leaves_of_internWith_eq_error {found : ConstantPool → Option UInt16}
    {build : PoolAction Constant} {error : PoolError}
    (hrun : internWith found build pool = .error error left) : Leaves build pool left := by
  rw [internWith] at hrun
  rcases bind_run_eq_error_iff.1 hrun with hget | ⟨_, _, ⟨⟩, hrun⟩
  · cases hget
  · cases hfound : found pool with
    | some index =>
      rw [hfound] at hrun
      cases hrun
    | none =>
      rw [hfound] at hrun
      rcases bind_run_eq_error_iff.1 hrun with hbuild | ⟨constant, middle, hbuild, hpush⟩
      · exact .inr ⟨error, hbuild⟩
      · obtain rfl := push_eq_error hpush
        exact .inl ⟨constant, hbuild⟩

/-! ### Failures leave what successes leave -/

/-- The later pool is left by some successful interning actions, one after another. -/
def InternsTo : ConstantPool → ConstantPool → Prop :=
  Relation.ReflTransGen fun pool grown =>
    ∃ (wanted : Wanted) (index : UInt16), wanted.intern pool = .ok index grown

private theorem internsTo_of_intern (wanted : Wanted)
    (hrun : wanted.intern pool = .ok index grown) :
    pool.InternsTo grown :=
  .single ⟨wanted, index, hrun⟩

private theorem internsTo_of_leaves_utf8 {text : String}
    (h : Leaves (internUtf8 text) pool left) : pool.InternsTo left := by
  rcases h with ⟨index, hrun⟩ | ⟨error, hrun⟩
  · exact internsTo_of_intern (.utf8 text) hrun
  · rw [(leaves_of_internWith_eq_error hrun).of_pure]
    exact .refl

private theorem internsTo_of_leaves_classRef {name : String}
    (h : Leaves (internClass name) pool left) : pool.InternsTo left := by
  rcases h with ⟨index, hrun⟩ | ⟨error, hrun⟩
  · exact internsTo_of_intern (.classRef name) hrun
  · exact internsTo_of_leaves_utf8 (leaves_of_internWith_eq_error hrun).of_map

private theorem internsTo_of_leaves_string {text : String}
    (h : Leaves (internString text) pool left) : pool.InternsTo left := by
  rcases h with ⟨index, hrun⟩ | ⟨error, hrun⟩
  · exact internsTo_of_intern (.string text) hrun
  · exact internsTo_of_leaves_utf8 (leaves_of_internWith_eq_error hrun).of_map

private theorem internsTo_of_leaves_nameAndType {name descriptor : String}
    (h : Leaves (internNameAndType name descriptor) pool left) : pool.InternsTo left := by
  rcases h with ⟨index, hrun⟩ | ⟨error, hrun⟩
  · exact internsTo_of_intern (.nameAndType name descriptor) hrun
  · rcases (leaves_of_internWith_eq_error hrun).of_bind with hname | ⟨_, _, hname, hrest⟩
    · exact internsTo_of_leaves_utf8 hname
    · exact (internsTo_of_leaves_utf8 (.inl ⟨_, hname⟩)).trans
        (internsTo_of_leaves_utf8 hrest.of_map)

private theorem internsTo_of_leaves_methodRef {owner name descriptor : String}
    (h : Leaves (internMethodRef owner name descriptor) pool left) : pool.InternsTo left := by
  rcases h with ⟨index, hrun⟩ | ⟨error, hrun⟩
  · exact internsTo_of_intern (.methodRef owner name descriptor) hrun
  · rcases (leaves_of_internWith_eq_error hrun).of_bind with howner | ⟨_, _, howner, hrest⟩
    · exact internsTo_of_leaves_classRef howner
    · exact (internsTo_of_leaves_classRef (.inl ⟨_, howner⟩)).trans
        (internsTo_of_leaves_nameAndType hrest.of_map)

/-- Whether or not interning an entry fails, the pool that it leaves is one that successful
actions leave. -/
theorem Wanted.internsTo_of_leaves {wanted : Wanted} (h : Leaves wanted.intern pool left) :
    pool.InternsTo left := by
  cases wanted with
  | utf8 text => exact internsTo_of_leaves_utf8 h
  | classRef name => exact internsTo_of_leaves_classRef h
  | string text => exact internsTo_of_leaves_string h
  | nameAndType name descriptor => exact internsTo_of_leaves_nameAndType h
  | methodRef owner name descriptor => exact internsTo_of_leaves_methodRef h

/-! ### Successful actions -/

/-- Interning what is wanted gains its texts and entries for them, at most. -/
theorem Wanted.intern_gains {wanted : Wanted} (hrun : wanted.intern pool = .ok index grown) :
    pool.Gains wanted.texts grown := by
  cases wanted with
  | utf8 text => exact internUtf8_gains (by simp [texts]) hrun
  | classRef name => exact internClass_gains (by simp [texts]) hrun
  | string text => exact internString_gains (by simp [texts]) hrun
  | nameAndType name descriptor =>
    exact internNameAndType_gains (by simp [texts]) (by simp [texts]) hrun
  | methodRef owner name descriptor =>
    exact internMethodRef_gains (by simp [texts]) (by simp [texts]) (by simp [texts]) hrun

/-- What is wanted is at the index that interning it gives. -/
theorem Wanted.isAt_of_intern {wanted : Wanted} (hsize : pool.size ≤ maxSlots)
    (hrun : wanted.intern pool = .ok index grown) : wanted.IsAt grown index := by
  cases wanted with
  | utf8 text => exact (internUtf8_spec hsize (List.mem_singleton_self text) hrun).resolved
  | classRef name => exact (internClass_spec hsize (List.mem_singleton_self name) hrun).resolved
  | string text => exact (internString_spec hsize (List.mem_singleton_self text) hrun).resolved
  | nameAndType name descriptor =>
    have hinterned : Interned [name, descriptor] pool grown _ :=
      internNameAndType_spec hsize (by simp) (by simp) hrun
    exact hinterned.resolved
  | methodRef owner name descriptor =>
    have hinterned : Interned [owner, name, descriptor] pool grown _ :=
      internMethodRef_spec hsize (by simp) (by simp) (by simp) hrun
    exact hinterned.resolved

/-- What is kept by interning an entry of any kind is kept by all that interning leaves. -/
theorem InternsTo.induction {motive : ConstantPool → Prop} (h : pool.InternsTo left)
    (hpool : motive pool)
    (hstep : ∀ (wanted : Wanted) (index : UInt16) (middle grown : ConstantPool), motive middle →
      wanted.intern middle = .ok index grown → motive grown) : motive left := by
  induction h with
  | refl => exact hpool
  | tail _ hlast ih =>
    obtain ⟨wanted, index, hrun⟩ := hlast
    exact hstep wanted index _ _ ih hrun

end ConstantPool

end ClassStub
