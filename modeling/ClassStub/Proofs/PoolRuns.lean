import ClassStub.Proofs.PoolRequests

/-!
# Runs of requests

A pool that was empty at first is well formed after any requests (`ConstantPool.serveAll_sound`).
It has at most 65534 slots, the second slot of a wide constant follows the first, and the index
that a request is answered with stands for what was asked for in every later pool.

Two facts about a single request carry this over a run. The pool that it leaves is no larger than
a pool may be and laid out well (`IsOrderly.serve`), and it starts with the slots that were there
before (`prefix_serve`). The first makes an index fit in sixteen bits, for positions and indices
then match one to one, and the second keeps it.
-/

namespace ClassStub

/-- The text that the constant is, if it is one. -/
def Constant.text? : Constant → Option String
  | utf8 text => some text
  | _ => none

namespace ConstantPool

variable {pool grown : ConstantPool} {index : UInt16} {constant : Constant}

/-! ### What every request keeps -/

/-- A request to push an entry is ignored if there is no room for it. -/
theorem serve_push (pool : ConstantPool) (usable : constant.isUnusable = false) :
    pool.serve (.push constant usable) =
      if pool.size + constant.width > maxSlots then pool else pool.append constant := by
  rw [serve, Request.action, push]
  by_cases hfull : pool.size + constant.width > maxSlots
  · rw [if_pos hfull, if_pos hfull]
  · rw [if_neg hfull, if_neg hfull]

/-- A request to intern something interns it, or the parts of it for which there was room. -/
theorem internsTo_serve (pool : ConstantPool) (wanted : Wanted) :
    pool.InternsTo (pool.serve (.intern wanted)) :=
  Wanted.internsTo_of_leaves (leaves_serve pool (.intern wanted))

/-- The pool is no larger than a pool may be, and its slots are laid out well. -/
structure IsOrderly (pool : ConstantPool) : Prop where
  size_le : pool.size ≤ maxSlots
  laidOut : LaidOut false pool.slots.toList

private theorem isOrderly_empty : empty.IsOrderly :=
  ⟨Nat.zero_le _, rfl⟩

private theorem IsOrderly.append (h : pool.IsOrderly) (usable : constant.isUnusable = false)
    (hfits : pool.size + constant.width ≤ maxSlots) : (pool.append constant).IsOrderly where
  size_le := by rwa [size_append]
  laidOut := by rwa [toList_append, laidOut_append h.laidOut, laidOut_slots]

/-- Each request leaves an orderly pool. -/
theorem IsOrderly.serve (h : pool.IsOrderly) (request : Request) :
    (pool.serve request).IsOrderly := by
  cases request with
  | push constant usable =>
    rw [serve_push]
    split
    case isTrue => exact h
    case isFalse hfits => exact h.append usable (Nat.not_lt.1 hfits)
  | intern wanted =>
    refine (internsTo_serve pool wanted).induction h fun wanted _ _ _ hmiddle hrun => ?_
    have hgains := Wanted.intern_gains hrun
    exact ⟨hgains.size_le hmiddle.size_le, hgains.laidOut hmiddle.laidOut⟩

private theorem IsOrderly.serveAll (h : pool.IsOrderly) (requests : List Request) :
    (pool.serveAll requests).IsOrderly := by
  induction requests generalizing pool with
  | nil => exact h
  | cons request requests ih => exact ih (h.serve request)

/-- A later pool starts with the slots of the pool. -/
theorem GrowsTo.isPrefix {texts : List String} (h : pool.GrowsTo texts grown) :
    pool.slots.toList <+: grown.slots.toList := by
  obtain ⟨added, hslots, -⟩ := h
  exact ⟨added, hslots.symm⟩

/-- Interning only appends, whether or not it fails. -/
theorem InternsTo.isPrefix (h : pool.InternsTo grown) :
    pool.slots.toList <+: grown.slots.toList := by
  refine h.induction (motive := fun left => pool.slots.toList <+: left.slots.toList)
    (List.prefix_refl _) fun wanted _ _ _ hmiddle hrun => ?_
  exact hmiddle.trans (Wanted.intern_gains hrun).growsTo.isPrefix

/-- A request only appends, whether or not it fails. -/
theorem prefix_serve (pool : ConstantPool) (request : Request) :
    pool.slots.toList <+: (pool.serve request).slots.toList := by
  cases request with
  | push constant usable =>
    rw [serve_push]
    split
    · exact List.prefix_refl _
    · rw [toList_append]
      exact List.prefix_append _ _
  | intern wanted => exact (internsTo_serve pool wanted).isPrefix

private theorem prefix_serveAll (pool : ConstantPool) (requests : List Request) :
    pool.slots.toList <+: (pool.serveAll requests).slots.toList := by
  induction requests generalizing pool with
  | nil => exact List.prefix_refl _
  | cons request requests ih => exact (prefix_serve pool request).trans (ih (pool.serve request))

/-- A pool that starts with the slots of another one has grown from it. -/
theorem exists_growsTo_of_prefix (h : pool.slots.toList <+: grown.slots.toList) :
    ∃ texts, pool.GrowsTo texts grown := by
  obtain ⟨added, hadded⟩ := h
  refine ⟨added.filterMap Constant.text?, added, hadded.symm, fun text hmem => ?_⟩
  exact List.mem_filterMap.2 ⟨.utf8 text, hmem, rfl⟩

/-! ### What a request answers -/

private theorem Wanted.IsAt.exists_get? {wanted : Wanted} (h : wanted.IsAt pool index) :
    ∃ constant, pool.get? index = some constant := by
  cases wanted with
  | utf8 text => exact ⟨_, utf8_eq_ok_iff.1 h⟩
  | classRef name =>
    obtain ⟨_, hget, -⟩ := className_eq_ok_iff.1 h
    exact ⟨_, hget⟩
  | string text =>
    obtain ⟨_, hget, -⟩ := string_eq_ok_iff.1 h
    exact ⟨_, hget⟩
  | nameAndType name descriptor =>
    obtain ⟨_, _, hget, -⟩ := nameAndType_eq_ok_iff.1 h
    exact ⟨_, hget⟩
  | methodRef owner name descriptor =>
    obtain ⟨_, _, hget, -⟩ := methodRef_eq_ok_iff.1 h
    exact ⟨_, hget⟩

/-- What is at an index stays there. -/
theorem Wanted.IsAt.grow {texts : List String} {wanted : Wanted} (h : wanted.IsAt pool index)
    (hgrows : pool.GrowsTo texts grown) : wanted.IsAt grown index := by
  cases wanted with
  | utf8 text => exact hgrows.utf8 h
  | classRef name => exact hgrows.className h
  | string text => exact hgrows.string h
  | nameAndType name descriptor => exact hgrows.nameAndType h
  | methodRef owner name descriptor => exact hgrows.methodRef h

private theorem Request.IsMetAt.exists_get? {request : Request} (h : request.IsMetAt pool index) :
    ∃ constant, pool.get? index = some constant := by
  cases request with
  | push constant usable => exact ⟨constant, h⟩
  | intern wanted => exact Wanted.IsAt.exists_get? h

/-- A request that is met at an index stays met there. -/
theorem Request.IsMetAt.grow {texts : List String} {request : Request}
    (h : request.IsMetAt pool index) (hgrows : pool.GrowsTo texts grown) :
    request.IsMetAt grown index := by
  cases request with
  | push constant usable => exact hgrows.get? h
  | intern wanted => exact Wanted.IsAt.grow h hgrows

private theorem Request.isMetAt_of_ok {request : Request} (hsize : pool.size ≤ maxSlots)
    (hrun : request.action pool = .ok index grown) : request.IsMetAt grown index := by
  cases request with
  | push constant usable =>
    obtain ⟨hfits, rfl, rfl⟩ := push_eq_ok_iff.1 hrun
    have hwidth := constant.width_pos
    exact get?_append (by omega) constant
  | intern wanted => exact Wanted.isAt_of_intern hsize hrun

/-- What a request asked for stands at the index it answers with, in every later pool. -/
private theorem Request.isMetAt_serveAll {request : Request} (hsize : pool.size ≤ maxSlots)
    (hrun : request.action pool = .ok index grown) (requests : List Request) :
    request.IsMetAt (pool.serveAll (request :: requests)) index := by
  have hserve : pool.serve request = grown := by rw [serve, hrun]
  obtain ⟨texts, hgrows⟩ := exists_growsTo_of_prefix (prefix_serveAll grown requests)
  rw [ConstantPool.serveAll, List.foldl_cons, hserve]
  exact (Request.isMetAt_of_ok hsize hrun).grow hgrows

/-- Nothing is at the index zero. -/
theorem toNat_pos_of_get? (h : pool.get? index = some constant) : 0 < index.toNat := by
  refine Nat.pos_of_ne_zero fun hzero => (get?_eq_some_iff.1 h).1 ?_
  exact UInt16.toNat_inj.1 hzero

/-! ### Slots and entries -/

private theorem laidOut_getElem?_zero {afterWide : Bool} {slots : List Constant}
    (h : LaidOut afterWide slots) : slots[0]? = some .unusable ↔ afterWide = true := by
  cases slots with
  | nil =>
    rw [show afterWide = false from h]
    simp
  | cons constant rest =>
    rw [← h.1]
    cases constant <;> simp [Constant.isUnusable]

/-- A slot that is laid out well is unusable exactly when the one before it is wide. -/
private theorem laidOut_getElem?_succ {afterWide : Bool} {slots : List Constant}
    (h : LaidOut afterWide slots) (position : Nat) :
    slots[position + 1]? = some .unusable ↔
      ∃ wide, slots[position]? = some wide ∧ wide.isWide = true := by
  induction slots generalizing afterWide position with
  | nil => simp
  | cons constant rest ih =>
    cases position with
    | zero => simp [laidOut_getElem?_zero h.2]
    | succ position => simpa using ih h.2 position

/-- The last slot is not that of a wide constant, whose second slot would be missing. -/
private theorem isWide_getLast?_of_laidOut {afterWide : Bool} {slots : List Constant}
    (h : LaidOut afterWide slots) {last : Constant} (hlast : slots.getLast? = some last) :
    last.isWide = false := by
  refine eq_false_of_ne_true fun hwide => ?_
  rw [List.getLast?_eq_getElem?] at hlast
  obtain ⟨hlt, -⟩ := List.getElem?_eq_some_iff.1 hlast
  have hbehind := (laidOut_getElem?_succ h (slots.length - 1)).2 ⟨last, hlast, hwide⟩
  obtain ⟨hlt', -⟩ := List.getElem?_eq_some_iff.1 hbehind
  omega

private theorem mem_entries_iff (hsize : pool.size ≤ maxSlots) :
    (index, constant) ∈ pool.entries ↔
      pool.get? index = some constant ∧ constant.isUnusable = false := by
  rw [entries, List.mem_filterMap]
  simp only [Prod.exists, List.mem_zipIdx_iff_le_and_getElem?_sub]
  constructor
  · rintro ⟨other, position, ⟨hpos, hslot⟩, hentry⟩
    obtain ⟨husable, hentry⟩ := Option.ite_none_left_eq_some.1 hentry
    rw [Option.some.injEq, Prod.mk.injEq] at hentry
    obtain ⟨rfl, rfl⟩ := hentry
    obtain ⟨hlt, -⟩ := List.getElem?_eq_some_iff.1 hslot
    rw [Array.length_toList] at hlt
    have hget : pool.get? _ = _ := get?_ofNat (Nat.lt_of_lt_of_le hlt hsize)
    rw [Nat.sub_add_cancel hpos, ← Array.getElem?_toList, hslot] at hget
    exact ⟨hget, eq_false_of_ne_true husable⟩
  · rintro ⟨hget, husable⟩
    refine ⟨constant, index.toNat, ⟨toNat_pos_of_get? hget, (get?_eq_some_iff.1 hget).2⟩, ?_⟩
    rw [husable, if_neg (by decide), UInt16.ofNat_toNat]

/-- The indices of the entries increase, so no entry is listed twice. -/
private theorem pairwise_entries (hsize : pool.size ≤ maxSlots) :
    (pool.entries.map fun entry => entry.1.toNat).Pairwise (· < ·) := by
  rw [List.pairwise_map, entries, List.pairwise_filterMap]
  have hpositions : (pool.slots.toList.zipIdx 1).Pairwise fun a b => a.2 < b.2 := by
    rw [← List.pairwise_map, List.zipIdx_map_snd]
    exact List.pairwise_lt_range'
  refine hpositions.imp_of_mem fun {a b} ha hb hlt first hfirst second hsecond => ?_
  have hbound : ∀ slot ∈ pool.slots.toList.zipIdx 1, slot.2 < UInt16.size := by
    intro slot hmem
    have hslot := List.snd_lt_of_mem_zipIdx hmem
    rw [Array.length_toList] at hslot
    rw [size, maxSlots] at hsize
    rw [UInt16.size]
    omega
  obtain ⟨-, hfirst⟩ := Option.ite_none_left_eq_some.1 hfirst
  obtain ⟨-, hsecond⟩ := Option.ite_none_left_eq_some.1 hsecond
  obtain rfl := Option.some.inj hfirst
  obtain rfl := Option.some.inj hsecond
  rwa [UInt16.toNat_ofNat_of_lt' (hbound a ha), UInt16.toNat_ofNat_of_lt' (hbound b hb)]

/-! ### Runs of requests -/

/-- What the representation of a pool promises to those who read it. -/
structure IsWellFormed (pool : ConstantPool) : Prop where
  size_le : pool.size ≤ maxSlots
  first_usable : pool.slots.toList[0]? ≠ some .unusable
  /-- A slot behind another one is unusable exactly when the other is wide. -/
  unusable_iff (position : Nat) : pool.slots.toList[position + 1]? = some .unusable ↔
    ∃ wide, pool.slots.toList[position]? = some wide ∧ wide.isWide = true
  last_not_wide (last : Constant) : pool.slots.toList.getLast? = some last → last.isWide = false
  mem_entries_iff (index : UInt16) (constant : Constant) : (index, constant) ∈ pool.entries ↔
    pool.get? index = some constant ∧ constant.isUnusable = false
  pairwise_entries : (pool.entries.map fun entry => entry.1.toNat).Pairwise (· < ·)

private theorem IsOrderly.isWellFormed (h : pool.IsOrderly) : pool.IsWellFormed where
  size_le := h.size_le
  first_usable hfirst := nomatch (laidOut_getElem?_zero h.laidOut).1 hfirst
  unusable_iff position := laidOut_getElem?_succ h.laidOut position
  last_not_wide _ hlast := isWide_getLast?_of_laidOut h.laidOut hlast
  mem_entries_iff _ _ := ConstantPool.mem_entries_iff h.size_le
  pairwise_entries := ConstantPool.pairwise_entries h.size_le

/-- **Pools keep their representation.** Whatever was asked of a pool that was empty at first, it
is well formed, and each request that succeeded was answered with an index at which the pool holds
what was asked for, at once and after all later requests. A request that fails only appends, and
one to push a constant does not even do this. -/
theorem serveAll_sound (requests : List Request) :
    (empty.serveAll requests).IsWellFormed ∧
      (∀ before (request : Request) after index grown, requests = before ++ request :: after →
        request.action (empty.serveAll before) = .ok index grown →
        1 ≤ index.toNat ∧ index.toNat ≤ maxSlots ∧
          request.IsMetAt (empty.serveAll requests) index) ∧
      ∀ (request : Request) error left,
        request.action (empty.serveAll requests) = .error error left →
        (empty.serveAll requests).slots.toList <+: left.slots.toList ∧
          ∀ constant usable, request = .push constant usable → left = empty.serveAll requests := by
  have horderly := isOrderly_empty.serveAll requests
  refine ⟨horderly.isWellFormed, ?_, ?_⟩
  · rintro before request after index grown rfl hrun
    -- what was met when the request was served is met after the later ones
    have hmet : request.IsMetAt (empty.serveAll (before ++ request :: after)) index := by
      rw [serveAll, List.foldl_append]
      exact Request.isMetAt_serveAll (isOrderly_empty.serveAll before).size_le hrun after
    obtain ⟨constant, hget⟩ := hmet.exists_get?
    exact ⟨toNat_pos_of_get? hget, Nat.le_trans (toNat_le_of_get? hget) horderly.size_le, hmet⟩
  · intro request error left hrun
    refine ⟨?_, ?_⟩
    · have hprefix := prefix_serve (empty.serveAll requests) request
      rwa [serve, hrun] at hprefix
    · rintro constant usable rfl
      exact push_eq_error hrun

/-- A text behind a wide constant has the third index, and keeps it. -/
theorem serveAll_sound_wide :
    Request.action (.intern (.utf8 "p/A")) (empty.serveAll [.push (.long 7) rfl]) =
        .ok 3 ⟨#[.long 7, .unusable, .utf8 "p/A"]⟩ ∧
      (1 ≤ (3 : UInt16).toNat ∧ (3 : UInt16).toNat ≤ maxSlots ∧
        utf8 (empty.serveAll [.push (.long 7) rfl, .intern (.utf8 "p/A"),
          .intern (.classRef "p/A")]) 3 = .ok "p/A") := by
  have hrun : Request.action (.intern (.utf8 "p/A")) (empty.serveAll [.push (.long 7) rfl]) =
      .ok 3 ⟨#[.long 7, .unusable, .utf8 "p/A"]⟩ := by
    rw [← ending?_eq_some_iff]
    decide +kernel
  obtain ⟨-, hanswers, -⟩ := serveAll_sound
    [.push (.long 7) rfl, .intern (.utf8 "p/A"), .intern (.classRef "p/A")]
  exact ⟨hrun, hanswers [.push (.long 7) rfl] (.intern (.utf8 "p/A"))
    [.intern (.classRef "p/A")] 3 _ rfl hrun⟩

end ConstantPool

end ClassStub
