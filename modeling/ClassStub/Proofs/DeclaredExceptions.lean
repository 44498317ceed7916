import ClassStub.Attribute
import ClassStub.Proofs.PoolRuns

/-!
# Declared exceptions

An `Exceptions` attribute is made while the pool grows: the index of each name is written down
before the next name is interned, and a name may well be one that the pool has already, even that of
the attribute itself. It makes no difference, because nothing that stands in a pool is ever changed:
an index that was written down leads to its name in every pool that comes later
(`ConstantPool.LeadsTo.isPrefix`). So the attribute declares its classes at once and for good
(`Attribute.ofExceptions_declares`).

Reading the payload back gives the indices in their order. As elsewhere, what is read is what can be
written, and nothing else is accepted (`Attribute.decodeExceptions_eq_ok_iff`).
-/

namespace ClassStub

namespace ConstantPool

variable {pool grown later : ConstantPool}

/-- The later pool is what some actions leave, one after another, that push any constant or intern
any entry. Some of them may have failed. -/
def LeadsTo : ConstantPool → ConstantPool → Prop :=
  Relation.ReflTransGen fun pool left =>
    (∃ constant, Leaves (push constant) pool left) ∨
      ∃ wanted : Wanted, Leaves wanted.intern pool left

private theorem prefix_of_leaves_push {constant : Constant}
    (h : Leaves (push constant) pool grown) :
    pool.slots.toList <+: grown.slots.toList := by
  obtain ⟨index, hrun⟩ | ⟨error, hrun⟩ := h
  · obtain ⟨-, -, rfl⟩ := push_eq_ok_iff.1 hrun
    rw [toList_append]
    exact List.prefix_append _ _
  · obtain rfl := push_eq_error hrun
    exact List.prefix_refl _

/-- Whatever is done to a pool, what stood in it stays where it was. -/
theorem LeadsTo.isPrefix (h : grown.LeadsTo later) :
    grown.slots.toList <+: later.slots.toList := by
  induction h with
  | refl => exact List.prefix_refl _
  | tail _ hlast ih =>
    obtain ⟨constant, hpush⟩ | ⟨wanted, hintern⟩ := hlast
    · exact ih.trans (prefix_of_leaves_push hpush)
    · exact ih.trans (Wanted.internsTo_of_leaves hintern).isPrefix

private theorem utf8_of_prefix (h : pool.slots.toList <+: grown.slots.toList) {index : UInt16}
    {text : String} (htext : pool.utf8 index = .ok text) : grown.utf8 index = .ok text := by
  obtain ⟨texts, hgrows⟩ := exists_growsTo_of_prefix h
  exact hgrows.utf8 htext

private theorem className_of_prefix (h : pool.slots.toList <+: grown.slots.toList) {index : UInt16}
    {name : String} (hname : pool.className index = .ok name) :
    grown.className index = .ok name := by
  obtain ⟨texts, hgrows⟩ := exists_growsTo_of_prefix h
  exact hgrows.className hname

/-- Names are interned one after another, and in the end each index leads to its name. -/
private theorem mapM_internClass_spec {names : List String} {indices : List UInt16}
    (hsize : pool.size ≤ maxSlots) (hrun : names.mapM internClass pool = .ok indices grown) :
    pool.slots.toList <+: grown.slots.toList ∧
      List.Forall₂ (fun name index => grown.className index = .ok name) names indices := by
  obtain ⟨-, hfront, hnames⟩ := mapM_run_eq_ok (fun pool => pool.size ≤ maxSlots)
    (fun pool grown => pool.slots.toList <+: grown.slots.toList)
    (fun pool name index => pool.className index = .ok name)
    (fun pool => List.prefix_refl pool.slots.toList) (fun _ _ _ => List.IsPrefix.trans)
    (fun name pool index grown hsize hintern => by
      have hinterned := internClass_spec hsize (List.mem_singleton_self name) hintern
      exact ⟨hinterned.size_le, hinterned.grows.isPrefix, hinterned.resolved⟩)
    (fun _ _ _ _ hfront hname => className_of_prefix hfront hname) hsize hrun
  exact ⟨hfront, hnames⟩

end ConstantPool

namespace Attribute

variable {pool grown later : ConstantPool} {attr : Attribute} {classes : List String}

/-- The attribute declares some classes in a pool: it has the name for this, and its payload lists
an index for each of them, in their order. -/
structure Declares (attr : Attribute) (classes : List String) (pool : ConstantPool) : Prop where
  name : attr.name pool = .ok exceptionsName
  indices : ∃ indices, decodeExceptions attr.info = .ok indices ∧
    List.Forall₂ (fun name index => pool.className index = .ok name) classes indices

/-- What an attribute declares in a pool it declares in every later pool. -/
private theorem Declares.of_prefix (h : attr.Declares classes pool)
    (hfront : pool.slots.toList <+: later.slots.toList) : attr.Declares classes later where
  name := ConstantPool.utf8_of_prefix hfront h.name
  indices := by
    obtain ⟨indices, hdecode, hnames⟩ := h.indices
    exact ⟨indices, hdecode, hnames.imp fun _ _ => ConstantPool.className_of_prefix hfront⟩

/-- A list of indices is read from its length and its entries, and from nothing else. -/
theorem decodeExceptions_eq_ok_iff {info : Bytes} {indices : List UInt16} :
    decodeExceptions info = .ok indices ↔ indices.length ≤ 65535 ∧
      info = bigEndian 2 indices.length ++
        indices.flatMap fun index => bigEndian 2 index.toNat := by
  have hindex : Decoder.u16.Takes fun index bytes => True ∧ bytes = bigEndian 2 index.toNat :=
    Decoder.takes_u16.congr fun _ _ => (true_and _).symm.to_iff
  rw [decodeExceptions, Decoder.runAll_eq_ok_iff (Decoder.takes_counted hindex)]
  simp only [implies_true, and_true]
  exact and_congr_left' Nat.lt_succ_iff

private theorem declares_of_ofExceptions (hsize : pool.size ≤ ConstantPool.maxSlots)
    (hcount : classes.length ≤ 65535) (hrun : ofExceptions classes pool = .ok attr grown) :
    pool.slots.toList <+: grown.slots.toList ∧ attr.Declares classes grown := by
  obtain ⟨nameIndex, middle, hname, hrun⟩ := bind_run_eq_ok_iff.1 hrun
  obtain ⟨indices, _, hindices, hpure⟩ := bind_run_eq_ok_iff.1 hrun
  obtain ⟨rfl, rfl⟩ := pure_run_eq_ok_iff.1 hpure
  have hinterned := ConstantPool.internUtf8_spec hsize (List.mem_singleton_self _) hname
  obtain ⟨hfront, hnames⟩ := ConstantPool.mapM_internClass_spec hinterned.size_le hindices
  -- there are as many indices as names, so their number can be written
  have hlength : indices.length ≤ 65535 := hnames.length_eq ▸ hcount
  exact ⟨hinterned.grows.isPrefix.trans hfront,
    ConstantPool.utf8_of_prefix hfront hinterned.resolved,
    indices, decodeExceptions_eq_ok_iff.2 ⟨hlength, rfl⟩, hnames⟩

/-- **Declared exceptions are read back.** An attribute that was made for some classes declares them
in the pool that is left and in every later one, and the pool only grows. Conversely the payloads
that are read are the written lists of indices: their number in sixteen bits, and then each of
them. -/
theorem ofExceptions_declares (pool : ConstantPool) (classes : List String)
    (hsize : pool.size ≤ ConstantPool.maxSlots) (hcount : classes.length ≤ 65535) :
    (∀ attr grown, ofExceptions classes pool = .ok attr grown →
      ∀ later, grown.LeadsTo later →
        pool.slots.toList <+: later.slots.toList ∧ attr.Declares classes later) ∧
    ∀ info indices, decodeExceptions info = .ok indices ↔ indices.length ≤ 65535 ∧
      info = bigEndian 2 indices.length ++
        indices.flatMap fun index => bigEndian 2 index.toNat := by
  refine ⟨fun attr grown hrun later hlater => ?_, fun _ _ => decodeExceptions_eq_ok_iff⟩
  obtain ⟨hfront, hdeclares⟩ := declares_of_ofExceptions hsize hcount hrun
  exact ⟨hfront.trans hlater.isPrefix, hdeclares.of_prefix hlater.isPrefix⟩

/-- A pool with a wide constant and one text twice. -/
def thrownPool : ConstantPool := ⟨#[.long 7, .unusable, .utf8 "p/E", .utf8 "p/E"]⟩

/-- The names of two classes, of which one is called like the attribute and the other comes
twice. -/
def thrownClasses : List String := [exceptionsName, "p/E", "p/E"]

/-- `thrownPool` with the entries for an attribute that declares `thrownClasses`. -/
def thrownGrown : ConstantPool :=
  ⟨#[.long 7, .unusable, .utf8 "p/E", .utf8 "p/E", .utf8 exceptionsName, .classRef 5, .classRef 3]⟩

theorem ofExceptions_declares_thrownClasses :
    thrownPool.size ≤ ConstantPool.maxSlots ∧ thrownClasses.length ≤ 65535 ∧
    ofExceptions thrownClasses thrownPool = .ok ⟨5, [0, 3, 0, 6, 0, 7, 0, 7]⟩ thrownGrown ∧
    thrownPool.slots.toList <+: (thrownGrown.append .unusable).slots.toList ∧
    Declares ⟨5, [0, 3, 0, 6, 0, 7, 0, 7]⟩ thrownClasses (thrownGrown.append .unusable) := by
  have hsize : thrownPool.size ≤ ConstantPool.maxSlots := by decide
  have hcount : thrownClasses.length ≤ 65535 := by decide
  have hrun : ofExceptions thrownClasses thrownPool =
      .ok ⟨5, [0, 3, 0, 6, 0, 7, 0, 7]⟩ thrownGrown := by
    rw [← ending?_eq_some_iff]
    decide +kernel
  have hlater : thrownGrown.LeadsTo (thrownGrown.append .unusable) :=
    .single (.inl ⟨.unusable, .inl ⟨8, rfl⟩⟩)
  obtain ⟨hmade, -⟩ := ofExceptions_declares thrownPool thrownClasses hsize hcount
  exact ⟨hsize, hcount, hrun, hmade _ _ hrun _ hlater⟩

end Attribute

end ClassStub
