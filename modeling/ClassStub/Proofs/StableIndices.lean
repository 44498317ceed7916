import ClassStub.Proofs.UniqueEntries

/-!
# Interning into a checked pool

The pool of a class may hold duplicates, and then interning an entry gives one of several indices
that spell the same. Still the answer is stable: whatever is interned later, the index resolves to
the texts that were asked for, and asking again gives the same index and adds nothing
(`ClassFile.intern_of_checkPool`).

This is not so for every pool. A class entry may refer to a slot behind the pool, and once the
name of a class is appended there, this older entry is found in place of the one that interning
returned. A pool that passes the check has no such entry; it is closed, and so are all the pools
that interning makes of it. In a closed pool an interned entry is found where it was put
(`Wanted.find?_of_intern`), what is found stays found (`Wanted.find?_of_growsTo`), and interning
what is found does nothing (`Wanted.intern_of_find?`).
-/

namespace ClassStub

namespace ConstantPool

variable {pool left grown : ConstantPool} {index : UInt16} {texts : List String} {wanted : Wanted}

/-! ### Interned entries are found -/

/-- What was found is found at the same index later. -/
theorem Wanted.find?_of_growsTo (h : pool.GrowsTo texts grown)
    (hfind : wanted.find? pool = some index) : wanted.find? grown = some index := by
  cases wanted with
  | utf8 text => exact h.findUtf8? hfind
  | classRef name => exact h.findClass? hfind
  | string text => exact h.findString? hfind
  | nameAndType name descriptor => exact h.findNameAndType? hfind
  | methodRef owner name descriptor => exact h.findMethodRef? hfind

/-- What was interned is found. -/
theorem Wanted.find?_of_intern (hclosed : pool.IsClosed)
    (hrun : wanted.intern pool = .ok index grown) : wanted.find? grown = some index := by
  cases wanted with
  | utf8 text => exact internUtf8_found hrun
  | classRef name => exact internClass_found hclosed hrun
  | string text => exact internString_found hclosed hrun
  | nameAndType name descriptor => exact internNameAndType_found hclosed hrun
  | methodRef owner name descriptor => exact internMethodRef_found hclosed hrun

/-- What is found is interned without any change to the pool. -/
theorem Wanted.intern_of_find? (hfind : wanted.find? pool = some index) :
    wanted.intern pool = .ok index pool := by
  cases wanted with
  | utf8 text => exact internWith_of_found hfind
  | classRef name => exact internWith_of_found hfind
  | string text => exact internWith_of_found hfind
  | nameAndType name descriptor => exact internWith_of_found hfind
  | methodRef owner name descriptor => exact internWith_of_found hfind

/-! ### Runs of interning -/

/-- The pool that is left when entries were asked for one after another, some of them perhaps in
vain. -/
def internAll (pool : ConstantPool) (wanted : List Wanted) : ConstantPool :=
  pool.serveAll (wanted.map .intern)

private theorem internsTo_internAll (pool : ConstantPool) (wanted : List Wanted) :
    pool.InternsTo (pool.internAll wanted) := by
  induction wanted generalizing pool with
  | nil => exact .refl
  | cons first others ih =>
    exact (internsTo_serve pool first).trans (ih (pool.serve (.intern first)))

private theorem InternsTo.exists_gains (h : pool.InternsTo left) :
    ∃ texts, pool.Gains texts left := by
  refine h.induction (motive := fun left => ∃ texts, pool.Gains texts left) ⟨[], .refl _ _⟩ ?_
  rintro wanted index middle grown ⟨texts, hgains⟩ hrun
  have hmore := Wanted.intern_gains hrun
  exact ⟨texts ++ wanted.texts, (hgains.mono (List.subset_append_left _ _)).trans
    (hmore.mono (List.subset_append_right _ _))⟩

end ConstantPool

/-! ### Classes that pass the check of their pool -/

namespace ClassFile

variable {c o : ClassFile} {texts : List String}

/-- A class does not lose its bootstrap methods when its pool grows. It may even come by some, if
the name of one of its attributes lay behind the pool. -/
private theorem hasBootstrapMethods_of_growsTo (hgrows : c.pool.GrowsTo texts o.pool)
    (hattributes : o.attributes = c.attributes) (h : c.hasBootstrapMethods = true) :
    o.hasBootstrapMethods = true := by
  rw [hasBootstrapMethods, List.any_eq_true] at h ⊢
  obtain ⟨attr, hmem, hnamed⟩ := h
  refine ⟨attr, hattributes ▸ hmem, ?_⟩
  rw [Attribute.isNamed_iff] at hnamed ⊢
  exact hgrows.utf8 hnamed

/-- **Interned indices are stable.** In a class whose pool was built by pushing and passes the
check, let an entry of any kind be interned. Whatever is interned after it, be it nothing at all,
the index resolves to the texts that were asked for, the pool passes the check, and interning the
entry once more returns the index and leaves the pool as it is. -/
theorem intern_of_checkPool (hpushed : c.pool.IsPushed) (hcheck : c.checkPool = .ok ())
    {wanted : ConstantPool.Wanted} {index : UInt16} {grown : ConstantPool}
    (hrun : wanted.intern c.pool = .ok index grown) (later : List ConstantPool.Wanted) :
    wanted.IsAt (grown.internAll later) index ∧
      checkPool { c with pool := grown.internAll later } = .ok () ∧
      wanted.intern (grown.internAll later) = .ok index (grown.internAll later) := by
  obtain ⟨texts, hlater⟩ := (ConstantPool.internsTo_internAll grown later).exists_gains
  have hfirst := ConstantPool.Wanted.intern_gains hrun
  refine ⟨?_, ?_, ?_⟩
  · exact (ConstantPool.Wanted.isAt_of_intern hpushed.size_le hrun).grow hlater.growsTo
  · have hgains : c.pool.Gains (wanted.texts ++ texts) (grown.internAll later) :=
      (hfirst.mono (List.subset_append_left _ _)).trans
        (hlater.mono (List.subset_append_right _ _))
    refine checkPool_of_gains_of_hasBootstrapMethods hpushed hgains ?_ hcheck
    exact hasBootstrapMethods_of_growsTo hgains.growsTo rfl
  · have hfound := ConstantPool.Wanted.find?_of_intern (isClosed_of_checkPool hcheck) hrun
    exact ConstantPool.Wanted.intern_of_find?
      (ConstantPool.Wanted.find?_of_growsTo hlater.growsTo hfound)

/-- A class with a text that it holds twice, and a class entry on the second of the two. -/
def doubled : ClassFile :=
  { empty with pool := ⟨#[.utf8 "p/A", .utf8 "p/A", .classRef 2, .utf8 "()V"]⟩ }

/-- The pool of `doubled` after the class `p/A` was interned. -/
def doubledPool : ConstantPool := ⟨doubled.pool.slots ++ #[.classRef 1]⟩

private theorem isPushed_doubled : doubled.pool.IsPushed :=
  (((ConstantPool.IsPushed.empty.append (.utf8 "p/A") (by decide)).append (.utf8 "p/A")
    (by decide)).append (.classRef 2) (by decide)).append (.utf8 "()V") (by decide)

/-- Interning the class `p/A` does not find the entry on the second text. It appends one on the
first, and finds it again when a method reference was built on it. -/
theorem intern_of_checkPool_doubled :
    doubled.pool.IsPushed ∧ doubled.checkPool = .ok () ∧
      ConstantPool.Wanted.intern (.classRef "p/A") doubled.pool = .ok 5 doubledPool ∧
      let final := doubledPool.internAll [.methodRef "p/A" "m" "()V"]
      final.slots = doubledPool.slots ++ #[.utf8 "m", .nameAndType 6 4, .methodRef 5 7] ∧
        final.className 5 = .ok "p/A" ∧ checkPool { doubled with pool := final } = .ok () ∧
        ConstantPool.Wanted.intern (.classRef "p/A") final = .ok 5 final := by
  have hcheck : doubled.checkPool = .ok () := by
    rw [← toOption_eq_some_iff]
    decide +kernel
  have hrun : ConstantPool.Wanted.intern (.classRef "p/A") doubled.pool = .ok 5 doubledPool := by
    rw [← ending?_eq_some_iff]
    decide +kernel
  have hlater : (doubledPool.internAll [.methodRef "p/A" "m" "()V"]).slots =
      doubledPool.slots ++ #[.utf8 "m", .nameAndType 6 4, .methodRef 5 7] := by decide +kernel
  exact ⟨isPushed_doubled, hcheck, hrun, hlater, intern_of_checkPool isPushed_doubled hcheck hrun _⟩

/-- In a pool with a reference to a slot behind it, the entry that was appended is not the one
that is found. -/
example :
    ConstantPool.internClass "p/A" ⟨#[.classRef 2]⟩ =
        .ok 3 ⟨#[.classRef 2, .utf8 "p/A", .classRef 2]⟩ ∧
      ConstantPool.internClass "p/A" ⟨#[.classRef 2, .utf8 "p/A", .classRef 2]⟩ =
        .ok 1 ⟨#[.classRef 2, .utf8 "p/A", .classRef 2]⟩ := by
  rw [← ending?_eq_some_iff, ← ending?_eq_some_iff]
  exact ⟨by decide +kernel, by decide +kernel⟩

end ClassFile

end ClassStub
