import ClassStub.Proofs.ClassFormat

/-!
# Properties that decoders have from their parts

The decoders of a class file are put together from one that takes bytes, by doing one thing after
another. Much that can be said of decoders is inherited in this way: if it holds of two decoders, it
holds of one behind the other (`Decoder.IsInherited`). So it is enough to show such a property of
the smallest decoders, and it holds of all numbers, of lists, and of every part of a class file that
asks for nothing else. A part that looks something up in a pool, or that may refuse what it has
read, has the property if the look-up or the refusal has it.
-/

namespace ClassStub

namespace Decoder

/-- A property of decoders that is kept when one is put behind another. It holds of those that take
nothing or a number of bytes. -/
structure IsInherited (P : {α : Type} → Decoder α → Prop) : Prop where
  pure {α : Type} (a : α) : P (Pure.pure a : Decoder α)
  take (count : Nat) : P (Decoder.take count)
  bind {α β : Type} {decoder : Decoder α} {next : α → Decoder β} :
    P decoder → (∀ a, P (next a)) → P (decoder >>= next)

namespace IsInherited

variable {P : {α : Type} → Decoder α → Prop} (hP : IsInherited P)

include hP

/-! ### Numbers and lists -/

section Combinators

variable {α β : Type} {decoder : Decoder α}

/-- The result of a decoder may be changed. -/
theorem map (f : α → β) (h : P decoder) : P (f <$> decoder) := by
  rw [← bind_pure_comp]
  exact hP.bind h fun a => hP.pure (f a)

/-- Numbers are made of the bytes that were taken. -/
theorem number (width : Nat) : P (Decoder.number width) := hP.map _ (hP.take width)

theorem u8 : P Decoder.u8 := hP.map _ (hP.number 1)

theorem u16 : P Decoder.u16 := hP.map _ (hP.number 2)

theorem u32 : P Decoder.u32 := hP.map _ (hP.number 4)

theorem u64 : P Decoder.u64 := hP.map _ (hP.number 8)

/-- Bytes are taken by a length that was read before. -/
theorem sized (width : Nat) : P (Decoder.sized width) := hP.bind (hP.number width) hP.take

/-- By induction on the count: one decoder stands behind the other. -/
theorem times (h : P decoder) (count : Nat) : P (Decoder.times count decoder) := by
  induction count with
  | zero => exact hP.pure []
  | succ count ih =>
    rw [Decoder.times, List.replicate_succ, List.mapM_cons]
    exact hP.bind h fun a => hP.bind ih fun values => hP.pure (a :: values)

/-- A list stands behind its count. -/
theorem counted (h : P decoder) : P (Decoder.counted decoder) :=
  hP.bind (hP.number 2) (hP.times h)

end Combinators

/-! ### The parts of a class file -/

/-- An attribute has nothing that could be refused. -/
theorem attributeDecoder : P Attribute.decoder :=
  hP.bind hP.u16 fun _ => hP.bind (hP.sized 4) fun _ => hP.pure _

/-- An exception handler is made of four numbers. -/
theorem handlerDecoder : P ExceptionHandler.decoder :=
  hP.bind hP.u16 fun _ => hP.bind hP.u16 fun _ => hP.bind hP.u16 fun _ => hP.bind hP.u16 fun _ =>
    hP.pure _

/-- A body is made of numbers, lists, and attributes. -/
theorem payloadDecoder : P CodePayload.decoder :=
  hP.bind hP.u16 fun _ => hP.bind hP.u16 fun _ => hP.bind (hP.sized 4) fun _ =>
    hP.bind (hP.counted hP.handlerDecoder) fun _ =>
      hP.bind (hP.counted hP.attributeDecoder) fun _ => hP.pure _

/-- A constant that refers to two others is made of their indices. -/
theorem pairDecoder (make : UInt16 → UInt16 → Constant) : P (Constant.pairDecoder make) :=
  hP.bind hP.u16 fun _ => hP.bind hP.u16 fun _ => hP.pure _

/-- The magic number may be refused. -/
theorem magicDecoder (hthrow : ∀ magic, P (throw (.wrongMagic magic) : Decoder UInt32)) :
    P ClassFile.magicDecoder := by
  refine hP.bind hP.u32 fun magic => ?_
  split
  · exact hP.pure _
  · exact hthrow magic

section Pool

variable {pool : ConstantPool} (hutf8 : ∀ index, P (ofPool (pool.utf8 index)))
  (hclass : ∀ index, P (ofPool (pool.className index)))

include hutf8 in
/-- The names of a member are looked up in the pool as soon as their indices are read. -/
theorem memberDecoder : P (Member.decoder pool) :=
  hP.bind hP.u16 fun _ => hP.bind hP.u16 fun name => hP.bind (hutf8 name) fun _ =>
    hP.bind hP.u16 fun descriptor => hP.bind (hutf8 descriptor) fun _ =>
      hP.bind (hP.counted hP.attributeDecoder) fun _ => hP.pure _

include hclass in
/-- The index of a class is looked up in the pool. -/
theorem classIndexDecoder : P (ClassFile.classIndexDecoder pool) :=
  hP.bind hP.u16 fun index => hP.bind (hclass index) fun _ => hP.pure _

include hclass in
/-- The index of the superclass is looked up unless it is zero. -/
theorem superClassDecoder : P (ClassFile.superClassDecoder pool) := by
  refine hP.bind hP.u16 fun index => ?_
  -- an index of zero is not looked up
  split
  · exact hP.bind (hclass index) fun _ => hP.pure _
  · exact hP.pure _

include hutf8 hclass in
/-- What follows the pool is put together from all these parts. -/
theorem bodyDecoder (magic : UInt32) (minorVersion majorVersion : UInt16) :
    P (ClassFile.bodyDecoder magic minorVersion majorVersion pool) :=
  hP.bind hP.u16 fun _ => hP.bind (hP.classIndexDecoder hclass) fun _ =>
    hP.bind (hP.superClassDecoder hclass) fun _ =>
      hP.bind (hP.counted (hP.classIndexDecoder hclass)) fun _ =>
        hP.bind (hP.counted (hP.memberDecoder hutf8)) fun _ =>
          hP.bind (hP.counted (hP.memberDecoder hutf8)) fun _ =>
            hP.bind (hP.counted hP.attributeDecoder) fun _ => hP.pure _

end Pool

end IsInherited

end Decoder

end ClassStub
