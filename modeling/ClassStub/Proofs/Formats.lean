import ClassStub.Decoder
import ClassStub.Proofs.Digits

/-!
# Decoders and the formats they read

A *format* relates the values of a type to the byte strings that are a written form of them.
`Decoder.Takes decoder format` says that a decoder reads a format exactly: it succeeds with a
value just when the input starts with a written form of that value, and then it has taken this
form and nothing else. The statement is an equivalence, so it says at once that nothing is
accepted that was not written and that whatever was written is accepted, whatever follows it.

`Takes` follows the way a decoder is put together (`Takes.pure`, `Takes.bind`), so the format of
a decoder is read off its definition. The formats met in a class file are nearly all of one
kind: the value can be written without loss, and the bytes are what its encoder writes. A
decoder of such a format that must fill its input is the inverse of the encoder
(`runAll_eq_ok_iff`).
-/

namespace ClassStub

namespace Decoder

variable {α β : Type}

/-- The decoder succeeds exactly on the written forms of its values: it takes one of them from
the front of the input and leaves what is behind it. -/
def Takes (decoder : Decoder α) (format : α → Bytes → Prop) : Prop :=
  ∀ start stop a, decoder start = .ok (a, stop) ↔
    ∃ bytes, format a bytes ∧ start.rest = bytes ++ stop.rest ∧
      stop.offset = start.offset + bytes.length

/-! ### Combining decoders -/

/-- One decoder behind another succeeds if both do, the second one on what the first one left. -/
theorem bind_eq_ok_iff {decoder : Decoder α} {next : α → Decoder β} {start stop : Input}
    {b : β} : (decoder >>= next) start = .ok (b, stop) ↔
      ∃ a middle, decoder start = .ok (a, middle) ∧ next a middle = .ok (b, stop) := by
  change (decoder start >>= fun taken => next taken.1 taken.2) = .ok (b, stop) ↔ _
  cases decoder start with
  | error error => simp [Bind.bind, Except.bind]
  | ok taken =>
    constructor
    · intro h
      exact ⟨taken.1, taken.2, rfl, h⟩
    · rintro ⟨a, middle, ⟨rfl⟩, h⟩
      exact h

/-- Behind a decoder that succeeds, the rest runs on what it left. -/
theorem bind_of_eq_ok {decoder : Decoder α} {next : α → Decoder β} {start middle : Input} {a : α}
    (h : decoder start = .ok (a, middle)) : (decoder >>= next) start = next a middle := by
  change (decoder start >>= fun taken => next taken.1 taken.2) = _
  rw [h]
  rfl

/-- One decoder behind another fails if the first one does, or if the second one does on what the
first one left. -/
theorem bind_eq_error_iff {decoder : Decoder α} {next : α → Decoder β} {start : Input}
    {error : FormatError} : (decoder >>= next) start = .error error ↔
      decoder start = .error error ∨
        ∃ a middle, decoder start = .ok (a, middle) ∧ next a middle = .error error := by
  change (decoder start >>= fun taken => next taken.1 taken.2) = .error error ↔ _
  cases decoder start with
  | error => simp [Bind.bind, Except.bind]
  | ok taken =>
    obtain ⟨a, middle⟩ := taken
    simp [Bind.bind, Except.bind, and_assoc]

/-- A format may be put in other words. -/
theorem Takes.congr {decoder : Decoder α} {format format' : α → Bytes → Prop}
    (h : decoder.Takes format) (hformat : ∀ a bytes, format a bytes ↔ format' a bytes) :
    decoder.Takes format' := by
  intro start stop a
  rw [h start stop a]
  simp only [hformat]

/-- A value that is there already has the empty written form. -/
theorem Takes.pure (a : α) :
    (Pure.pure a : Decoder α).Takes fun b bytes => b = a ∧ bytes = [] := by
  rintro ⟨offset, rest⟩ ⟨offset', rest'⟩ b
  change Except.ok (a, (⟨offset, rest⟩ : Input)) = .ok (b, ⟨offset', rest'⟩) ↔ _
  simp only [Except.ok.injEq, Prod.mk.injEq, Input.mk.injEq]
  constructor
  · rintro ⟨rfl, rfl, rfl⟩
    exact ⟨[], ⟨rfl, rfl⟩, rfl, rfl⟩
  · rintro ⟨bytes, ⟨rfl, rfl⟩, hrest, hoffset⟩
    exact ⟨rfl, hoffset.symm, hrest⟩

/-- A decoder that always fails has a format without values. -/
theorem Takes.throw (error : FormatError) :
    (MonadExcept.throw error : Decoder α).Takes fun _ _ => False := by
  intro start stop a
  change Except.error error = .ok (a, stop) ↔ _
  simp

/-- One decoder after another reads one written form after another. The second one need only do so
for values that the first one can read. -/
theorem Takes.bind_of_read {decoder : Decoder α} {next : α → Decoder β} {F : α → Bytes → Prop}
    {G : α → β → Bytes → Prop} (hdecoder : decoder.Takes F)
    (hnext : ∀ a front, F a front → (next a).Takes (G a)) :
    (decoder >>= next).Takes fun b bytes =>
      ∃ a front back, F a front ∧ G a b back ∧ bytes = front ++ back := by
  intro start stop b
  rw [bind_eq_ok_iff]
  constructor
  · rintro ⟨a, middle, h₁, h₂⟩
    obtain ⟨front, hfront, hrest₁, hoffset₁⟩ := (hdecoder _ _ _).1 h₁
    obtain ⟨back, hback, hrest₂, hoffset₂⟩ := (hnext a front hfront _ _ _).1 h₂
    refine ⟨front ++ back, ⟨a, front, back, hfront, hback, rfl⟩, ?_, ?_⟩
    · rw [hrest₁, hrest₂, List.append_assoc]
    · rw [hoffset₂, hoffset₁, List.length_append, Nat.add_assoc]
  · rintro ⟨_, ⟨a, front, back, hfront, hback, rfl⟩, hrest, hoffset⟩
    rw [List.append_assoc] at hrest
    rw [List.length_append, ← Nat.add_assoc] at hoffset
    -- the first decoder stops where the written form of the second value begins
    have hfirst := (hdecoder start ⟨start.offset + front.length, back ++ stop.rest⟩ a).2
      ⟨front, hfront, hrest, rfl⟩
    have hsecond := (hnext a front hfront ⟨start.offset + front.length, back ++ stop.rest⟩ stop b).2
      ⟨back, hback, rfl, hoffset⟩
    exact ⟨a, _, hfirst, hsecond⟩

/-- One decoder behind another takes the bytes of both. -/
theorem Takes.bind {decoder : Decoder α} {next : α → Decoder β} {F : α → Bytes → Prop}
    {G : α → β → Bytes → Prop} (hdecoder : decoder.Takes F)
    (hnext : ∀ a, (next a).Takes (G a)) :
    (decoder >>= next).Takes fun b bytes =>
      ∃ a front back, F a front ∧ G a b back ∧ bytes = front ++ back :=
  hdecoder.bind_of_read fun a _ _ => hnext a

/-- A function behind a decoder keeps the written forms. -/
theorem Takes.map {decoder : Decoder α} {format : α → Bytes → Prop} (f : α → β)
    (h : decoder.Takes format) :
    (f <$> decoder).Takes fun b bytes => ∃ a, format a bytes ∧ b = f a := by
  rw [← bind_pure_comp]
  refine (h.bind fun a => Takes.pure (f a)).congr fun b bytes => ?_
  constructor
  · rintro ⟨a, front, _, hformat, ⟨rfl, rfl⟩, rfl⟩
    exact ⟨a, by rwa [List.append_nil], rfl⟩
  · rintro ⟨a, hformat, rfl⟩
    exact ⟨a, bytes, [], hformat, ⟨rfl, rfl⟩, by rw [List.append_nil]⟩

/-- A value computed beside the input takes nothing. -/
theorem takes_liftM (value : Except FormatError α) :
    (liftM value : Decoder α).Takes fun a bytes => value = .ok a ∧ bytes = [] := by
  cases value with
  | ok a =>
    refine (Takes.pure a).congr fun b bytes => ?_
    rw [Except.ok.injEq, eq_comm]
  | error error =>
    refine (Takes.throw error).congr fun b bytes => ?_
    simp

/-- A look-up in a pool takes nothing. -/
theorem takes_ofPool (value : Except PoolError α) :
    (ofPool value).Takes fun a bytes => value = .ok a ∧ bytes = [] := by
  cases value with
  | ok a =>
    refine (Takes.pure a).congr fun b bytes => ?_
    rw [Except.ok.injEq, eq_comm]
  | error error =>
    refine (Takes.throw (.pool error)).congr fun b bytes => ?_
    simp

/-- To look at the position takes nothing, and what follows reads the same format at every
position. -/
theorem takes_offset_bind {next : Nat → Decoder α} {format : α → Bytes → Prop}
    (h : ∀ position, (next position).Takes format) : (offset >>= next).Takes format :=
  fun start stop a => h start.offset start stop a

/-! ### Bytes and numbers -/

/-- Taking bytes takes these bytes. -/
theorem takes_take (count : Nat) :
    (take count).Takes fun taken bytes => taken.length = count ∧ bytes = taken := by
  rintro ⟨offset, rest⟩ ⟨offset', rest'⟩ taken
  change (if (rest.take count).length = count then _ else _) = _ ↔ _
  constructor
  · split
    case isTrue hlength =>
      simp only [Except.ok.injEq, Prod.mk.injEq, Input.mk.injEq]
      rintro ⟨rfl, rfl, rfl⟩
      exact ⟨_, ⟨hlength, rfl⟩, (List.take_append_drop count rest).symm, by rw [hlength]⟩
    case isFalse =>
      intro h
      exact absurd h (by simp)
  · rintro ⟨_, ⟨rfl, rfl⟩, hrest, hoffset⟩
    dsimp only at hrest hoffset
    subst hrest hoffset
    rw [if_pos (by simp), List.take_left, List.drop_left]

/-- A number is read from its bytes, and only from those. -/
theorem takes_number (width : Nat) :
    (number width).Takes fun n bytes => n < 256 ^ width ∧ bytes = bigEndian width n := by
  refine ((takes_take width).map ofBigEndian).congr fun n bytes => ?_
  constructor
  · rintro ⟨taken, ⟨rfl, rfl⟩, rfl⟩
    exact ⟨ofBigEndian_lt _, (bigEndian_ofBigEndian _).symm⟩
  · rintro ⟨hlt, rfl⟩
    refine ⟨_, ⟨length_bigEndian width n, rfl⟩, ?_⟩
    rw [ofBigEndian_bigEndian, Nat.mod_eq_of_lt hlt]

/-- A number is read into a word type that holds exactly the numbers of that many bytes. -/
private theorem takes_word {width : Nat} (ofNat : Nat → α) (toNat : α → Nat)
    (ofNat_toNat : ∀ a, ofNat (toNat a) = a) (toNat_lt : ∀ a, toNat a < 256 ^ width)
    (toNat_ofNat : ∀ n, n < 256 ^ width → toNat (ofNat n) = n) :
    (ofNat <$> number width).Takes fun a bytes => bytes = bigEndian width (toNat a) := by
  refine ((takes_number width).map ofNat).congr fun a bytes => ?_
  constructor
  · rintro ⟨n, ⟨hlt, rfl⟩, rfl⟩
    rw [toNat_ofNat n hlt]
  · rintro rfl
    exact ⟨toNat a, ⟨toNat_lt a, rfl⟩, (ofNat_toNat a).symm⟩

theorem takes_u8 : u8.Takes fun a bytes => bytes = [a] := by
  refine (takes_word UInt8.ofNat UInt8.toNat (fun _ => UInt8.ofNat_toNat)
    (fun a => a.toNat_lt) fun n hlt => UInt8.toNat_ofNat_of_lt' hlt).congr fun a bytes => ?_
  simp [bigEndian]

theorem takes_u16 : u16.Takes fun a bytes => bytes = bigEndian 2 a.toNat :=
  takes_word UInt16.ofNat UInt16.toNat (fun _ => UInt16.ofNat_toNat) (fun a => a.toNat_lt)
    fun _ hlt => UInt16.toNat_ofNat_of_lt' hlt

theorem takes_u32 : u32.Takes fun a bytes => bytes = bigEndian 4 a.toNat :=
  takes_word UInt32.ofNat UInt32.toNat (fun _ => UInt32.ofNat_toNat) (fun a => a.toNat_lt)
    fun _ hlt => UInt32.toNat_ofNat_of_lt' hlt

theorem takes_u64 : u64.Takes fun a bytes => bytes = bigEndian 8 a.toNat :=
  takes_word UInt64.ofNat UInt64.toNat (fun _ => UInt64.ofNat_toNat) (fun a => a.toNat_lt)
    fun _ hlt => UInt64.toNat_ofNat_of_lt' hlt

/-- Sized bytes are written behind their number, which must fit its width. -/
theorem takes_sized (width : Nat) :
    (sized width).Takes fun payload bytes =>
      payload.length < 256 ^ width ∧ bytes = bigEndian width payload.length ++ payload := by
  refine ((takes_number width).bind fun count => takes_take count).congr fun payload bytes => ?_
  constructor
  · rintro ⟨_, _, _, ⟨hlt, rfl⟩, ⟨rfl, rfl⟩, rfl⟩
    exact ⟨hlt, rfl⟩
  · rintro ⟨hlt, rfl⟩
    exact ⟨_, _, _, ⟨hlt, rfl⟩, ⟨rfl, rfl⟩, rfl⟩

/-! ### Lists -/

section Lists

variable {decoder : Decoder α} {valid : α → Prop} {encode : α → Bytes}

/-- Values that are written without loss are so one after another. -/
theorem takes_times (h : decoder.Takes fun a bytes => valid a ∧ bytes = encode a)
    (count : Nat) :
    (times count decoder).Takes fun values bytes =>
      values.length = count ∧ (∀ a ∈ values, valid a) ∧ bytes = values.flatMap encode := by
  induction count with
  | zero =>
    refine (Takes.pure []).congr fun values bytes => ?_
    rw [List.length_eq_zero_iff]
    constructor
    · rintro ⟨rfl, rfl⟩
      simp
    · rintro ⟨rfl, -, rfl⟩
      simp
  | succ count ih =>
    rw [times, List.replicate_succ, List.mapM_cons]
    -- one element in front of the others
    refine (h.bind fun a => ih.bind fun values => Takes.pure (a :: values)).congr
      fun values bytes => ?_
    constructor
    · rintro ⟨a, _, _, ⟨ha, rfl⟩, ⟨values, _, _, ⟨rfl, hvalues, rfl⟩, ⟨rfl, rfl⟩, rfl⟩, rfl⟩
      exact ⟨rfl, by simpa using ⟨ha, hvalues⟩, by simp⟩
    · rintro ⟨hlength, hvalues, rfl⟩
      obtain ⟨a, values, rfl⟩ := List.exists_cons_of_length_eq_add_one hlength
      rw [List.forall_mem_cons] at hvalues
      exact ⟨a, _, _, ⟨hvalues.1, rfl⟩, ⟨values, _, _,
        ⟨Nat.succ.inj hlength, hvalues.2, rfl⟩, ⟨rfl, rfl⟩, rfl⟩, by simp⟩

/-- A list is read from its count and its elements. -/
theorem takes_counted (h : decoder.Takes fun a bytes => valid a ∧ bytes = encode a) :
    (counted decoder).Takes fun values bytes =>
      (values.length < 2 ^ 16 ∧ ∀ a ∈ values, valid a) ∧
        bytes = encodeCounted encode values := by
  refine ((takes_number 2).bind fun count => takes_times h count).congr fun values bytes => ?_
  constructor
  · rintro ⟨_, _, _, ⟨hlt, rfl⟩, ⟨rfl, hvalid, rfl⟩, rfl⟩
    exact ⟨⟨hlt, hvalid⟩, rfl⟩
  · rintro ⟨⟨hlt, hvalid⟩, rfl⟩
    exact ⟨_, _, _, ⟨hlt, rfl⟩, ⟨rfl, hvalid, rfl⟩, rfl⟩

/-- A decoder that must fill the bytes reads exactly what the encoder writes. -/
theorem runAll_eq_ok_iff (h : decoder.Takes fun a bytes => valid a ∧ bytes = encode a)
    {slack : Nat → FormatError} {bytes : Bytes} {a : α} :
    runAll slack decoder bytes = .ok a ↔ valid a ∧ bytes = encode a := by
  rw [runAll]
  constructor
  · split
    case h_1 b input hrun =>
      split
      case isTrue hempty =>
        rintro ⟨⟩
        obtain ⟨_, ⟨hvalid, rfl⟩, hrest, -⟩ := (h _ _ _).1 hrun
        -- nothing is left, so the written form is all of the bytes
        rw [List.isEmpty_iff.1 hempty, List.append_nil] at hrest
        exact ⟨hvalid, hrest⟩
      case isFalse =>
        intro h
        exact absurd h (by simp)
    case h_2 =>
      intro h
      exact absurd h (by simp)
  · rintro ⟨hvalid, rfl⟩
    have hrun : decoder ⟨0, encode a⟩ = .ok (a, ⟨0 + (encode a).length, []⟩) :=
      (h _ _ _).2 ⟨_, ⟨hvalid, rfl⟩, (List.append_nil _).symm, rfl⟩
    rw [hrun]
    rfl

end Lists

end Decoder
end ClassStub
