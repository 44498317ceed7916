import ClassStub.Proofs.InheritedProperties

/-!
# What more bytes change

Decoders read from front to back and never look ahead. `Decoder.Streams decoder` says what this
means for the outcome when bytes are put behind the input: a value stays the value and the bytes
end up among those that are left; an error stays the error, at the same place, unless it was the
end of the input that the decoder ran into. That error, and no other, depends on where the input
ends, and it always names this end.

The property is kept when one decoder is put behind another (`Streams.bind`), so each decoder of
a class file has it from its parts (`Decoder.IsInherited`). A decoder that must fill its input
adds one more error, for the bytes that are left, and more bytes only make it larger
(`Streams.runAll_append_of_ok`). It follows that a file is delimited by itself: put anything
behind it and exactly that is left over, cut it anywhere and its end is missing.
-/

namespace ClassStub

/-- The input with more bytes behind it. -/
def Input.extend (input : Input) (more : Bytes) : Input := ⟨input.offset, input.rest ++ more⟩

/-- The error is about bytes that are there, not about where the input ends. -/
def FormatError.IsLocal : FormatError → Prop
  | .unexpectedEnd _ | .trailingBytes _ => False
  | _ => True

namespace Decoder

variable {α β : Type}

/-- What the decoder does with some bytes it also does when more bytes follow, except for
running out of bytes. -/
structure Streams (decoder : Decoder α) : Prop where
  /-- A value is found in the same way, and all bytes are accounted for. -/
  ok {start stop : Input} {a : α} : decoder start = .ok (a, stop) →
    (∀ more, decoder (start.extend more) = .ok (a, stop.extend more)) ∧
      stop.endOffset = start.endOffset
  /-- An error other than the end of the input is found in the same way. -/
  error {start : Input} {error : FormatError} : decoder start = .error error →
    error = .unexpectedEnd start.endOffset ∨
      (error.IsLocal ∧ ∀ more, decoder (start.extend more) = .error error)

/-! ### Combining decoders -/

/-- A decoder that takes nothing does not look at what follows. -/
theorem Streams.pure (a : α) : (Pure.pure a : Decoder α).Streams where
  ok := by
    rintro start _ _ ⟨⟩
    exact ⟨fun _ => rfl, rfl⟩
  error := by rintro _ _ ⟨⟩

/-- An error that is raised without a look at the input does not depend on it. -/
theorem Streams.throw {error : FormatError} (h : error.IsLocal) :
    (MonadExcept.throw error : Decoder α).Streams where
  ok := by rintro _ _ _ ⟨⟩
  error := by
    rintro start _ ⟨⟩
    exact .inr ⟨h, fun _ => rfl⟩

/-- What one decoder leaves to another grows by the same suffix. -/
theorem Streams.bind {decoder : Decoder α} {next : α → Decoder β} (hdecoder : decoder.Streams)
    (hnext : ∀ a, (next a).Streams) : (decoder >>= next).Streams where
  ok := by
    intro start stop b h
    obtain ⟨a, middle, hfirst, hsecond⟩ := bind_eq_ok_iff.1 h
    obtain ⟨hmore₁, hend₁⟩ := hdecoder.ok hfirst
    obtain ⟨hmore₂, hend₂⟩ := (hnext a).ok hsecond
    exact ⟨fun more => bind_eq_ok_iff.2 ⟨a, middle.extend more, hmore₁ more, hmore₂ more⟩,
      hend₂.trans hend₁⟩
  error := by
    intro start error h
    obtain hfirst | ⟨a, middle, hfirst, hsecond⟩ := bind_eq_error_iff.1 h
    · refine (hdecoder.error hfirst).imp id fun ⟨hlocal, hmore⟩ => ⟨hlocal, fun more => ?_⟩
      exact bind_eq_error_iff.2 (.inl (hmore more))
    · -- where the second decoder starts, the input has the same end
      obtain ⟨hmore₁, hend₁⟩ := hdecoder.ok hfirst
      rw [← hend₁]
      refine ((hnext a).error hsecond).imp id fun ⟨hlocal, hmore₂⟩ => ⟨hlocal, fun more => ?_⟩
      exact bind_eq_error_iff.2 (.inr ⟨a, middle.extend more, hmore₁ more, hmore₂ more⟩)

/-- A value that is computed beside the input. -/
private theorem streams_liftM {value : Except FormatError α}
    (h : ∀ error, value = .error error → error.IsLocal) : (liftM value : Decoder α).Streams := by
  cases value with
  | ok a => exact .pure a
  | error error => exact .throw (h error rfl)

private theorem streams_ofPool (value : Except PoolError α) : (ofPool value).Streams := by
  cases value with
  | ok a => exact .pure a
  | error error =>
    have hlocal : (FormatError.pool error).IsLocal := trivial
    exact .throw hlocal

private theorem streams_offset : offset.Streams where
  ok := by
    rintro start _ _ ⟨⟩
    exact ⟨fun _ => rfl, rfl⟩
  error := by rintro _ _ ⟨⟩

/-! ### Bytes -/

/-- Bytes are taken if there are enough of them. -/
theorem take_eq_ok_iff {count : Nat} {start stop : Input} {taken : Bytes} :
    take count start = .ok (taken, stop) ↔ count ≤ start.rest.length ∧
      taken = start.rest.take count ∧ stop = ⟨start.offset + count, start.rest.drop count⟩ := by
  rw [take, List.length_take]
  split
  case isTrue hcount =>
    have hle : count ≤ start.rest.length := by omega
    simp [hle, @eq_comm Bytes, @eq_comm Input]
  case isFalse hcount =>
    have hlt : ¬count ≤ start.rest.length := by omega
    simp [hlt]

/-- Bytes are not taken only where the input ends. -/
theorem take_eq_error {count : Nat} {start : Input} {error : FormatError}
    (h : take count start = .error error) : error = .unexpectedEnd start.endOffset := by
  rw [take] at h
  split at h
  case isTrue => exact absurd h (by simp)
  case isFalse => exact (Except.error.inj h).symm

/-- Taking bytes does not look at what follows them. -/
theorem streams_take (count : Nat) : (take count).Streams where
  ok := by
    intro start stop taken h
    obtain ⟨hle, rfl, rfl⟩ := take_eq_ok_iff.1 h
    refine ⟨fun more => take_eq_ok_iff.2 ⟨?_, ?_, ?_⟩, ?_⟩
    · rw [Input.extend, List.length_append]
      omega
    · rw [Input.extend, List.take_append_of_le_length hle]
    · simp only [Input.extend, List.drop_append_of_le_length hle]
    · simp only [Input.endOffset, List.length_drop]
      omega
  error := fun h => .inl (take_eq_error h)

private theorem Streams.isInherited : IsInherited Streams where
  pure := .pure
  take := streams_take
  bind := .bind

/-! ### Whole byte strings -/

section RunAll

variable {slack : Nat → FormatError} {decoder : Decoder α}

/-- A decoder that reads everything leaves nothing. -/
theorem runAll_eq_ok {bytes : Bytes} {a : α} (h : runAll slack decoder bytes = .ok a) :
    ∃ stop, decoder ⟨0, bytes⟩ = .ok (a, stop) ∧ stop.rest = [] := by
  rw [runAll] at h
  split at h
  case h_1 b stop hrun =>
    split at h
    case isTrue hempty =>
      obtain rfl := Except.ok.inj h
      exact ⟨stop, hrun, List.isEmpty_iff.1 hempty⟩
    case isFalse => exact absurd h (by simp)
  case h_2 => exact absurd h (by simp)

/-- An error is one of the decoder, or bytes are left. -/
theorem runAll_eq_error {bytes : Bytes} {error : FormatError}
    (h : runAll slack decoder bytes = .error error) :
    decoder ⟨0, bytes⟩ = .error error ∨
      ∃ a stop, decoder ⟨0, bytes⟩ = .ok (a, stop) ∧ error = slack stop.rest.length := by
  rw [runAll] at h
  split at h
  case h_1 a stop hrun =>
    split at h
    case isTrue => exact absurd h (by simp)
    case isFalse => exact .inr ⟨a, stop, hrun, (Except.error.inj h).symm⟩
  case h_2 hrun =>
    obtain rfl := Except.error.inj h
    exact .inl hrun

/-- When more bytes follow, they are left over behind those that were left before. -/
theorem Streams.runAll_append_of_ok (hdecoder : decoder.Streams) {bytes more : Bytes} {a : α}
    {stop : Input} (h : decoder ⟨0, bytes⟩ = .ok (a, stop)) (hmore : more ≠ []) :
    runAll slack decoder (bytes ++ more) = .error (slack (stop.rest.length + more.length)) := by
  have hrun : decoder ⟨0, bytes ++ more⟩ = .ok (a, stop.extend more) := (hdecoder.ok h).1 more
  have hleft : (stop.extend more).rest.isEmpty = false := by simp [Input.extend, hmore]
  rw [runAll, hrun]
  dsimp only
  rw [hleft, Input.extend, List.length_append]
  rfl

/-- When more bytes follow, an error that is about the bytes before stays. -/
private theorem Streams.runAll_append_of_error (hdecoder : decoder.Streams) {bytes : Bytes}
    {error : FormatError} (h : decoder ⟨0, bytes⟩ = .error error) :
    error = .unexpectedEnd bytes.length ∨
      (error.IsLocal ∧ ∀ more, runAll slack decoder (bytes ++ more) = .error error) := by
  refine (hdecoder.error h).imp (fun hend => ?_) fun ⟨hlocal, hmore⟩ => ⟨hlocal, fun more => ?_⟩
  · rw [hend, Input.endOffset, Nat.zero_add]
  · have hrun : decoder ⟨0, bytes ++ more⟩ = .error error := hmore more
    rw [runAll, hrun]

end RunAll

end Decoder

/-! ### The parts of a class file -/

namespace Constant

private theorem isLocal_of_ofTextBytes {index : UInt16} {bytes : Bytes} {error : FormatError}
    (h : ofTextBytes index bytes = .error error) : error.IsLocal := by
  rw [ofTextBytes] at h
  split at h
  · exact absurd h (by simp)
  · split at h
    · exact absurd h (by simp)
    · obtain rfl := Except.error.inj h
      trivial

/-- A constant is read without a look at what follows it. -/
theorem streams_decoder (index : UInt16) : (decoder index).Streams := by
  have hparts := Decoder.Streams.isInherited
  refine Decoder.streams_offset.bind fun offset => hparts.u8.bind fun tag => ?_
  -- one case for each tag, by the kind of the payload
  split
  case h_1 =>
    exact (hparts.sized 2).bind fun bytes =>
      Decoder.streams_liftM fun _ => isLocal_of_ofTextBytes
  case h_12 => exact hparts.u8.bind fun _ => hparts.u16.bind fun _ => .pure _
  case h_18 => exact .throw trivial
  case h_2 | h_3 => exact hparts.u32.bind fun _ => .pure _
  case h_4 | h_5 => exact hparts.u64.bind fun _ => .pure _
  case h_8 | h_9 | h_10 | h_11 | h_14 | h_15 => exact hparts.pairDecoder _
  case h_6 | h_7 | h_13 | h_16 | h_17 => exact hparts.u16.bind fun _ => .pure _

end Constant

namespace ConstantPool

private theorem streams_addEntry (pool : ConstantPool) (constant : Constant) :
    (addEntry pool constant).Streams := by
  rw [addEntry]
  split
  · exact .pure _
  · exact .throw trivial

private theorem streams_decodeSlots (pool : ConstantPool) (missing : Nat) :
    (decodeSlots pool missing).Streams := by
  induction pool, missing using decodeSlots.induct with
  | case1 pool => exact .pure pool
  | case2 pool =>
    refine (Constant.streams_decoder _).bind fun constant => ?_
    split
    · exact .throw trivial
    · exact streams_addEntry pool constant
  | case3 pool missing ih₁ ih₂ =>
    refine (Constant.streams_decoder _).bind fun constant =>
      (streams_addEntry pool constant).bind fun grown => ?_
    split
    · exact ih₁ grown
    · exact ih₂ grown

/-- A pool is read without a look at what follows it. -/
theorem streams_decoder : decoder.Streams :=
  (Decoder.Streams.isInherited.number 2).bind fun _ => streams_decodeSlots _ _

end ConstantPool

namespace ClassFile

/-- A class is read without a look at what follows it. -/
theorem streams_decoder : decoder.Streams := by
  have hparts := Decoder.Streams.isInherited
  exact (hparts.magicDecoder fun _ => .throw trivial).bind fun magic =>
    hparts.u16.bind fun minorVersion => hparts.u16.bind fun majorVersion =>
      ConstantPool.streams_decoder.bind fun pool =>
        hparts.bodyDecoder (fun _ => Decoder.streams_ofPool _) (fun _ => Decoder.streams_ofPool _)
          magic minorVersion majorVersion

/-! ### Files with more bytes behind them -/

private theorem decode_append_of_ok {bytes more : Bytes} {c : ClassFile} (h : decode bytes = .ok c)
    (hmore : more ≠ []) : decode (bytes ++ more) = .error (.trailingBytes more.length) := by
  obtain ⟨stop, hrun, hrest⟩ := Decoder.runAll_eq_ok h
  have hleft : decode (bytes ++ more) =
      .error (.trailingBytes (stop.rest.length + more.length)) :=
    streams_decoder.runAll_append_of_ok hrun hmore
  rwa [hrest, List.length_nil, Nat.zero_add] at hleft

/-- The errors of the reader, and what becomes of them when more bytes follow. -/
private theorem decode_append_of_error {bytes : Bytes} {error : FormatError}
    (h : decode bytes = .error error) :
    error = .unexpectedEnd bytes.length ∨
      (∃ left, error = .trailingBytes left ∧ ∀ more, more ≠ [] →
        decode (bytes ++ more) = .error (.trailingBytes (left + more.length))) ∨
      (error.IsLocal ∧ ∀ more, decode (bytes ++ more) = .error error) := by
  obtain hrun | ⟨c, stop, hrun, rfl⟩ := Decoder.runAll_eq_error h
  · exact (streams_decoder.runAll_append_of_error hrun).imp id .inr
  · exact .inr (.inl ⟨_, rfl, fun more => streams_decoder.runAll_append_of_ok hrun⟩)

/-- **The reader reads a stream, and a class file delimits itself.** Bytes behind a class are
left over, all of them and they alone; an error about the bytes before stays, whatever follows;
and running out of bytes is reported at the end of the bytes. So a class file that is cut short
is refused where it ends. -/
theorem decode_append (bytes more : Bytes) (hmore : more ≠ []) :
    (∀ c, decode bytes = .ok c → decode (bytes ++ more) = .error (.trailingBytes more.length)) ∧
      (∀ left, decode bytes = .error (.trailingBytes left) →
        decode (bytes ++ more) = .error (.trailingBytes (left + more.length))) ∧
      (∀ error, decode bytes = .error error → (∀ left, error ≠ .trailingBytes left) →
        (∀ position, error ≠ .unexpectedEnd position) →
          decode (bytes ++ more) = .error error) ∧
      (∀ position, decode bytes = .error (.unexpectedEnd position) → position = bytes.length) ∧
      ∀ c, decode (bytes ++ more) = .ok c →
        decode bytes = .error (.unexpectedEnd bytes.length) := by
  refine ⟨fun c h => decode_append_of_ok h hmore, fun left h => ?_,
    fun error h htrailing hend => ?_, fun position h => ?_, fun c hc => ?_⟩
  · obtain hend | ⟨_, ⟨rfl⟩, hleft⟩ | ⟨hlocal, -⟩ := decode_append_of_error h
    · exact absurd hend (by simp)
    · exact hleft more hmore
    · exact absurd hlocal id
  · obtain rfl | ⟨left, rfl, -⟩ | ⟨-, hsame⟩ := decode_append_of_error h
    · exact absurd rfl (hend _)
    · exact absurd rfl (htrailing left)
    · exact hsame more
  · obtain hend | ⟨left, heq, -⟩ | ⟨hlocal, -⟩ := decode_append_of_error h
    · exact FormatError.unexpectedEnd.inj hend
    · exact absurd heq (by simp)
    · exact absurd hlocal id
  · -- in every other case there would be an error with the bytes behind, too
    cases hbytes : decode bytes with
    | ok c' => exact absurd (hc.symm.trans (decode_append_of_ok hbytes hmore)) (by simp)
    | error error =>
      obtain rfl | ⟨left, -, hleft⟩ | ⟨-, hsame⟩ := decode_append_of_error hbytes
      · rfl
      · exact absurd (hc.symm.trans (hleft more hmore)) (by simp)
      · exact absurd (hc.symm.trans (hsame more)) (by simp)

/-- A class with two bytes behind it, and without its last byte. -/
theorem decode_append_rawTextBytes :
    decode (rawTextBytes ++ [0, 1]) = .error (.trailingBytes 2) ∧
      decode rawTextBytes.dropLast = .error (.unexpectedEnd 76) := by
  have hdecode : decode rawTextBytes = .ok rawTextClass := by decide +kernel
  have hcut : decode (rawTextBytes.dropLast ++ [0]) = .ok rawTextClass := hdecode
  obtain ⟨hbehind, -⟩ := decode_append rawTextBytes [0, 1] (by simp)
  obtain ⟨-, -, -, -, hprefix⟩ := decode_append rawTextBytes.dropLast [0] (by simp)
  exact ⟨hbehind rawTextClass hdecode, hprefix rawTextClass hcut⟩

end ClassFile

end ClassStub
