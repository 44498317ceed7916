import ClassStub.Proofs.Streaming

/-!
# The bytes of a code payload, and all others

Reading a payload and writing one are inverse to each other, as for every part of a class file. Of
a payload more can be said: there are no bytes that the reader refuses for what they are. Whatever
bytes it is given, they are the written form of one payload, or they begin with such a form and go
on behind it, or they are the beginning of one (`CodePayload.decode_outcomes`). So each of the two
errors has a meaning of its own, and no third one occurs.

The last case needs that a decoder which ran out of bytes can always be given more of them, so that
it succeeds. `Decoder.IsCompletable` says so. A decoder has this property if it checks nothing but
lengths, and like `Streams` it is inherited from its parts.
-/

namespace ClassStub

private theorem Input.extend_append (input : Input) (first second : Bytes) :
    input.extend (first ++ second) = (input.extend first).extend second := by
  rw [extend, extend, extend, List.append_assoc]

namespace Decoder

variable {α β : Type}

/-- The decoder takes bytes from the front, and it fails only where more bytes would have let it
succeed. -/
structure IsCompletable (decoder : Decoder α) : Prop extends Streams decoder where
  /-- Nothing is left that was not there. -/
  suffix {start stop : Input} {a : α} : decoder start = .ok (a, stop) → stop.rest <:+ start.rest
  /-- The missing bytes can be such that all of them are taken. -/
  complete {start : Input} {error : FormatError} : decoder start = .error error →
    ∃ more a stop, decoder (start.extend more) = .ok (a, stop) ∧ stop.rest = []

/-! ### Combining decoders -/

theorem IsCompletable.pure (a : α) : (Pure.pure a : Decoder α).IsCompletable where
  toStreams := .pure a
  suffix := by
    rintro start _ _ ⟨⟩
    exact List.suffix_refl _
  complete := by rintro _ _ ⟨⟩

theorem IsCompletable.bind {decoder : Decoder α} {next : α → Decoder β}
    (hdecoder : decoder.IsCompletable) (hnext : ∀ a, (next a).IsCompletable) :
    (decoder >>= next).IsCompletable where
  toStreams := hdecoder.toStreams.bind fun a => (hnext a).toStreams
  suffix := by
    intro start stop b h
    obtain ⟨a, middle, hfirst, hsecond⟩ := bind_eq_ok_iff.1 h
    exact ((hnext a).suffix hsecond).trans (hdecoder.suffix hfirst)
  complete := by
    intro start error h
    obtain hfirst | ⟨a, middle, hfirst, hsecond⟩ := bind_eq_error_iff.1 h
    · obtain ⟨more, a, middle, hfirst, hmiddle⟩ := hdecoder.complete hfirst
      cases hsecond : next a middle with
      | ok taken =>
        have hrest := (hnext a).suffix hsecond
        rw [hmiddle, List.suffix_nil] at hrest
        exact ⟨more, _, _, bind_eq_ok_iff.2 ⟨a, middle, hfirst, hsecond⟩, hrest⟩
      | error error' =>
        -- what the second decoder lacks is put behind what the first one lacked
        obtain ⟨further, b, stop, hsecond, hstop⟩ := (hnext a).complete hsecond
        have hboth := (hdecoder.ok hfirst).1 further
        rw [← Input.extend_append] at hboth
        exact ⟨more ++ further, b, stop, bind_eq_ok_iff.2 ⟨a, _, hboth, hsecond⟩, hstop⟩
    · obtain ⟨more, b, stop, hsecond, hstop⟩ := (hnext a).complete hsecond
      exact ⟨more, b, stop,
        bind_eq_ok_iff.2 ⟨a, _, (hdecoder.ok hfirst).1 more, hsecond⟩, hstop⟩

/-! ### Bytes -/

private theorem isCompletable_take (count : Nat) : (take count).IsCompletable where
  toStreams := streams_take count
  suffix := by
    intro start stop taken h
    obtain ⟨-, -, rfl⟩ := take_eq_ok_iff.1 h
    exact List.drop_suffix count start.rest
  complete := by
    intro start error h
    have hshort : start.rest.length < count := by
      by_contra hle
      exact nomatch h.symm.trans (take_eq_ok_iff.2 ⟨Nat.not_lt.1 hle, rfl, rfl⟩)
    -- any bytes will do, as long as there are enough
    have hlength : (start.extend (List.replicate (count - start.rest.length) 0)).rest.length =
        count := by
      rw [Input.extend, List.length_append, List.length_replicate]
      omega
    exact ⟨_, _, _, take_eq_ok_iff.2 ⟨Nat.le_of_eq hlength.symm, rfl, rfl⟩,
      List.drop_eq_nil_of_le (Nat.le_of_eq hlength)⟩

private theorem IsCompletable.isInherited : IsInherited IsCompletable where
  pure := .pure
  take := isCompletable_take
  bind := .bind

/-! ### Decoders that must fill their input -/

section RunAll

variable {decoder : Decoder α} {valid : α → Prop} {encode : α → Bytes}

/-- What is left over stands behind a written form. -/
private theorem Takes.eq_encode_append
    (htakes : decoder.Takes fun a bytes => valid a ∧ bytes = encode a)
    {bytes : Bytes} {a : α} {stop : Input} (hrun : decoder ⟨0, bytes⟩ = .ok (a, stop)) :
    valid a ∧ bytes = encode a ++ stop.rest := by
  obtain ⟨_, ⟨hvalid, rfl⟩, hrest, -⟩ := (htakes _ _ _).1 hrun
  exact ⟨hvalid, hrest⟩

/-- A decoder that ran out of bytes stands in the middle of a written form. -/
private theorem IsCompletable.exists_of_error (h : decoder.IsCompletable)
    (htakes : decoder.Takes fun a bytes => valid a ∧ bytes = encode a) {bytes : Bytes}
    {error : FormatError} (hrun : decoder ⟨0, bytes⟩ = .error error) :
    error = .unexpectedEnd bytes.length ∧
      ∃ a more, valid a ∧ encode a = bytes ++ more ∧ more ≠ [] := by
  obtain ⟨more, a, stop, hok, hstop⟩ := h.complete hrun
  obtain ⟨_, ⟨hvalid, rfl⟩, hrest, -⟩ := (htakes _ _ _).1 hok
  have hencode : encode a = bytes ++ more := by
    rw [hstop, List.append_nil] at hrest
    exact hrest.symm
  refine ⟨?_, a, more, hvalid, hencode, ?_⟩
  · -- another error would stay when the missing bytes follow
    obtain hend | ⟨-, hsame⟩ := h.error hrun
    · rw [hend, Input.endOffset, Nat.zero_add]
    · cases hok.symm.trans (hsame more)
  · rintro rfl
    have hsame : (Input.extend ⟨0, bytes⟩ []) = ⟨0, bytes⟩ := by simp [Input.extend]
    rw [hsame, hrun] at hok
    cases hok

end RunAll

end Decoder

namespace CodePayload

private theorem isCompletable_decoder : decoder.IsCompletable :=
  Decoder.IsCompletable.isInherited.payloadDecoder

/-! ### The three kinds of byte strings -/

variable {info : Bytes}

/-- The bytes are a payload and then some more. -/
def GoesOnWith (info more : Bytes) : Prop :=
  ∃ payload : CodePayload, payload.IsEncodable ∧ info = payload.encode ++ more ∧ more ≠ []

/-- The bytes are a payload without some at its end. -/
def EndsBefore (info more : Bytes) : Prop :=
  ∃ payload : CodePayload, payload.IsEncodable ∧ payload.encode = info ++ more ∧ more ≠ []

/-- The two ways in which bytes may fail to be a payload. -/
private theorem exists_of_decode_eq_error {error : FormatError} (h : decode info = .error error) :
    ∃ more, (GoesOnWith info more ∧ error = .codeSlack more.length) ∨
      (EndsBefore info more ∧ error = .unexpectedEnd info.length) := by
  obtain hrun | ⟨payload, stop, hrun, rfl⟩ := Decoder.runAll_eq_error h
  · obtain ⟨rfl, payload, more, hcut⟩ := isCompletable_decoder.exists_of_error takes_decoder hrun
    exact ⟨more, .inr ⟨⟨payload, hcut⟩, rfl⟩⟩
  · obtain ⟨hencodable, hinfo⟩ := takes_decoder.eq_encode_append hrun
    refine ⟨stop.rest, .inl ⟨⟨payload, hencodable, hinfo, fun hnil => ?_⟩, rfl⟩⟩
    rw [hnil, List.append_nil] at hinfo
    exact nomatch h.symm.trans (decode_eq_ok_iff.2 ⟨hencodable, hinfo⟩)

/-- Bytes that go on behind a payload are refused for what is behind it. -/
private theorem GoesOnWith.decode_eq {more : Bytes} (h : GoesOnWith info more) :
    decode info = .error (.codeSlack more.length) := by
  obtain ⟨payload, hencodable, rfl, hmore⟩ := h
  obtain ⟨stop, hrun, hrest⟩ := Decoder.runAll_eq_ok (decode_eq_ok_iff.2 ⟨hencodable, rfl⟩)
  have hleft : decode (payload.encode ++ more) =
      .error (.codeSlack (stop.rest.length + more.length)) :=
    isCompletable_decoder.runAll_append_of_ok hrun hmore
  rwa [hrest, List.length_nil, Nat.zero_add] at hleft

/-- A payload that is cut short is refused where it ends. -/
private theorem EndsBefore.decode_eq {more : Bytes} (h : EndsBefore info more) :
    decode info = .error (.unexpectedEnd info.length) := by
  obtain ⟨payload, hencodable, hencode, hmore⟩ := h
  have hok : decode (info ++ more) = .ok payload :=
    hencode ▸ decode_eq_ok_iff.2 ⟨hencodable, rfl⟩
  -- bytes that are complete already would have slack with more bytes behind them
  cases hinfo : decode info with
  | ok whole =>
    obtain ⟨hwhole, rfl⟩ := decode_eq_ok_iff.1 hinfo
    have hslack : GoesOnWith (whole.encode ++ more) more := ⟨whole, hwhole, rfl, hmore⟩
    exact nomatch hok.symm.trans hslack.decode_eq
  | error error =>
    obtain ⟨behind, ⟨⟨whole, hwhole, rfl, -⟩, -⟩ | ⟨-, rfl⟩⟩ := exists_of_decode_eq_error hinfo
    · have hslack : GoesOnWith (whole.encode ++ behind ++ more) (behind ++ more) :=
        ⟨whole, hwhole, List.append_assoc .., fun hnil => hmore (List.append_eq_nil_iff.1 hnil).2⟩
      exact nomatch hok.symm.trans hslack.decode_eq
    · rfl

/-- **Every byte string is a payload, a payload with slack behind it, or a payload cut short.** A
payload is read from the bytes that it is written to, and from no others, provided that its code
and the payloads nested in it are shorter than `2 ^ 32` bytes and that it has at most 65535 handlers
and as many attributes. All other bytes are refused: those that go on behind such a payload for
their slack, and those that end too early for their end. There are no others. -/
theorem decode_outcomes (info : Bytes) :
    (∀ payload, decode info = .ok payload ↔
      info = payload.encode ∧ payload.code.length < 2 ^ 32 ∧ payload.handlers.length ≤ 65535 ∧
        payload.attributes.length ≤ 65535 ∧
          ∀ attr ∈ payload.attributes, attr.info.length < 2 ^ 32) ∧
    (∀ left, decode info = .error (.codeSlack left) ↔
      ∃ more, GoesOnWith info more ∧ left = more.length) ∧
    (∀ position, decode info = .error (.unexpectedEnd position) ↔
      position = info.length ∧ ∃ more, EndsBefore info more) ∧
    ∀ error, decode info = .error error →
      error = .unexpectedEnd info.length ∨ ∃ left, error = .codeSlack left := by
  refine ⟨fun payload => ?_, fun left => ⟨fun h => ?_, ?_⟩, fun position => ⟨fun h => ?_, ?_⟩,
    fun error h => ?_⟩
  · -- what can be written is what is read; the bounds are those of the counts
    rw [decode_eq_ok_iff]
    constructor
    · rintro ⟨hencodable, hinfo⟩
      exact ⟨hinfo, hencodable.code, Nat.le_of_lt_succ hencodable.handlerCount,
        Nat.le_of_lt_succ hencodable.attributeCount, hencodable.attributes⟩
    · rintro ⟨hinfo, hcode, hhandlers, hcount, hattributes⟩
      exact ⟨⟨hcode, Nat.lt_succ_of_le hhandlers, Nat.lt_succ_of_le hcount, hattributes⟩, hinfo⟩
  · -- the two errors exclude each other
    obtain ⟨more, ⟨hslack, hleft⟩ | ⟨-, hend⟩⟩ := exists_of_decode_eq_error h
    · exact ⟨more, hslack, FormatError.codeSlack.inj hleft⟩
    · exact nomatch hend
  · rintro ⟨more, hslack, rfl⟩
    exact hslack.decode_eq
  · obtain ⟨more, ⟨-, hleft⟩ | ⟨hcut, hend⟩⟩ := exists_of_decode_eq_error h
    · exact nomatch hleft
    · exact ⟨FormatError.unexpectedEnd.inj hend, more, hcut⟩
  · rintro ⟨rfl, more, hcut⟩
    exact hcut.decode_eq
  · obtain ⟨more, ⟨-, hleft⟩ | ⟨-, hend⟩⟩ := exists_of_decode_eq_error h
    · exact .inr ⟨_, hleft⟩
    · exact .inl hend

end CodePayload

end ClassStub
