import ClassStub.Proofs.Text

/-!
# Code units that form a text

`Utf16.decode?` joins surrogates to pairs while it reads from the front, so whether it succeeds
depends on how the units before were paired. The condition has a form that speaks of neighbours
only: each high surrogate stands directly before a low one, and each low one directly behind a
high one (`Utf16.IsPaired`). The units that meet it are the ones that are read as a text
(`Utf16.isSome_decode?_iff`).

Reading loses nothing: the units of the text are the ones that it was read from
(`Utf16.decode?_eq_some_iff`).
-/

namespace ClassStub.Utf16

variable {unit high low next : UInt16} {units : List UInt16} {before chars : List Char}

/-- No surrogate in the sequence is without its partner. -/
structure IsPaired (units : List UInt16) : Prop where
  /-- A high surrogate is directly followed by a low one. -/
  high : ∀ (i : Nat) (unit : UInt16), units[i]? = some unit → isHigh unit = true →
    ∃ next, units[i + 1]? = some next ∧ isLow next = true
  /-- A low surrogate is directly preceded by a high one. -/
  low : ∀ (i : Nat) (unit : UInt16), units[i]? = some unit → isLow unit = true →
    ∃ j previous, i = j + 1 ∧ units[j]? = some previous ∧ isHigh previous = true

/-! ### Surrogates -/

private theorem isHigh_iff : isHigh unit = true ↔ 0xD800 ≤ unit.toNat ∧ unit.toNat < 0xDC00 := by
  rw [isHigh, Bool.and_eq_true, decide_eq_true_eq, decide_eq_true_eq]

private theorem isLow_iff : isLow unit = true ↔ 0xDC00 ≤ unit.toNat ∧ unit.toNat < 0xE000 := by
  rw [isLow, Bool.and_eq_true, decide_eq_true_eq, decide_eq_true_eq]

private theorem isLow_eq_false_of_isHigh (h : isHigh unit = true) : isLow unit = false := by
  have hhigh := isHigh_iff.1 h
  rw [Bool.eq_false_iff, Ne, isLow_iff]
  omega

/-! ### The first units of a sequence -/

private theorem isPaired_nil : IsPaired [] where
  high i unit hget := by simp at hget
  low i unit hget := by simp at hget

/-- A unit that is no surrogate has no part in any pair. -/
private theorem isPaired_cons_iff (hhigh : isHigh unit = false) (hlow : isLow unit = false) :
    IsPaired (unit :: units) ↔ IsPaired units := by
  constructor
  · intro h
    refine ⟨fun i other hget hother => h.high (i + 1) other hget hother, ?_⟩
    intro i other hget hother
    obtain ⟨j, previous, hj, hprevious, hhigh'⟩ := h.low (i + 1) other hget hother
    obtain rfl : i = j := Nat.succ.inj hj
    cases i with
    | zero =>
      obtain rfl := Option.some.inj hprevious
      exact absurd hhigh' (by simp [hhigh])
    | succ i => exact ⟨i, previous, rfl, hprevious, hhigh'⟩
  · intro h
    constructor
    · intro i other hget hother
      cases i with
      | zero =>
        obtain rfl := Option.some.inj hget
        exact absurd hother (by simp [hhigh])
      | succ i => exact h.high i other hget hother
    · intro i other hget hother
      cases i with
      | zero =>
        obtain rfl := Option.some.inj hget
        exact absurd hother (by simp [hlow])
      | succ i =>
        obtain ⟨j, previous, rfl, hprevious, hhigh'⟩ := h.low i other hget hother
        exact ⟨j + 1, previous, rfl, hprevious, hhigh'⟩

/-- Behind a pair, everything starts anew. -/
private theorem isPaired_cons_cons_iff (hhigh : isHigh high = true) (hlow : isLow low = true) :
    IsPaired (high :: low :: units) ↔ IsPaired units := by
  have hnotLow : isLow high = false := isLow_eq_false_of_isHigh hhigh
  have hnotHigh : isHigh low = false := by
    rw [Bool.eq_false_iff]
    intro h
    exact absurd hlow (by simp [isLow_eq_false_of_isHigh h])
  constructor
  · intro h
    -- what holds of a position behind the pair holds of it two positions earlier
    refine ⟨fun i other hget hother => h.high (i + 2) other hget hother, ?_⟩
    intro i other hget hother
    obtain ⟨j, previous, hj, hprevious, hhigh'⟩ := h.low (i + 2) other hget hother
    obtain rfl : i + 1 = j := Nat.succ.inj hj
    cases i with
    | zero =>
      obtain rfl := Option.some.inj hprevious
      exact absurd hhigh' (by simp [hnotHigh])
    | succ i => exact ⟨i, previous, rfl, hprevious, hhigh'⟩
  · intro h
    constructor
    · intro i other hget hother
      match i with
      | 0 => exact ⟨low, rfl, hlow⟩
      | 1 =>
        obtain rfl := Option.some.inj hget
        exact absurd hother (by simp [hnotHigh])
      | i + 2 => exact h.high i other hget hother
    · intro i other hget hother
      match i with
      | 0 =>
        obtain rfl := Option.some.inj hget
        exact absurd hother (by simp [hnotLow])
      | 1 => exact ⟨0, high, rfl, rfl, hhigh⟩
      | i + 2 =>
        obtain ⟨j, previous, rfl, hprevious, hhigh'⟩ := h.low i other hget hother
        exact ⟨j + 2, previous, rfl, hprevious, hhigh'⟩

private theorem IsPaired.exists_low (h : IsPaired (unit :: units)) (hhigh : isHigh unit = true) :
    ∃ next rest, units = next :: rest ∧ isLow next = true := by
  obtain ⟨next, hnext, hlow⟩ := h.high 0 unit rfl hhigh
  cases units with
  | nil => exact nomatch hnext
  | cons other rest =>
    obtain rfl := Option.some.inj hnext
    exact ⟨_, rest, rfl, hlow⟩

private theorem IsPaired.isLow_eq_false (h : IsPaired (unit :: units)) : isLow unit = false := by
  rw [Bool.eq_false_iff]
  intro hlow
  obtain ⟨j, previous, hj, -, -⟩ := h.low 0 unit rfl hlow
  exact nomatch hj

/-! ### Reading -/

private theorem isSome_decodeOnto_iff :
    (decodeOnto before units).isSome = true ↔ IsPaired units := by
  fun_induction decodeOnto before units with
  | case1 before => exact iff_of_true rfl isPaired_nil
  | case2 before unit hhigh next rest hlow ih => rw [ih, isPaired_cons_cons_iff hhigh hlow]
  | case3 before unit hhigh next rest hlow =>
    refine iff_of_false Bool.false_ne_true fun h => ?_
    obtain ⟨other, _, hrest, hother⟩ := h.exists_low hhigh
    obtain rfl := (List.cons.inj hrest).1
    exact hlow hother
  | case4 before unit hhigh =>
    refine iff_of_false Bool.false_ne_true fun h => ?_
    obtain ⟨_, _, hrest, -⟩ := h.exists_low hhigh
    exact nomatch hrest
  | case5 before unit rest hhigh hlow =>
    refine iff_of_false Bool.false_ne_true fun h => ?_
    exact absurd hlow (by simp [h.isLow_eq_false])
  | case6 before unit rest hhigh hlow ih =>
    rw [ih, isPaired_cons_iff (Bool.eq_false_iff.2 hhigh) (Bool.eq_false_iff.2 hlow)]

/-- The units that are read as a text are those without lone surrogates. -/
theorem isSome_decode?_iff : (decode? units).isSome = true ↔ IsPaired units := by
  rw [decode?, Option.isSome_map]
  exact isSome_decodeOnto_iff

/-! ### What was read is written again -/

private theorem toNat_ofNat_of_valid {n : Nat} (h : n < 0xD800 ∨ (0xDFFF < n ∧ n < 0x110000)) :
    (Char.ofNat n).toNat = n := by
  have hchar : Char.ofNat n = Char.ofNatAux n h := dif_pos h
  rw [hchar]
  rfl

private theorem encodeChar_joinPair (hhigh : isHigh high = true) (hlow : isLow low = true) :
    encodeChar (joinPair high low) = [high, low] := by
  have hhigh' := isHigh_iff.1 hhigh
  have hlow' := isLow_iff.1 hlow
  -- the two surrogates give ten bits each to the distance from `0x10000`
  have hchar : (joinPair high low).toNat =
      0x10000 + (high.toNat - 0xD800) * 0x400 + (low.toNat - 0xDC00) :=
    toNat_ofNat_of_valid (by omega)
  have hupper : 0xD800 + ((joinPair high low).toNat - 0x10000) / 0x400 = high.toNat := by omega
  have hlower : 0xDC00 + ((joinPair high low).toNat - 0x10000) % 0x400 = low.toNat := by omega
  rw [encodeChar, if_neg (by omega), hupper, hlower, UInt16.ofNat_toNat, UInt16.ofNat_toNat]

private theorem encodeChar_ofNat (hhigh : isHigh unit = false) (hlow : isLow unit = false) :
    encodeChar (Char.ofNat unit.toNat) = [unit] := by
  have hlt : unit.toNat < 0x10000 := unit.toNat_lt
  have hrange : unit.toNat < 0xD800 ∨ (0xDFFF < unit.toNat ∧ unit.toNat < 0x110000) := by
    rw [Bool.eq_false_iff, Ne, isHigh_iff] at hhigh
    rw [Bool.eq_false_iff, Ne, isLow_iff] at hlow
    omega
  have hchar := toNat_ofNat_of_valid hrange
  rw [encodeChar, hchar, if_pos hlt, UInt16.ofNat_toNat]

private theorem flatMap_encodeChar_of_decodeOnto (h : decodeOnto before units = some chars) :
    chars.flatMap encodeChar = before.reverse.flatMap encodeChar ++ units := by
  fun_induction decodeOnto before units with
  | case1 before =>
    obtain rfl := Option.some.inj h
    rw [List.append_nil]
  | case2 before unit hhigh next rest hlow ih =>
    rw [ih h, List.reverse_cons, List.flatMap_append, List.flatMap_singleton,
      encodeChar_joinPair hhigh hlow, List.append_assoc, List.cons_append, List.singleton_append]
  | case3 => exact nomatch h
  | case4 => exact nomatch h
  | case5 => exact nomatch h
  | case6 before unit rest hhigh hlow ih =>
    have hsingle := encodeChar_ofNat (Bool.eq_false_iff.2 hhigh) (Bool.eq_false_iff.2 hlow)
    rw [ih h, List.reverse_cons, List.flatMap_append, List.flatMap_singleton, hsingle,
      List.append_assoc, List.singleton_append]

/-- A text is read from its own units and from no others. -/
theorem decode?_eq_some_iff {text : String} : decode? units = some text ↔ encode text = units := by
  constructor
  · intro h
    obtain ⟨chars, hchars, rfl⟩ := Option.map_eq_some_iff.1 h
    rw [encode, String.toList_ofList, flatMap_encodeChar_of_decodeOnto hchars, List.reverse_nil,
      List.flatMap_nil, List.nil_append]
  · rintro rfl
    exact decode?_encode text

end ClassStub.Utf16
