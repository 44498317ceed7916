import Mathlib.Data.List.Forall2
import Std.Data.HashSet.Lemmas

/-!
# Chains of steps that may fail

A chain of steps succeeds when each step does. For look-ups and checks, which are values of
`Except`, and for actions, which also pass a state on, this is stated as an equivalence, so that
a chain is opened one step at a time.
-/

namespace ClassStub

variable {ε ε' σ α β : Type}

/-! ### Look-ups and checks -/

/-- Two steps succeed if the first one does and the second one does with its result. -/
theorem bind_eq_ok_iff {first : Except ε α} {next : α → Except ε β} {b : β} :
    (first >>= next) = .ok b ↔ ∃ a, first = .ok a ∧ next a = .ok b := by
  cases first with
  | ok a =>
    constructor
    · intro h
      exact ⟨a, rfl, h⟩
    · rintro ⟨_, ⟨⟩, h⟩
      exact h
  | error error =>
    constructor
    · intro h
      exact nomatch h
    · rintro ⟨_, ⟨⟩, _⟩

/-- A check that goes first only has to succeed. -/
theorem bind_unit_eq_ok_iff {first : Except ε Unit} {next : Unit → Except ε β} {b : β} :
    (first >>= next) = .ok b ↔ first = .ok () ∧ next () = .ok b := by
  rw [bind_eq_ok_iff]
  constructor
  · rintro ⟨⟨⟩, h⟩
    exact h
  · intro h
    exact ⟨(), h⟩

theorem pure_eq_ok_iff {a b : α} : (pure a : Except ε α) = .ok b ↔ a = b := by
  change Except.ok a = .ok b ↔ a = b
  rw [Except.ok.injEq]

/-- The result of a step may be changed. -/
theorem map_eq_ok_iff {f : α → β} {value : Except ε α} {b : β} :
    value.map f = .ok b ↔ ∃ a, value = .ok a ∧ f a = b := by
  cases value <;> simp [Except.map]

/-- Changing the result does not change an error. -/
theorem map_eq_error_iff {f : α → β} {value : Except ε α} {error : ε} :
    value.map f = .error error ↔ value = .error error := by
  cases value <;> simp [Except.map]

/-- Changing the error does not change a result. -/
theorem mapError_eq_ok_iff {f : ε → ε'} {value : Except ε α} {a : α} :
    value.mapError f = .ok a ↔ value = .ok a := by
  cases value <;> simp [Except.mapError]

theorem toOption_eq_some_iff {value : Except ε α} {a : α} :
    value.toOption = some a ↔ value = .ok a := by
  cases value <;> simp [Except.toOption]

/-- A check that throws under some condition succeeds when the condition fails. -/
theorem throw_if_eq_ok_iff {p : Prop} [Decidable p] {error : ε}
    {next : Unit → Except ε β} {b : β} :
    (if p then throw error >>= next else next ()) = .ok b ↔ ¬ p ∧ next () = .ok b := by
  by_cases h : p
  · rw [if_pos h]
    constructor
    · intro h
      exact nomatch h
    · intro hok
      exact absurd h hok.1
  · rw [if_neg h]
    exact ⟨fun hok => ⟨h, hok⟩, fun hok => hok.2⟩

/-- So does the last check of a chain. -/
theorem throw_if_last_eq_ok_iff {p : Prop} [Decidable p] {error : ε} :
    (if p then throw error else pure () : Except ε Unit) = .ok () ↔ ¬ p := by
  by_cases h : p
  · rw [if_pos h]
    exact ⟨(nomatch ·), fun hnot => absurd h hnot⟩
  · rw [if_neg h]
    exact ⟨fun _ => h, fun _ => rfl⟩

/-- A list of look-ups succeeds when each of them does. -/
theorem mapM_eq_ok_iff {f : α → Except ε β} {l : List α} {found : List β} :
    l.mapM f = .ok found ↔ List.Forall₂ (fun a b => f a = .ok b) l found := by
  induction l generalizing found with
  | nil =>
    rw [List.mapM_nil, pure_eq_ok_iff, List.forall₂_nil_left_iff, eq_comm]
  | cons a l ih =>
    simp only [List.mapM_cons, bind_eq_ok_iff, pure_eq_ok_iff, ih, List.forall₂_cons_left_iff]
    constructor
    · rintro ⟨b, hfirst, rest, hrest, rfl⟩
      exact ⟨b, rest, hfirst, hrest, rfl⟩
    · rintro ⟨b, rest, hfirst, hrest, rfl⟩
      exact ⟨b, hfirst, rest, hrest, rfl⟩

/-- A list of checks succeeds when each of them does. -/
theorem forM_eq_ok_iff {f : α → Except ε Unit} {l : List α} :
    l.forM f = .ok () ↔ ∀ a ∈ l, f a = .ok () := by
  induction l with
  | nil => exact ⟨fun _ _ hmem => absurd hmem List.not_mem_nil, fun _ => rfl⟩
  | cons a l ih =>
    change (f a >>= fun _ => l.forM f) = .ok () ↔ _
    rw [bind_unit_eq_ok_iff, ih, List.forall_mem_cons]

/-- A loop that takes a key from each element and remembers the keys it has seen succeeds when
the keys differ from each other and from those that were seen before. -/
theorem keyed_eq_ok_iff {κ : Type} [BEq κ] [Hashable κ] [LawfulBEq κ] [LawfulHashable κ]
    {loop : Std.HashSet κ → List α → Except ε Unit} (keyed : α → κ → Prop)
    (hnil : ∀ seen, loop seen [] = .ok ())
    (hcons : ∀ seen a l, loop seen (a :: l) = .ok () ↔ ∃ key,
      keyed a key ∧ ¬ seen.contains key = true ∧ loop (seen.insert key) l = .ok ())
    {seen : Std.HashSet κ} {l : List α} :
    loop seen l = .ok () ↔ ∃ keys, List.Forall₂ keyed l keys ∧ keys.Nodup ∧
      ∀ key ∈ keys, ¬ seen.contains key = true := by
  induction l generalizing seen with
  | nil =>
    refine ⟨fun _ => ⟨[], .nil, List.nodup_nil, fun _ hmem => ?_⟩, fun _ => hnil seen⟩
    exact absurd hmem List.not_mem_nil
  | cons a l ih =>
    rw [hcons]
    -- what was seen before stays seen, so a key must differ from it and from the keys to come
    simp only [ih, Std.HashSet.contains_insert, Bool.or_eq_true, beq_iff_eq, not_or]
    constructor
    · rintro ⟨key, hkey, hfresh, keys, hkeys, hnodup, hothers⟩
      refine ⟨key :: keys, .cons hkey hkeys, List.nodup_cons.2 ⟨fun hmem => ?_, hnodup⟩, ?_⟩
      · exact (hothers key hmem).1 rfl
      · exact List.forall_mem_cons.2 ⟨hfresh, fun other hmem => (hothers other hmem).2⟩
    · rintro ⟨_, hkeys, hnodup, hfresh⟩
      obtain ⟨key, rest, hkey, hrest, rfl⟩ := List.forall₂_cons_left_iff.1 hkeys
      rw [List.forall_mem_cons] at hfresh
      obtain ⟨hnot, hnodup⟩ := List.nodup_cons.1 hnodup
      refine ⟨key, hkey, hfresh.1, rest, hrest, hnodup, fun other hmem => ⟨?_, ?_⟩⟩
      · rintro rfl
        exact hnot hmem
      · exact hfresh.2 other hmem

/-! ### Why a chain fails -/

/-- Two steps fail if the first one does, or if the second one does with its result. -/
theorem bind_eq_error_iff {first : Except ε α} {next : α → Except ε β} {error : ε} :
    (first >>= next) = .error error ↔
      first = .error error ∨ ∃ a, first = .ok a ∧ next a = .error error := by
  cases first with
  | ok a =>
    constructor
    · intro h
      exact .inr ⟨a, rfl, h⟩
    · rintro (h | ⟨_, ⟨⟩, h⟩)
      · exact nomatch h
      · exact h
  | error cause =>
    constructor
    · rintro ⟨⟩
      exact .inl rfl
    · rintro (⟨⟨⟩⟩ | ⟨_, ⟨⟩, _⟩)
      rfl

/-- The error of a step may be changed. -/
theorem mapError_eq_error_iff {f : ε → ε'} {value : Except ε α} {error : ε'} :
    value.mapError f = .error error ↔ ∃ cause, value = .error cause ∧ f cause = error := by
  cases value <;> simp [Except.mapError]

/-- A check that comes first fails on its condition, or what follows fails. -/
theorem throw_if_eq_error_iff {p : Prop} [Decidable p] {cause error : ε}
    {next : Unit → Except ε β} :
    (if p then throw cause >>= next else next ()) = .error error ↔
      (p ∧ cause = error) ∨ (¬ p ∧ next () = .error error) := by
  by_cases h : p
  · rw [if_pos h]
    constructor
    · rintro ⟨⟩
      exact .inl ⟨h, rfl⟩
    · rintro (⟨-, rfl⟩ | ⟨hnot, -⟩)
      · rfl
      · exact absurd h hnot
  · rw [if_neg h]
    constructor
    · intro hnext
      exact .inr ⟨h, hnext⟩
    · rintro (⟨hp, -⟩ | ⟨-, hnext⟩)
      · exact absurd hp h
      · exact hnext

/-- One of the checks in a list fails if the list does. -/
theorem exists_of_forM_eq_error {f : α → Except ε Unit} {l : List α} {error : ε}
    (h : l.forM f = .error error) : ∃ a ∈ l, f a = .error error := by
  induction l with
  | nil => exact nomatch h
  | cons a l ih =>
    rcases bind_eq_error_iff.1 h with hfirst | ⟨-, -, hrest⟩
    · exact ⟨a, List.mem_cons_self, hfirst⟩
    · obtain ⟨b, hmem, hfailed⟩ := ih hrest
      exact ⟨b, List.mem_cons_of_mem a hmem, hfailed⟩

/-- One of the steps over a list fails if the list does. -/
theorem exists_of_foldlM_eq_error {f : β → α → Except ε β} {l : List α} {start : β} {error : ε}
    (h : l.foldlM f start = .error error) : ∃ a ∈ l, ∃ b, f b a = .error error := by
  induction l generalizing start with
  | nil => exact nomatch h
  | cons a l ih =>
    rw [List.foldlM_cons] at h
    rcases bind_eq_error_iff.1 h with hfirst | ⟨next, -, hrest⟩
    · exact ⟨a, List.mem_cons_self, start, hfirst⟩
    · obtain ⟨b, hmem, hfailed⟩ := ih hrest
      exact ⟨b, List.mem_cons_of_mem a hmem, hfailed⟩

/-! ### Actions -/

/-- The second action runs in the state that the first one left. -/
theorem bind_run_eq_ok_iff {first : EStateM ε σ α} {next : α → EStateM ε σ β} {s s' : σ} {b : β} :
    (first >>= next) s = .ok b s' ↔
      ∃ a middle, first s = .ok a middle ∧ next a middle = .ok b s' := by
  change EStateM.bind first next s = .ok b s' ↔ _
  rw [EStateM.bind]
  cases first s with
  | ok a middle =>
    constructor
    · intro h
      exact ⟨a, middle, rfl, h⟩
    · rintro ⟨_, _, ⟨⟩, h⟩
      exact h
  | error error middle =>
    constructor
    · intro h
      exact nomatch h
    · rintro ⟨_, _, ⟨⟩, _⟩

/-- Two steps on a state fail in the first one, or in the second one with what the first one left.
-/
theorem bind_run_eq_error_iff {first : EStateM ε σ α} {next : α → EStateM ε σ β} {s s' : σ}
    {error : ε} :
    (first >>= next) s = .error error s' ↔ first s = .error error s' ∨
      ∃ a middle, first s = .ok a middle ∧ next a middle = .error error s' := by
  change EStateM.bind first next s = .error error s' ↔ _
  rw [EStateM.bind]
  cases first s with
  | ok a middle =>
    constructor
    · intro h
      exact .inr ⟨a, middle, rfl, h⟩
    · rintro (h | ⟨_, _, ⟨⟩, h⟩)
      · exact nomatch h
      · exact h
  | error error' middle =>
    constructor
    · rintro ⟨⟩
      exact .inl rfl
    · rintro (⟨⟨⟩⟩ | ⟨_, _, ⟨⟩, _⟩)
      rfl

theorem pure_run_eq_ok_iff {a b : α} {s s' : σ} :
    (pure a : EStateM ε σ α) s = .ok b s' ↔ a = b ∧ s = s' := by
  change EStateM.Result.ok a s = .ok b s' ↔ _
  rw [EStateM.Result.ok.injEq]

/-- The value and the state with which a run ends, if it succeeds. -/
def ending? : EStateM.Result ε σ α → Option (α × σ)
  | .ok a s => some (a, s)
  | .error _ _ => none

/-- On closed terms, this lets a run be decided. -/
theorem ending?_eq_some_iff {result : EStateM.Result ε σ α} {a : α} {s : σ} :
    ending? result = some (a, s) ↔ result = .ok a s := by
  cases result <;> simp [ending?]

theorem get_run (s : σ) : (get : EStateM ε σ σ) s = .ok s s := rfl

/-- A first step that succeeds hands over its result and its state. -/
theorem bind_run_of_ok {first : EStateM ε σ α} {next : α → EStateM ε σ β} {s middle : σ} {a : α}
    (h : first s = .ok a middle) : (first >>= next) s = next a middle := by
  change EStateM.bind first next s = next a middle
  rw [EStateM.bind, h]

/-- A first step that fails ends the run. -/
theorem bind_run_of_error {first : EStateM ε σ α} {next : α → EStateM ε σ β} {s middle : σ}
    {error : ε} (h : first s = .error error middle) :
    (first >>= next) s = .error error middle := by
  change EStateM.bind first next s = .error error middle
  rw [EStateM.bind, h]

/-- Two chains run alike if their first actions do, and if after a success of these the rest
does. -/
theorem bind_run_congr {first first' : EStateM ε σ α} {next next' : α → EStateM ε σ β} {s : σ}
    (hfirst : first s = first' s)
    (hnext : ∀ a middle, first s = .ok a middle → next a middle = next' a middle) :
    (first >>= next) s = (first' >>= next') s := by
  change EStateM.bind first next s = EStateM.bind first' next' s
  rw [EStateM.bind, EStateM.bind, ← hfirst]
  cases hrun : first s with
  | ok a middle => exact hnext a middle hrun
  | error error middle => rfl

/-- A run over a list is one over its head, and then one over its tail. -/
theorem mapM_cons_run_eq_ok_iff {f : α → EStateM ε σ β} {a : α} {l : List α} {results : List β}
    {s s' : σ} :
    (a :: l).mapM f s = .ok results s' ↔ ∃ b middle rest,
      f a s = .ok b middle ∧ l.mapM f middle = .ok rest s' ∧ b :: rest = results := by
  rw [List.mapM_cons]
  constructor
  · intro h
    obtain ⟨b, middle, hfirst, h⟩ := bind_run_eq_ok_iff.1 h
    obtain ⟨rest, last, hrest, hpure⟩ := bind_run_eq_ok_iff.1 h
    obtain ⟨hresults, rfl⟩ := pure_run_eq_ok_iff.1 hpure
    exact ⟨b, middle, rest, hfirst, hrest, hresults⟩
  · rintro ⟨b, middle, rest, hfirst, hrest, rfl⟩
    exact bind_run_eq_ok_iff.2 ⟨b, middle, hfirst, bind_run_eq_ok_iff.2 ⟨rest, s', hrest, rfl⟩⟩

/-- A list of steps fails at its first element or at a later one. -/
theorem mapM_cons_run_eq_error_iff {f : α → EStateM ε σ β} {a : α} {l : List α} {s s' : σ}
    {error : ε} :
    (a :: l).mapM f s = .error error s' ↔ f a s = .error error s' ∨
      ∃ b middle, f a s = .ok b middle ∧ l.mapM f middle = .error error s' := by
  rw [List.mapM_cons, bind_run_eq_error_iff]
  refine or_congr_right (exists₂_congr fun b middle => and_congr_right fun _ => ?_)
  rw [bind_run_eq_error_iff]
  constructor
  · rintro (hrest | ⟨_, _, -, hpure⟩)
    · exact hrest
    · exact nomatch hpure
  · exact .inl

/-- A list of actions, each of which takes a sound state to a later one: what holds of an element
and its result after its own action still holds in the state that is left at the end. -/
theorem mapM_run_eq_ok {f : α → EStateM ε σ β} (sound : σ → Prop) (later : σ → σ → Prop)
    (holds : σ → α → β → Prop) (hrefl : ∀ s, later s s)
    (htrans : ∀ s s' s'', later s s' → later s' s'' → later s s'')
    (hstep : ∀ a s b s', sound s → f a s = .ok b s' → sound s' ∧ later s s' ∧ holds s' a b)
    (hkeep : ∀ s s' a b, later s s' → holds s a b → holds s' a b)
    {l : List α} {results : List β} {s s' : σ} (hsound : sound s)
    (hrun : l.mapM f s = .ok results s') :
    sound s' ∧ later s s' ∧ List.Forall₂ (holds s') l results := by
  induction l generalizing s results with
  | nil =>
    obtain ⟨rfl, rfl⟩ := pure_run_eq_ok_iff.1 hrun
    exact ⟨hsound, hrefl s, .nil⟩
  | cons a l ih =>
    obtain ⟨b, middle, rest, hfirst, hrest, rfl⟩ := mapM_cons_run_eq_ok_iff.1 hrun
    obtain ⟨hmiddle, hlater, hholds⟩ := hstep a s b middle hsound hfirst
    obtain ⟨hlast, hlater', hothers⟩ := ih hmiddle hrest
    exact ⟨hlast, htrans s middle s' hlater hlater', .cons (hkeep _ _ a b hlater' hholds) hothers⟩

end ClassStub
