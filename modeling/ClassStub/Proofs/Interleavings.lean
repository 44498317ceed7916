import Mathlib.Data.List.Forall2
import ClassStub.Files.Stepwise

/-!
# Computations that share a state

Several computations work on one state, each step by step, and their steps come in any order
(`Stepwise.Interleaves`). What comes of one of them depends on what the others do to the state
between its steps. A contract says of a computation on what changes it relies, and to what changes
it restricts itself in turn (`Contract`). `Stepwise.Safe` says that a computation keeps to its
contract, and what holds when it is done.

If the changes to which each computation restricts itself are among those on which all others rely,
then each of them ends as it should, whatever the order of the steps (`Stepwise.Interleaves.safe`).
A computation that is alone with its state is the simplest case (`Stepwise.Safe.run`).
-/

namespace ClassStub

/-- What a computation relies on and what it guarantees. -/
structure Contract (σ : Type) where
  /-- How others may change the state between two steps. -/
  rely : σ → σ → Prop
  /-- How a step may change the state. -/
  guarantee : σ → σ → Prop
  refl : ∀ state, rely state state
  trans : ∀ {first second third}, rely first second → rely second third → rely first third

namespace Stepwise

variable {σ α β ι : Type}

/-- Some computations on one state take their steps in some order until all of them are done. -/
inductive Interleaves : List (Stepwise σ α) → σ → List α → σ → Prop
  | done (results : List α) (state : σ) : Interleaves (results.map done) state results state
  | step {before after : List (Stepwise σ α)} {change : σ → σ} {next : σ → Stepwise σ α}
      {state final : σ} {results : List α}
      (h : Interleaves (before ++ next state :: after) (change state) results final) :
      Interleaves (before ++ step change next :: after) state results final

/-- The computation keeps an invariant and the guarantee of its contract, as long as others keep to
what it relies on, and what is wanted holds when it is done. -/
def Safe (invariant : σ → Prop) (contract : Contract σ) (wanted : α → σ → Prop) :
    Stepwise σ α → σ → Prop
  | done result, state =>
    ∀ later, invariant later → contract.rely state later → wanted result later
  | step change next, state =>
    ∀ later, invariant later → contract.rely state later →
      invariant (change later) ∧ contract.guarantee later (change later) ∧
        Safe invariant contract wanted (next later) (change later)

/-! ### Rules -/

section Rules

variable {invariant : σ → Prop} {contract : Contract σ} {wanted : α → σ → Prop}
  {computation : Stepwise σ α} {state : σ}

/-- What others did before is among what they may do. -/
theorem Safe.of_rely (h : Safe invariant contract wanted computation state) {later : σ}
    (hrely : contract.rely state later) : Safe invariant contract wanted computation later := by
  cases computation with
  | done result => exact fun last hlast hlater => h last hlast (contract.trans hrely hlater)
  | step change next => exact fun last hlast hlater => h last hlast (contract.trans hrely hlater)

/-- Only states that others may leave behind have to be looked at. -/
private theorem safe_of_forall (h : ∀ later, invariant later → contract.rely state later →
    Safe invariant contract wanted computation later) :
    Safe invariant contract wanted computation state := by
  cases computation with
  | done result =>
    exact fun later hlater hrely => h later hlater hrely later hlater (contract.refl later)
  | step change next =>
    exact fun later hlater hrely => h later hlater hrely later hlater (contract.refl later)

/-- A result is safe if it is wanted whatever the others have done meanwhile. -/
theorem safe_pure {result : α}
    (h : ∀ later, invariant later → contract.rely state later → wanted result later) :
    Safe invariant contract wanted (pure result) state := h

/-- A single step. -/
theorem safe_act {operation : σ → α × σ}
    (h : ∀ now, invariant now → contract.rely state now → invariant (operation now).2 ∧
      contract.guarantee now (operation now).2 ∧
        ∀ later, invariant later → contract.rely (operation now).2 later →
          wanted (operation now).1 later) :
    Safe invariant contract wanted (act operation) state := h

/-- One computation after the other. -/
theorem Safe.bind {first : Stepwise σ β} {next : β → Stepwise σ α} {between : β → σ → Prop}
    (hfirst : Safe invariant contract between first state)
    (hnext : ∀ result later, invariant later → between result later →
      Safe invariant contract wanted (next result) later) :
    Safe invariant contract wanted (first >>= next) state := by
  induction first generalizing state with
  | done result =>
    exact safe_of_forall fun later hlater hrely =>
      hnext result later hlater (hfirst later hlater hrely)
  | step change following ih =>
    intro later hlater hrely
    obtain ⟨hinvariant, hguarantee, hrest⟩ := hfirst later hlater hrely
    exact ⟨hinvariant, hguarantee, ih later hrest⟩

/-- A computation that is alone with its state ends as it should. -/
theorem Safe.run (h : Safe invariant contract wanted computation state)
    (hstate : invariant state) :
    invariant (computation.run state).2 ∧
      wanted (computation.run state).1 (computation.run state).2 := by
  induction computation generalizing state with
  | done result => exact ⟨hstate, h state hstate (contract.refl state)⟩
  | step change next ih =>
    obtain ⟨hinvariant, -, hrest⟩ := h state hstate (contract.refl state)
    exact ih state hrest hinvariant

end Rules

/-! ### Many computations -/

section Many

variable {invariant : σ → Prop} {contract : ι → Contract σ} {wanted : ι → α → σ → Prop}

/-- **Computations that keep to what the others rely on end as they should**, whatever the order of
their steps. -/
theorem Interleaves.safe
    (hapart : ∀ i j, i ≠ j → ∀ state later, (contract i).guarantee state later →
      (contract j).rely state later)
    {items : List ι} (hdistinct : items.Nodup) {computations : List (Stepwise σ α)}
    {state final : σ} {results : List α} (h : Interleaves computations state results final)
    (hstate : invariant state)
    (hsafe : List.Forall₂ (fun i computation =>
      Safe invariant (contract i) (wanted i) computation state) items computations) :
    invariant final ∧ List.Forall₂ (fun i result => wanted i result final) items results := by
  induction h generalizing items with
  | done results state =>
    refine ⟨hstate, (List.forall₂_map_right_iff.1 hsafe).imp fun i result h => ?_⟩
    exact h state hstate ((contract i).refl state)
  | @step before after change next state _ _ h ih =>
    -- the items before and after the one whose computation takes the step
    have hbefore := List.forall₂_take_append items _ _ hsafe
    have hrest := List.forall₂_drop_append items _ _ hsafe
    rw [← List.take_append_drop before.length items] at hdistinct ⊢
    generalize items.take before.length = first at hbefore hdistinct ⊢
    generalize items.drop before.length = rest at hrest hdistinct ⊢
    cases hrest with
    | @cons i _ last _ hstep hafter =>
      obtain ⟨hinvariant, hguarantee, hnext⟩ := hstep state hstate ((contract i).refl state)
      have hothers : ∀ {others : List ι} {computations}, (∀ j ∈ others, j ≠ i) →
          List.Forall₂ (fun j computation =>
            Safe invariant (contract j) (wanted j) computation state) others computations →
          List.Forall₂ (fun j computation =>
            Safe invariant (contract j) (wanted j) computation (change state))
              others computations := by
        intro others computations hne hsafe
        refine ((List.forall₂_and_left _ _).2 ⟨hne, hsafe⟩).imp fun j computation h => ?_
        exact h.2.of_rely (hapart i j (Ne.symm h.1) _ _ hguarantee)
      refine ih hdistinct hinvariant (List.rel_append (hothers ?_ hbefore) (.cons hnext
        (hothers ?_ hafter)))
      · rintro j hmem rfl
        exact (List.nodup_append.1 hdistinct).2.2 j hmem j List.mem_cons_self rfl
      · rintro j hmem rfl
        exact (List.nodup_cons.1 (List.nodup_append.1 hdistinct).2.1).1 hmem

end Many

/-! ### One after the other -/

private theorem Interleaves.cons_done {computations : List (Stepwise σ α)} {state final : σ}
    {results : List α} (h : Interleaves computations state results final) (result : α) :
    Interleaves (.done result :: computations) state (result :: results) final := by
  induction h with
  | done results state => exact .done (result :: results) state
  | @step before after change next state final results h ih =>
    exact @Interleaves.step _ _ (.done result :: before) after change next state final _ ih

private theorem Interleaves.of_run {computation : Stepwise σ α}
    {computations : List (Stepwise σ α)} {state final : σ} {results : List α}
    (h : Interleaves (.done (computation.run state).1 :: computations) (computation.run state).2
      results final) :
    Interleaves (computation :: computations) state results final := by
  induction computation generalizing state with
  | done result => exact h
  | step change next ih =>
    exact @Interleaves.step _ _ [] computations change next state final results (ih state h)

/-- To take the computations one after the other is one of the orders. -/
theorem interleaves_mapM (action : ι → Stepwise σ α) (items : List ι) (state : σ) :
    Interleaves (items.map action) state ((items.mapM action).run state).1
      ((items.mapM action).run state).2 := by
  induction items generalizing state with
  | nil => exact .done [] state
  | cons item items ih =>
    rw [List.mapM_cons, List.map_cons]
    simp only [run_bind, run_pure]
    exact .of_run ((ih _).cons_done _)

end Stepwise

end ClassStub
