/-!
# Stepwise computations

A stepwise computation works on a state that others may work on as well. A step looks at the state,
changes it, and goes on in a way that depends on what it saw. Nothing comes between the look and the
change, but between two steps anything may.
-/

namespace ClassStub

/-- A computation that works on a state step by step. -/
inductive Stepwise (σ α : Type) where
  | done (result : α)
  | step (change : σ → σ) (next : σ → Stepwise σ α)

namespace Stepwise

variable {σ α β : Type}

/-- One computation after the other. -/
def bind : Stepwise σ α → (α → Stepwise σ β) → Stepwise σ β
  | done result, next => next result
  | step change following, next => step change fun state => bind (following state) next

instance : Monad (Stepwise σ) where
  pure := done
  bind := bind

private theorem id_map (computation : Stepwise σ α) : id <$> computation = computation := by
  induction computation with
  | done result => rfl
  | step change next ih => exact congrArg (step change) (funext ih)

private theorem bind_assoc {γ : Type} (first : Stepwise σ α) (second : α → Stepwise σ β)
    (third : β → Stepwise σ γ) :
    (first >>= second) >>= third = first >>= fun result => second result >>= third := by
  induction first with
  | done result => rfl
  | step change following ih => exact congrArg (step change) (funext ih)

instance : LawfulMonad (Stepwise σ) := .mk' _ id_map (fun _ _ => rfl) bind_assoc

/-- An operation on the state as a single step. -/
def act (operation : σ → α × σ) : Stepwise σ α :=
  step (fun state => (operation state).2) fun state => done (operation state).1

/-- What comes of a computation that is alone with its state. -/
def run : Stepwise σ α → σ → α × σ
  | done result, state => (result, state)
  | step change next, state => run (next state) (change state)

@[simp] theorem run_pure (result : α) (state : σ) :
    (pure result : Stepwise σ α).run state = (result, state) := rfl

@[simp] theorem run_act (operation : σ → α × σ) (state : σ) :
    (act operation).run state = operation state := rfl

@[simp] theorem run_bind (first : Stepwise σ α) (next : α → Stepwise σ β) (state : σ) :
    (first >>= next).run state = (next (first.run state).1).run (first.run state).2 := by
  induction first generalizing state with
  | done result => rfl
  | step change following ih => exact ih state (change state)

end Stepwise

end ClassStub
