import Mathlib.Tactic.TypeStar

/-!
How a call ends: it returns or an exception leaves it, and in both cases there
is a state to go on with.
-/
namespace Ktl

inductive Outcome (ε σ : Type*) where
  | returned (state : σ)
  | threw (error : ε) (state : σ)
  deriving DecidableEq

namespace Outcome

variable {ε σ : Type*}

def state : Outcome ε σ → σ
  | .returned s | .threw _ s => s

def andThen (o : Outcome ε σ) (f : σ → Outcome ε σ) : Outcome ε σ :=
  match o with
  | .returned s => f s
  | .threw e s => .threw e s

def map (o : Outcome ε σ) (f : σ → σ) : Outcome ε σ := o.andThen fun s => .returned (f s)

@[simp] theorem state_returned (s : σ) : (returned s : Outcome ε σ).state = s := rfl
@[simp] theorem state_threw (e : ε) (s : σ) : (threw e s).state = s := rfl
@[simp] theorem andThen_returned (s : σ) (f : σ → Outcome ε σ) : (returned s).andThen f = f s := rfl
@[simp] theorem andThen_threw (e : ε) (s : σ) (f : σ → Outcome ε σ) : (threw e s).andThen f = threw e s := rfl
@[simp] theorem map_returned (s : σ) (f : σ → σ) : (returned s : Outcome ε σ).map f = returned (f s) := rfl
@[simp] theorem map_threw (e : ε) (s : σ) (f : σ → σ) : (threw e s).map f = threw e s := rfl

theorem returned_of_andThen {o : Outcome ε σ} (h : o.andThen f = returned t) :
    ∃ s, o = returned s ∧ f s = returned t := by
  cases o with
  | returned s => exact ⟨s, rfl, h⟩
  | threw e s => cases h

/-- A measure that neither the first part nor what follows it lowers. -/
theorem le_state_andThen {o : Outcome ε σ} (μ : σ → Nat) (h : n ≤ μ o.state) (hf : ∀ s, μ s ≤ μ (f s).state) :
    n ≤ μ (o.andThen f).state := by
  cases o with
  | returned s => exact Nat.le_trans h (hf s)
  | threw e s => exact h

end Outcome
end Ktl
