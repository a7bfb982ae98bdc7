import Mathlib.Data.List.Basic

/-!
Finite runs of a partial step function, each step of which met a side condition in the state
it was taken in. The rules below are the only inductions over runs in the development.
-/
namespace Ktl.Runs

variable {σ α : Type*}

/-- The actions `as` lead from `s` to `t`, each of them possible and meeting `ok`. -/
inductive Run (step : σ → α → Option σ) (ok : σ → α → Prop) : σ → List α → σ → Prop
  | nil (s : σ) : Run step ok s [] s
  | cons {s t u : σ} {a : α} {as : List α} (hok : ok s a) (hstep : step s a = some t)
      (hrest : Run step ok t as u) : Run step ok s (a :: as) u

variable {step : σ → α → Option σ} {ok ok' : σ → α → Prop}

theorem guarded {p : Prop} {hp : Decidable p} (h : (if p then some s else none) = some t) : p ∧ s = t := by
  simpa using h

/-- What every step keeps holds at the end of a run. -/
theorem Run.invariant {I : σ → Prop} (hstep : ∀ s a t, I s → ok s a → step s a = some t → I t)
    (h : Run step ok s as t) (hs : I s) : I t := by
  induction h with
  | nil s => exact hs
  | cons hok hst _ ih => exact ih (hstep _ _ _ hs hok hst)

/-- A relation that every step keeps holds at the end of a run. -/
theorem Run.simulation {τ : Type*} {R : σ → τ → Prop} {next : τ → α → τ} {m : τ}
    (hstep : ∀ s a t m, R s m → ok s a → step s a = some t → R t (next m a)) (h : Run step ok s as t)
    (hs : R s m) : R t (as.foldl next m) := by
  induction h generalizing m with
  | nil s => exact hs
  | cons hok hst _ ih => exact ih (hstep _ _ _ _ hs hok hst)

theorem Run.mono (himp : ∀ s a, ok s a → ok' s a) (h : Run step ok s as t) : Run step ok' s as t := by
  induction h with
  | nil s => exact .nil s
  | cons hok hst _ ih => exact .cons (himp _ _ hok) hst ih

theorem Run.congr {I : σ → Prop} (hiff : ∀ s a t, I s → step s a = some t → (ok s a ↔ ok' s a))
    (hkeep : ∀ s a t, I s → ok s a → step s a = some t → I t) (hs : I s) :
    Run step ok s as t ↔ Run step ok' s as t := by
  constructor
  · intro h
    induction h with
    | nil s => exact .nil s
    | cons hok hst _ ih => exact .cons ((hiff _ _ _ hs hst).mp hok) hst (ih (hkeep _ _ _ hs hok hst))
  · intro h
    induction h with
    | nil s => exact .nil s
    | cons hok hst _ ih =>
      have hok' := (hiff _ _ _ hs hst).mpr hok
      exact .cons hok' hst (ih (hkeep _ _ _ hs hok' hst))

/-- The same run computed: `none` as soon as a step is not possible or its
side condition fails. -/
def exec (step : σ → α → Option σ) (ok : σ → α → Prop) [∀ s a, Decidable (ok s a)] : σ → List α → Option σ
  | s, [] => some s
  | s, a :: as => if ok s a then (step s a).bind fun t => exec step ok t as else none

theorem run_of_exec [∀ s a, Decidable (ok s a)] (h : exec step ok s as = some t) : Run step ok s as t := by
  induction as generalizing s with
  | nil =>
    simp only [exec, Option.some.injEq] at h
    subst h
    exact .nil s
  | cons a as ih =>
    simp only [exec] at h
    split at h
    · rename_i hok
      obtain ⟨u, hu, hrest⟩ := Option.bind_eq_some_iff.mp h
      exact .cons hok hu (ih hrest)
    · exact absurd h (by simp)

theorem exists_run_of_exec [∀ s a, Decidable (ok s a)] {s : σ} (h : (exec step ok s as).isSome = true) :
    ∃ t, Run step ok s as t := by
  obtain ⟨t, ht⟩ := Option.isSome_iff_exists.mp h
  exact ⟨t, run_of_exec ht⟩

theorem run_of_exec_map {β : Type*} [∀ s a, Decidable (ok s a)] {s : σ} {f : σ → β} {b : β}
    (h : (exec step ok s as).map f = some b) : ∃ t, Run step ok s as t ∧ f t = b := by
  obtain ⟨t, ht, hview⟩ := Option.map_eq_some_iff.mp h
  exact ⟨t, run_of_exec ht, hview⟩

end Ktl.Runs
