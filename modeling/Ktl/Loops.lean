import Mathlib.Data.Nat.Basic

/-!
Loops that need not end. A pass over the body goes on with another state or
leaves the loop with a result; the loop ends if some number of passes is enough.
-/
namespace Ktl.Loops

variable {σ ρ : Type*}

inductive Pass (σ ρ : Type*) where
  | again (s : σ)
  | leave (r : ρ)
  deriving DecidableEq

def run (body : σ → Pass σ ρ) : Nat → σ → Option ρ
  | 0, _ => none
  | n + 1, s =>
    match body s with
    | .again t => run body n t
    | .leave r => some r

def Ends (body : σ → Pass σ ρ) (s : σ) (r : ρ) : Prop := ∃ n, run body n s = some r

inductive Reaches (body : σ → Pass σ ρ) : σ → σ → Prop
  | refl (s : σ) : Reaches body s s
  | again {s t u : σ} (hpass : body s = .again t) (hrest : Reaches body t u) : Reaches body s u

variable {body : σ → Pass σ ρ}

theorem run_succ_again (n : Nat) (h : body s = .again t) : run body (n + 1) s = run body n t := by
  simp [run, h]
theorem run_succ_leave (n : Nat) (h : body s = .leave r) : run body (n + 1) s = some r := by
  simp [run, h]

/-- More passes do not change the result. -/
theorem run_mono (h : run body n s = some r) (hle : n ≤ m) : run body m s = some r := by
  induction n generalizing m s with
  | zero => cases h
  | succ n ih =>
    obtain ⟨m, rfl⟩ : ∃ k, m = k + 1 := ⟨m - 1, by omega⟩
    cases hpass : body s with
    | again t =>
      rw [run_succ_again _ hpass] at h ⊢
      exact ih h (by omega)
    | leave r' => rwa [run_succ_leave _ hpass] at h ⊢

theorem Ends.unique (h : Ends body s r) (h' : Ends body s r') : r = r' := by
  obtain ⟨n, hn⟩ := h
  obtain ⟨m, hm⟩ := h'
  have hn' := run_mono hn (Nat.le_max_left n m)
  rw [run_mono hm (Nat.le_max_right n m)] at hn'
  exact (Option.some.inj hn').symm

theorem ends_leave_iff (h : body s = .leave r) : Ends body s r' ↔ r' = r := by
  constructor
  · rintro ⟨n, hn⟩
    cases n with
    | zero => cases hn
    | succ n =>
      rw [run_succ_leave _ h] at hn
      exact (Option.some.inj hn).symm
  · rintro rfl
    exact ⟨1, run_succ_leave 0 h⟩

theorem ends_again_iff (h : body s = .again t) : Ends body s r ↔ Ends body t r := by
  constructor
  · rintro ⟨n, hn⟩
    cases n with
    | zero => cases hn
    | succ n => exact ⟨n, by rwa [run_succ_again _ h] at hn⟩
  · rintro ⟨n, hn⟩
    exact ⟨n + 1, by rwa [run_succ_again _ h]⟩

theorem Reaches.ends_iff (h : Reaches body s t) : Ends body s r ↔ Ends body t r := by
  induction h with
  | refl s => exact Iff.rfl
  | again hpass _ ih => exact (ends_again_iff hpass).trans ih

theorem Reaches.trans (h : Reaches body s t) (h' : Reaches body t u) : Reaches body s u := by
  induction h with
  | refl s => exact h'
  | again hpass _ ih => exact .again hpass (ih h')

theorem Reaches.step (h : Reaches body s t) (hpass : body t = .again u) : Reaches body s u :=
  h.trans (.again hpass (.refl u))

theorem ends_iff_reaches : Ends body s r ↔ ∃ t, Reaches body s t ∧ body t = .leave r := by
  constructor
  · rintro ⟨n, hn⟩
    induction n generalizing s with
    | zero => cases hn
    | succ n ih =>
      cases hpass : body s with
      | again t =>
        rw [run_succ_again _ hpass] at hn
        obtain ⟨u, hu, hleave⟩ := ih hn
        exact ⟨u, .again hpass hu, hleave⟩
      | leave r' =>
        rw [run_succ_leave _ hpass] at hn
        cases hn
        exact ⟨s, .refl s, hpass⟩
  · rintro ⟨t, ht, hleave⟩
    exact ht.ends_iff.mpr ((ends_leave_iff hleave).mpr rfl)

theorem Reaches.invariant {I : σ → Prop} (hstep : ∀ s t, I s → body s = .again t → I t)
    (h : Reaches body s t) (hs : I s) : I t := by
  induction h with
  | refl s => exact hs
  | again hpass _ ih => exact ih (hstep _ _ hs hpass)

theorem not_ends_of_again {I : σ → Prop} (hstep : ∀ s, I s → ∃ t, body s = .again t ∧ I t)
    (hs : I s) : ¬ Ends body s r := by
  rintro ⟨n, hn⟩
  induction n generalizing s with
  | zero => cases hn
  | succ n ih =>
    obtain ⟨t, hpass, ht⟩ := hstep s hs
    rw [run_succ_again _ hpass] at hn
    exact ih ht hn

/-- A call whose loops make at most so many passes gives `r`, with enough of them. -/
def Gives (f : Nat → Option ρ) (r : ρ) : Prop := ∃ enough, ∀ n, enough ≤ n → f n = some r

section

variable {ρ' : Type*} {f : Nat → Option ρ} {g : ρ → Nat → Option ρ'}

theorem Ends.gives (h : Ends body s r) : Gives (fun n => run body n s) r := by
  obtain ⟨n, hn⟩ := h
  exact ⟨n, fun m hle => run_mono hn hle⟩

theorem Gives.unique (h : Gives f r) (h' : Gives f r') : r = r' := by
  obtain ⟨n, hn⟩ := h
  obtain ⟨m, hm⟩ := h'
  have hboth := (hn _ (Nat.le_max_left n m)).symm.trans (hm _ (Nat.le_max_right n m))
  exact Option.some.inj hboth

theorem gives_some (r : ρ) : Gives (fun _ => some r) r := ⟨0, fun _ _ => rfl⟩

theorem Gives.bind (h : Gives f r) (h' : Gives (g r) b) : Gives (fun n => (f n).bind fun r => g r n) b := by
  obtain ⟨n, hn⟩ := h
  obtain ⟨m, hm⟩ := h'
  refine ⟨max n m, fun k hk => ?_⟩
  simp [hn k (by omega), hm k (by omega)]

theorem Gives.map (h : Gives f r) (e : ρ → ρ') : Gives (fun n => (f n).map e) (e r) := by
  obtain ⟨n, hn⟩ := h
  exact ⟨n, fun k hk => by simp only [hn k hk, Option.map_some]⟩

theorem Gives.succ (h : Gives (fun n => f (n + 1)) r) : Gives f r := by
  obtain ⟨n, hn⟩ := h
  refine ⟨n + 1, fun k hk => ?_⟩
  obtain ⟨k, rfl⟩ : ∃ j, k = j + 1 := ⟨k - 1, by omega⟩
  exact hn k (by omega)

end

end Ktl.Loops
