import Ktl.Runs

/-!
`universal_lock`: a kernel mutex and a spin lock in one object. A caller below
`DISPATCH_LEVEL` takes the mutex, any other caller the spin lock. The state keeps for each
thread the call of `lock` it is inside and the calls that are not yet matched by `unlock`.
-/
namespace Ktl.UniversalLock

open Runs Function Option

abbrev Irql := Nat

def dispatchLevel : Irql := 2

variable {τ : Type} [DecidableEq τ]

structure State (τ : Type) where
  /-- the owner of `m_mtx` and the number of releases it owes -/
  mtx : Option (τ × Nat)
  /-- the thread that holds `m_spinlock` -/
  spinlock : Option τ
  /-- the IRQL of a call of `lock` that has not completed -/
  calling : τ → Option Irql
  /-- the IRQLs of the completed calls, latest first -/
  held : τ → List Irql

def State.initial : State τ := ⟨none, none, fun _ => none, fun _ => []⟩

/-- `KeWaitForSingleObject` on the mutex; `none` while another thread owns it. -/
def waitMutex (mtx : Option (τ × Nat)) (t : τ) : Option (Option (τ × Nat)) :=
  match mtx with
  | none => some (some (t, 1))
  | some (owner, n) => if owner = t then some (some (owner, n + 1)) else none

/-- `KeReleaseMutex` -/
def releaseMutex (mtx : Option (τ × Nat)) (t : τ) : Option (Option (τ × Nat)) :=
  match mtx with
  | none => none
  | some (owner, n) =>
    if owner = t then some (if n ≤ 1 then none else some (owner, n - 1)) else none

inductive Action (τ : Type) where
  /-- the thread enters `lock` at an IRQL -/
  | call (t : τ) (irql : Irql)
  /-- its `lock` completes -/
  | acquire (t : τ)
  /-- it calls `unlock` at the IRQL of the matching `lock` -/
  | unlock (t : τ)
  deriving DecidableEq

def lock (s : State τ) (t : τ) (irql : Irql) : Option (State τ) :=
  let calling := update s.calling t none
  let held := update s.held t (irql :: s.held t)
  if irql < dispatchLevel then
    (waitMutex s.mtx t).map fun mtx => ⟨mtx, s.spinlock, calling, held⟩
  else
    if s.spinlock = none then some ⟨s.mtx, some t, calling, held⟩ else none

def unlock (s : State τ) (t : τ) (irql : Irql) (rest : List Irql) : Option (State τ) :=
  let held := update s.held t rest
  if irql < dispatchLevel then
    (releaseMutex s.mtx t).map fun mtx => ⟨mtx, s.spinlock, s.calling, held⟩
  else
    some ⟨s.mtx, none, s.calling, held⟩

def step (s : State τ) : Action τ → Option (State τ)
  | .call t irql =>
    if s.calling t = none ∧ irql ≤ dispatchLevel then
      some { s with calling := update s.calling t (some irql) }
    else none
  | .acquire t => (s.calling t).bind (lock s t)
  | .unlock t =>
    match s.calling t, s.held t with
    | none, irql :: rest => unlock s t irql rest
    | _, _ => none

def Exclusive (s : State τ) : Prop := ∀ a b, s.held a ≠ [] → s.held b ≠ [] → a = b

/-- The primitive that a caller at `irql` does not look at is not in the hands
of another thread. -/
def OtherFree (s : State τ) (t : τ) (irql : Irql) : Prop :=
  if irql < dispatchLevel then ∀ a ∈ s.spinlock, a = t else ∀ p ∈ s.mtx, p.1 = t

/-- A `lock` completes only while the other primitive is free or the caller's
own. -/
def Guarded (s : State τ) : Action τ → Prop
  | .acquire t => ∀ irql ∈ s.calling t, OtherFree s t irql
  | _ => True

instance (s : State τ) (t : τ) (irql : Irql) : Decidable (OtherFree s t irql) :=
  inferInstanceAs (Decidable (ite _ _ _))

instance (s : State τ) : (a : Action τ) → Decidable (Guarded s a)
  | .acquire _ => inferInstanceAs (Decidable (∀ _ ∈ _, _))
  | .call _ _ | .unlock _ => inferInstanceAs (Decidable True)

/-! ## What the primitives know -/

@[simp] def owed (mtx : Option (τ × Nat)) (t : τ) : Nat :=
  match mtx with
  | none => 0
  | some (owner, n) => if owner = t then n else 0

def mutexCalls : List Irql → Nat
  | [] => 0
  | irql :: rest => mutexCalls rest + if irql < dispatchLevel then 1 else 0

@[simp] def spinCalls : List Irql → Nat
  | [] => 0
  | irql :: rest => spinCalls rest + if irql < dispatchLevel then 0 else 1

theorem mutexCalls_add_spinCalls (held : List Irql) : mutexCalls held + spinCalls held = held.length := by
  induction held with
  | nil => rfl
  | cons irql rest ih =>
    simp only [mutexCalls, spinCalls, List.length_cons]
    split <;> omega

structure Inv (s : State τ) : Prop where
  owed_pos : ∀ p ∈ s.mtx, 0 < p.2
  mutex : ∀ t, mutexCalls (s.held t) = owed s.mtx t
  spin : ∀ t, spinCalls (s.held t) = if s.spinlock = some t then 1 else 0

theorem Inv.initial : Inv (State.initial : State τ) :=
  ⟨by simp [State.initial], fun _ => rfl, fun _ => rfl⟩

variable {t : τ}

theorem owed_waitMutex (h : waitMutex mtx t = some mtx') (u : τ) :
    owed mtx' u = owed mtx u + if u = t then 1 else 0 := by
  cases mtx with
  | none =>
    simp only [waitMutex, some.injEq] at h
    subst h
    simp [eq_comm]
  | some p =>
    obtain ⟨rfl, rfl⟩ := guarded h
    by_cases hu : p.1 = u
    · simp [hu]
    · simp [hu, Ne.symm hu]

theorem owed_releaseMutex (h : releaseMutex mtx t = some mtx') (hpos : ∀ p ∈ mtx, 0 < p.2) (u : τ) :
    owed mtx u = owed mtx' u + if u = t then 1 else 0 := by
  cases mtx with
  | none => cases h
  | some p =>
    obtain ⟨rfl, rfl⟩ := guarded h
    have := hpos p rfl
    by_cases hu : p.1 = u
    · subst hu
      split
      · simp only [owed, if_true]
        omega
      · simp only [owed, if_true]
        omega
    · split <;> simp [hu, Ne.symm hu]

theorem waitMutex_pos (h : waitMutex mtx t = some mtx') : ∀ p ∈ mtx', p.1 = t ∧ 0 < p.2 := by
  cases mtx with
  | none =>
    simp only [waitMutex, some.injEq] at h
    subst h
    simp
  | some p =>
    obtain ⟨rfl, rfl⟩ := guarded h
    simp

theorem releaseMutex_pos (h : releaseMutex mtx t = some mtx') : ∀ p ∈ mtx', 0 < p.2 := by
  cases mtx with
  | none => cases h
  | some p =>
    obtain ⟨rfl, rfl⟩ := guarded h
    split
    · simp
    · simp only [mem_def, some.injEq, forall_eq']
      omega

variable {s : State τ}

theorem lock_eq_some (h : lock s t irql = some s') : (irql < dispatchLevel ∧ ∃ mtx, waitMutex s.mtx t = some mtx ∧
      s' = ⟨mtx, s.spinlock, update s.calling t none, update s.held t (irql :: s.held t)⟩) ∨
    (¬irql < dispatchLevel ∧ s.spinlock = none ∧ s' = ⟨s.mtx, some t, update s.calling t none,
        update s.held t (irql :: s.held t)⟩) := by
  simp only [lock] at h
  split at h
  · obtain ⟨mtx, hmtx, rfl⟩ := map_eq_some_iff.mp h
    exact .inl ⟨‹_›, mtx, hmtx, rfl⟩
  · obtain ⟨hfree, rfl⟩ := guarded h
    exact .inr ⟨‹_›, hfree, rfl⟩

theorem unlock_eq_some (h : unlock s t irql rest = some s') :
    (irql < dispatchLevel ∧ ∃ mtx, releaseMutex s.mtx t = some mtx ∧
      s' = ⟨mtx, s.spinlock, s.calling, update s.held t rest⟩) ∨
    (¬irql < dispatchLevel ∧ s' = ⟨s.mtx, none, s.calling, update s.held t rest⟩) := by
  simp only [unlock] at h
  split at h
  · obtain ⟨mtx, hmtx, rfl⟩ := map_eq_some_iff.mp h
    exact .inl ⟨‹_›, mtx, hmtx, rfl⟩
  · exact .inr ⟨‹_›, (some.inj h).symm⟩

section
variable (hinv : Inv s)
include hinv

theorem Inv.lock (h : lock s t irql = some s') : Inv s' := by
  obtain ⟨hlt, mtx, hmtx, rfl⟩ | ⟨hge, hfree, rfl⟩ := lock_eq_some h
  · refine ⟨fun p hp => (waitMutex_pos hmtx p hp).2, fun u => ?_, fun u => ?_⟩
    · rw [owed_waitMutex hmtx, ← hinv.mutex u]
      by_cases hu : u = t
      · simp [hu, mutexCalls, hlt]
      · simp [hu]
    · rw [← hinv.spin u]
      by_cases hu : u = t
      · simp [hu, hlt]
      · simp [hu]
  · refine ⟨hinv.owed_pos, fun u => ?_, fun u => ?_⟩
    · rw [← hinv.mutex u]
      by_cases hu : u = t
      · simp [hu, mutexCalls, hge]
      · simp [hu]
    · have hspin := hinv.spin u
      simp only [hfree, reduceCtorEq, if_false] at hspin
      by_cases hu : u = t
      · subst hu
        simp [hge, hspin]
      · simp [hu, hspin, Ne.symm hu]

theorem Inv.unlock (hheld : s.held t = irql :: rest) (h : unlock s t irql rest = some s') : Inv s' := by
  have hmutex := hinv.mutex t
  have hspin := hinv.spin t
  rw [hheld] at hmutex hspin
  obtain ⟨hlt, mtx, hmtx, rfl⟩ | ⟨hge, rfl⟩ := unlock_eq_some h
  · refine ⟨releaseMutex_pos hmtx, fun u => ?_, fun u => ?_⟩
    · have howed := owed_releaseMutex hmtx hinv.owed_pos u
      by_cases hu : u = t
      · subst hu
        simp only [mutexCalls, hlt, if_true] at hmutex howed
        simp only [update_self]
        omega
      · simpa [hu, hinv.mutex u] using howed
    · by_cases hu : u = t
      · subst hu
        simpa [hlt] using hspin
      · simp [hu, hinv.spin u]
  · refine ⟨hinv.owed_pos, fun u => ?_, fun u => ?_⟩
    · by_cases hu : u = t
      · subst hu
        simpa [mutexCalls, hge] using hmutex
      · simp [hu, hinv.mutex u]
    · have hholder : s.spinlock = some t := by
        by_contra hne
        simp [hge, hne] at hspin
      by_cases hu : u = t
      · subst hu
        simpa [hge, hholder] using hspin
      · have := hinv.spin u
        simpa [hu, hholder, Ne.symm hu] using this

theorem Inv.step (h : step s a = some s') : Inv s' := by
  cases a with
  | call t irql =>
    obtain ⟨-, rfl⟩ := guarded h
    exact ⟨hinv.owed_pos, hinv.mutex, hinv.spin⟩
  | acquire t =>
    obtain ⟨irql, -, hlock⟩ := bind_eq_some_iff.mp h
    exact hinv.lock hlock
  | unlock t =>
    simp only [UniversalLock.step] at h
    split at h
    · exact hinv.unlock ‹_› h
    · cases h

/-! ## Exclusion -/

theorem Inv.held_ne_nil_iff (t : τ) : s.held t ≠ [] ↔ (∃ n, s.mtx = some (t, n)) ∨ s.spinlock = some t := by
  rw [← List.length_pos_iff, ← mutexCalls_add_spinCalls, hinv.mutex t, hinv.spin t]
  cases hmtx : s.mtx with
  | none => by_cases hspin : s.spinlock = some t <;> simp [hspin]
  | some p =>
    have hpos := hinv.owed_pos p hmtx
    by_cases hp : p.1 = t
    · subst hp
      simp only [owed, if_true]
      exact ⟨fun _ => .inl ⟨p.2, rfl⟩, fun _ => by omega⟩
    · have hne : ∀ n, ¬some p = some (t, n) := by
        rintro n ⟨⟩
        exact hp rfl
      by_cases hspin : s.spinlock = some t <;> simp [hp, hspin, hne]

theorem Inv.exclusive_iff : Exclusive s ↔ ∀ p ∈ s.mtx, ∀ a ∈ s.spinlock, p.1 = a := by
  simp only [Exclusive, hinv.held_ne_nil_iff]
  constructor
  · intro hex p hp a ha
    exact hex p.1 a (.inl ⟨p.2, hp⟩) (.inr ha)
  · intro h a b ha hb
    rcases ha with ⟨n, ha⟩ | ha <;> rcases hb with ⟨m, hb⟩ | hb
    · rw [ha] at hb
      cases hb
      rfl
    · exact h _ ha _ hb
    · exact (h _ hb _ ha).symm
    · rw [ha] at hb
      exact some.inj hb

theorem Inv.lock_exclusive_iff (h : UniversalLock.lock s t irql = some s') : Exclusive s' ↔ OtherFree s t irql := by
  rw [(hinv.lock h).exclusive_iff]
  obtain ⟨hlt, mtx, hmtx, rfl⟩ | ⟨hge, -, rfl⟩ := lock_eq_some h
  · have howner := waitMutex_pos hmtx
    simp only [OtherFree, hlt, if_true]
    cases hcase : mtx with
    | none =>
      exfalso
      have := owed_waitMutex hmtx t
      simp [hcase] at this
    | some p =>
      have hp := (howner p hcase).1
      simp [hp, eq_comm]
  · simp [OtherFree, hge]

/-- Exactly the guarded steps keep the exclusion. -/
theorem Inv.step_exclusive_iff (hex : Exclusive s) (h : UniversalLock.step s a = some s') :
    Exclusive s' ↔ Guarded s a := by
  cases a with
  | call t irql =>
    obtain ⟨-, rfl⟩ := guarded h
    exact ⟨fun _ => trivial, fun _ => hex⟩
  | acquire t =>
    obtain ⟨irql, hirql, hlock⟩ := bind_eq_some_iff.mp h
    simp [Guarded, hirql, hinv.lock_exclusive_iff hlock]
  | unlock t =>
    refine ⟨fun _ => trivial, fun _ a b ha hb => ?_⟩
    -- whoever is inside afterwards was inside before
    have hsub : ∀ u, s'.held u ≠ [] → s.held u ≠ [] := by
      intro u hu
      simp only [UniversalLock.step] at h
      split at h
      · rename_i irql rest _ hheld
        by_cases hut : u = t
        · simp [hut, hheld]
        · obtain ⟨-, mtx, -, rfl⟩ | ⟨-, rfl⟩ := unlock_eq_some h <;> simpa [hut] using hu
      · cases h
    exact hex a b (hsub a ha) (hsub b hb)

end

/-- If every `lock` completes only while the other primitive is free or the caller's own, at most
one thread is inside; and a next step keeps it so exactly when it meets that condition too. -/
theorem exclusive_of_guarded {s : State τ} {actions : List (Action τ)}
    (hrun : Run step Guarded State.initial actions s) :
    Exclusive s ∧ ∀ a s', step s a = some s' → (Exclusive s' ↔ Guarded s a) := by
  have h : Inv s ∧ Exclusive s := by
    refine hrun.invariant (I := fun s => Inv s ∧ Exclusive s) ?_ ⟨Inv.initial, ?_⟩
    · intro s a t h hok hstep
      exact ⟨h.1.step hstep, (h.1.step_exclusive_iff h.2 hstep).mpr hok⟩
    · intro a b ha
      exact absurd rfl ha
  exact ⟨h.2, fun a s' => h.1.step_exclusive_iff h.2⟩

/-- Two threads below `DISPATCH_LEVEL` one after the other, then one at it. -/
theorem exclusive_of_three : ∃ s : State (Fin 3), Run step Guarded State.initial
    [.call 0 0, .call 1 1, .acquire 0, .unlock 0, .acquire 1, .unlock 1, .call 2 2, .acquire 2] s ∧
    s.held 2 = [2] ∧ Exclusive s := by
  obtain ⟨s, hrun, hheld⟩ : ∃ s : State (Fin 3), Run step Guarded State.initial
      [.call 0 0, .call 1 1, .acquire 0, .unlock 0, .acquire 1, .unlock 1, .call 2 2,
        .acquire 2] s ∧ s.held 2 = [2] := run_of_exec_map (by decide +kernel)
  exact ⟨s, hrun, hheld, (exclusive_of_guarded hrun).1⟩

/-- The mutex is held at `PASSIVE_LEVEL` and the spin lock taken at `DISPATCH_LEVEL`. -/
theorem mutex_and_spinlock_both_held : ∃ s : State Bool, Run step (fun _ _ => True) State.initial
    [.call true 0, .acquire true, .call false 2, .acquire false] s ∧
    s.held true = [0] ∧ s.held false = [2] ∧ ¬Exclusive s := by
  obtain ⟨s, hrun, hheld⟩ : ∃ s : State Bool, Run step (fun _ _ => True) State.initial
      [.call true 0, .acquire true, .call false 2, .acquire false] s ∧
      (s.held true, s.held false) = ([0], [2]) := run_of_exec_map (by decide +kernel)
  obtain ⟨htrue, hfalse⟩ := Prod.mk.inj hheld
  refine ⟨s, hrun, htrue, hfalse, fun hex => ?_⟩
  have := hex true false (by simp [htrue]) (by simp [hfalse])
  cases this

end Ktl.UniversalLock
