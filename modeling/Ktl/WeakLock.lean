import Ktl.RefCounter
import Ktl.Runs

/-!
Threads that lock a `weak_ptr` while others copy and give up `shared_ptr` handles of the same
control block. Each step is one atomic access of a counter, or the call of one of the two
virtual functions. The `weak_ptr` handles live through the whole run.
-/
namespace Ktl.WeakLock

open RefCounter Runs Word32

inductive Pc where
  | idle
  /-- `expired()` has read a positive strong counter, `Acquire` comes next -/
  | locking
  /-- `dec_strong_refs` has returned zero, `destroy_object` comes next -/
  | destroying
  /-- the object is destroyed, `dec_weak_refs` comes next -/
  | unfollowing
  /-- `dec_weak_refs` has returned zero, `delete_this` comes next -/
  | deleting
  deriving DecidableEq

structure State (τ : Type) where
  block : ControlBlock
  /-- the non-null `shared_ptr` handles obtained from the `weak_ptr` -/
  locked : Nat
  /-- the other `shared_ptr` handles of the block -/
  owners : Nat
  pc : τ → Pc

inductive Action (τ : Type) where
  | testExpired (t : τ)
  | acquireLocked (t : τ)
  | copy (t : τ)
  | releaseOwner (t : τ)
  | releaseLocked (t : τ)
  | destroyObject (t : τ)
  | unfollow (t : τ)
  | deleteThis (t : τ)
  deriving DecidableEq

variable {τ : Type} [DecidableEq τ]

def State.goto (s : State τ) (t : τ) (pc : Pc) : State τ := { s with pc := Function.update s.pc t pc }

def State.handles (s : State τ) : Nat := s.owners + s.locked

def decStrong (s : State τ) (t : τ) : State τ :=
  let s := { s with block := decStrongRefs s.block }
  s.goto t (if s.block.strong = 0 then .destroying else .idle)

def step (s : State τ) : Action τ → Option (State τ)
  | .testExpired t =>
    if s.pc t = .idle then
      -- a null `shared_ptr` is returned, or `bad_weak_ptr` thrown
      if s.block.strong = 0 then some s else some (s.goto t .locking)
    else none
  | .acquireLocked t =>
    if s.pc t = .locking then
      some (({ s with block := incStrongRefs s.block, locked := s.locked + 1 } : State τ).goto t .idle)
    else none
  | .copy t =>
    -- the handle that is copied lives during the copy
    if s.pc t = .idle ∧ 0 < s.handles then
      some { s with block := incStrongRefs s.block, owners := s.owners + 1 }
    else none
  | .releaseOwner t =>
    if s.pc t = .idle ∧ 0 < s.owners then
      some (decStrong { s with owners := s.owners - 1 } t)
    else none
  | .releaseLocked t =>
    if s.pc t = .idle ∧ 0 < s.locked then
      some (decStrong { s with locked := s.locked - 1 } t)
    else none
  | .destroyObject t =>
    if s.pc t = .destroying then
      some (({ s with block := RefCounter.destroyObject s.block } : State τ).goto t .unfollowing)
    else none
  | .unfollow t =>
    if s.pc t = .unfollowing then
      let s := { s with block := decWeakRefs s.block }
      some (s.goto t (if s.block.weak = 0 then .deleting else .idle))
    else none
  | .deleteThis t =>
    if s.pc t = .deleting then
      some (({ s with block := RefCounter.deleteThis s.block } : State τ).goto t .idle)
    else none

/-- An object with `n` `shared_ptr` and `m` `weak_ptr` handles, all threads idle. -/
def start (n m : Nat) : State τ := ⟨⟨n, m + 1, 0, 0⟩, 0, n, fun _ => .idle⟩

/-- The strong counter is incremented only while it is positive and not at its greatest value. -/
def IncrementsPositive (s : State τ) : Action τ → Prop
  | .acquireLocked _ => 0 < s.block.strong ∧ s.block.strong + 1 < 2 ^ 32
  | .copy _ => s.block.strong + 1 < 2 ^ 32
  | _ => True

instance (s : State τ) (a : Action τ) : Decidable (IncrementsPositive s a) :=
  match a with
  | .acquireLocked _ => inferInstanceAs (Decidable (_ ∧ _))
  | .copy _ => inferInstanceAs (Decidable (_ < _))
  | .testExpired _ | .releaseOwner _ | .releaseLocked _ | .destroyObject _ | .unfollow _
  | .deleteThis _ => inferInstanceAs (Decidable True)

def Outside (pc : Pc) : Prop := pc = .idle ∨ pc = .locking

inductive Phase (m : Nat) (s : State τ) : Prop
  | alive (hpos : 0 < s.handles) (hpc : ∀ t, Outside (s.pc t)) (hblock : s.block = ⟨s.handles, m + 1, 0, 0⟩)
  | destroying (t : τ) (hzero : s.handles = 0) (ht : s.pc t = .destroying)
      (hpc : ∀ t', t' ≠ t → Outside (s.pc t')) (hblock : s.block = ⟨0, m + 1, 0, 0⟩)
  | unfollowing (t : τ) (hzero : s.handles = 0) (ht : s.pc t = .unfollowing)
      (hpc : ∀ t', t' ≠ t → Outside (s.pc t')) (hblock : s.block = ⟨0, m + 1, 1, 0⟩)
  | destroyed (hzero : s.handles = 0) (hpc : ∀ t, Outside (s.pc t)) (hblock : s.block = ⟨0, m, 1, 0⟩)

theorem outside_update (hpc : ∀ t', t' ≠ t → Outside (pc t')) (hv : Outside v) (t' : τ) :
    Outside (Function.update pc t v t') := by
  by_cases he : t' = t
  · subst he
    rwa [Function.update_self]
  · rw [Function.update_of_ne he]
    exact hpc t' he

theorem outside_update_of_ne (hpc : ∀ t', t' ≠ t → Outside (pc t')) (t' : τ) (hne : t' ≠ t) :
    Outside (Function.update pc t v t') := by
  rw [Function.update_of_ne hne]
  exact hpc t' hne

section

variable {s' : State τ} {t : τ}

theorem Phase.goto (h : Phase m s) (ht : Outside (s.pc t)) (hv : Outside v) : Phase m (s.goto t v) := by
  have hstay : ∀ u pc, s.pc u = pc → ¬ Outside pc → (s.goto t v).pc u = pc := by
    intro u pc hu hout
    have hne : u ≠ t := by
      rintro rfl
      exact hout (hu ▸ ht)
    simpa [State.goto, hne] using hu
  have hrest : ∀ u, (∀ t', t' ≠ u → Outside (s.pc t')) → ∀ t', t' ≠ u → Outside ((s.goto t v).pc t') := by
    intro u hpc t' hne
    by_cases he : t' = t
    · subst he
      simpa [State.goto] using hv
    · simpa [State.goto, he] using hpc t' hne
  cases h with
  | alive hpos hpc hblock =>
    exact .alive hpos (outside_update (fun t' _ => hpc t') hv) hblock
  | destroying u hzero hu hpc hblock =>
    exact .destroying u hzero (hstay u _ hu (by simp [Outside])) (hrest u hpc) hblock
  | unfollowing u hzero hu hpc hblock =>
    exact .unfollowing u hzero (hstay u _ hu (by simp [Outside])) (hrest u hpc) hblock
  | destroyed hzero hpc hblock =>
    exact .destroyed hzero (outside_update (fun t' _ => hpc t') hv) hblock

omit [DecidableEq τ] in
theorem Phase.alive_of_pos (h : Phase m s) (hpos : 0 < s.block.strong ∨ 0 < s.handles) :
    0 < s.handles ∧ (∀ t, Outside (s.pc t)) ∧ s.block = ⟨s.handles, m + 1, 0, 0⟩ := by
  cases h with
  | alive hpos hpc hblock => exact ⟨hpos, hpc, hblock⟩
  | destroying u hzero hu hpc hblock | unfollowing u hzero hu hpc hblock
  | destroyed hzero hpc hblock => simp [hzero, hblock] at hpos

omit [DecidableEq τ] in
theorem Phase.acquire (h : Phase m s) (hlive : 0 < s.block.strong ∨ 0 < s.handles)
    (hb : s.block.strong + 1 < 2 ^ 32) (hpc : ∀ t, Outside (s'.pc t))
    (hhandles : s'.handles = s.handles + 1) (hblock' : s'.block = incStrongRefs s.block) :
    Phase m s' := by
  obtain ⟨_, _, hblock⟩ := h.alive_of_pos hlive
  apply Phase.alive
  · omega
  · exact hpc
  · rw [hblock] at hb
    rw [hblock', hblock, hhandles]
    simp [incStrongRefs, increment_of_lt hb]

theorem Phase.decStrong (h : Phase m s) (hpos : 0 < s.handles) (hhandles : s'.handles + 1 = s.handles)
    (hblock' : s'.block = s.block) (hpc' : s'.pc = s.pc) : Phase m (decStrong s' t) := by
  obtain ⟨_, hpc, hblock⟩ := h.alive_of_pos (.inr hpos)
  have hdec : decStrongRefs s'.block = ⟨s'.handles, m + 1, 0, 0⟩ := by
    simp [hblock', hblock, decStrongRefs, ← hhandles, decrement_succ]
  have hout : ∀ t', t' ≠ t → Outside (s'.pc t') := by
    intro t' _
    rw [hpc']
    exact hpc t'
  by_cases hzero : s'.handles = 0
  · apply Phase.destroying t
    · exact hzero
    · simp [WeakLock.decStrong, State.goto, hdec, hzero]
    · exact outside_update_of_ne hout
    · simp [WeakLock.decStrong, State.goto, hdec, hzero]
  · apply Phase.alive
    · exact Nat.pos_of_ne_zero hzero
    · apply outside_update hout
      simp [hdec, hzero, Outside]
    · exact hdec

omit [DecidableEq τ] in
theorem Phase.of_not_outside (h : Phase m s) (ht : ¬ Outside (s.pc t)) :
    s.handles = 0 ∧ (∀ t', t' ≠ t → Outside (s.pc t')) ∧
    (s.pc t = .destroying ∧ s.block = ⟨0, m + 1, 0, 0⟩ ∨ s.pc t = .unfollowing ∧ s.block = ⟨0, m + 1, 1, 0⟩) := by
  cases h with
  | alive hpos hpc hblock => exact absurd (hpc t) ht
  | destroying u hzero hu hpc hblock =>
    by_cases he : t = u
    · subst he
      exact ⟨hzero, hpc, .inl ⟨hu, hblock⟩⟩
    · exact absurd (hpc t he) ht
  | unfollowing u hzero hu hpc hblock =>
    by_cases he : t = u
    · subst he
      exact ⟨hzero, hpc, .inr ⟨hu, hblock⟩⟩
    · exact absurd (hpc t he) ht
  | destroyed hzero hpc hblock => exact absurd (hpc t) ht

theorem Phase.destroyObject (h : Phase m s) (ht : s.pc t = .destroying) :
    Phase m (({ s with block := RefCounter.destroyObject s.block } : State τ).goto t .unfollowing) := by
  obtain ⟨hzero, hpc, hstage⟩ := h.of_not_outside (t := t) (by simp [ht, Outside])
  have hblock : s.block = ⟨0, m + 1, 0, 0⟩ := by simpa [ht] using hstage
  apply Phase.unfollowing t
  · exact hzero
  · simp [State.goto]
  · exact outside_update_of_ne hpc
  · simp [State.goto, hblock, RefCounter.destroyObject]

theorem Phase.unfollow (h : Phase m s) (hm : 0 < m) (ht : s.pc t = .unfollowing) :
    Phase m (({ s with block := decWeakRefs s.block } : State τ).goto t
      (if (decWeakRefs s.block).weak = 0 then .deleting else .idle)) := by
  obtain ⟨hzero, hpc, hstage⟩ := h.of_not_outside (t := t) (by simp [ht, Outside])
  have hblock : s.block = ⟨0, m + 1, 1, 0⟩ := by simpa [ht] using hstage
  have hdec : decWeakRefs s.block = ⟨0, m, 1, 0⟩ := by
    simp [hblock, decWeakRefs, decrement_succ]
  apply Phase.destroyed
  · exact hzero
  · apply outside_update hpc
    simp [hdec, Nat.ne_of_gt hm, Outside]
  · exact hdec

theorem Phase.step (h : Phase m s) (hm : 0 < m) (hok : IncrementsPositive s a) (hstep : step s a = some s') :
    Phase m s' := by
  cases a with
  | testExpired t =>
    obtain ⟨ht, hstep⟩ := Option.ite_none_right_eq_some.mp hstep
    split at hstep
    · cases hstep
      exact h
    · cases hstep
      exact h.goto (.inl ht) (.inr rfl)
  | acquireLocked t =>
    obtain ⟨ht, rfl⟩ := guarded hstep
    obtain ⟨_, hpc, _⟩ := h.alive_of_pos (.inl hok.1)
    exact h.acquire (.inl hok.1) hok.2 (outside_update (fun t' _ => hpc t') (.inl rfl)) rfl rfl
  | copy t =>
    obtain ⟨⟨ht, hpos⟩, rfl⟩ := guarded hstep
    obtain ⟨_, hpc, _⟩ := h.alive_of_pos (.inr hpos)
    have hcount : s.owners + 1 + s.locked = s.owners + s.locked + 1 := by omega
    exact h.acquire (.inr hpos) hok hpc hcount rfl
  | releaseOwner t =>
    obtain ⟨⟨ht, hpos⟩, rfl⟩ := guarded hstep
    have hcount : s.owners - 1 + s.locked + 1 = s.owners + s.locked := by omega
    exact h.decStrong (Nat.lt_of_lt_of_le hpos (Nat.le_add_right _ _)) hcount rfl rfl
  | releaseLocked t =>
    obtain ⟨⟨ht, hpos⟩, rfl⟩ := guarded hstep
    have hcount : s.owners + (s.locked - 1) + 1 = s.owners + s.locked := by omega
    exact h.decStrong (Nat.lt_of_lt_of_le hpos (Nat.le_add_left _ _)) hcount rfl rfl
  | destroyObject t =>
    obtain ⟨ht, rfl⟩ := guarded hstep
    exact h.destroyObject ht
  | unfollow t =>
    obtain ⟨ht, rfl⟩ := guarded hstep
    exact h.unfollow hm ht
  | deleteThis t =>
    obtain ⟨ht, _⟩ := guarded hstep
    have hstage := (h.of_not_outside (t := t) (by simp [ht, Outside])).2.2
    simp [ht] at hstage

omit [DecidableEq τ] in
theorem start_phase (hn : 0 < n) : Phase m (start n m : State τ) :=
  .alive hn (fun _ => .inl rfl) rfl

/-- If the strong counter is incremented only while it is positive, every handle obtained from the
`weak_ptr` refers to an object whose destruction has not begun, and the object is destroyed exactly
once: at most once at any time, and once when no handle and no unfinished call is left. -/
theorem lock_safe {n : Nat} {actions : List (Action τ)} (hn : 0 < n) (hm : 0 < m)
    (hrun : Run WeakLock.step IncrementsPositive (start n m) actions s) :
    (0 < s.locked → s.block.destroyed = 0) ∧ s.block.destroyed ≤ 1 ∧
    (s.handles = 0 → (∀ t, s.pc t = .idle) → s.block.destroyed = 1) := by
  have hphase : Phase m s :=
    hrun.invariant (fun _ _ _ h hok hst => h.step hm hok hst) (start_phase hn)
  have hlocked : 0 < s.locked → 0 < s.handles := by
    intro hl
    exact Nat.lt_of_lt_of_le hl (Nat.le_add_left _ _)
  cases hphase with
  | alive hpos hpc hblock => simp [hblock, Nat.ne_of_gt hpos]
  | destroying t hzero ht hpc hblock =>
    have hbusy : ¬ ∀ t, s.pc t = .idle := fun hidle => by simp [hidle t] at ht
    simp [hblock, hbusy]
  | unfollowing t hzero ht hpc hblock | destroyed hzero hpc hblock =>
    have hnone : ¬ 0 < s.locked := fun hl => Nat.ne_of_gt (hlocked hl) hzero
    simp [hblock, hnone]

def lockThenRelease : List (Action Bool) :=
  [.testExpired true, .acquireLocked true, .releaseOwner false]

theorem lock_safe_lockThenRelease :
    ∃ s : State Bool, Run WeakLock.step IncrementsPositive (start 1 1) lockThenRelease s ∧
      s.locked = 1 ∧ (0 < s.locked → s.block.destroyed = 0) := by
  have hsome : (exec WeakLock.step IncrementsPositive (start 1 1) lockThenRelease).map State.locked =
      some 1 := by
    decide +kernel
  obtain ⟨s, hrun, hlocked⟩ := run_of_exec_map hsome
  exact ⟨s, hrun, hlocked, (lock_safe (by decide) (by decide) hrun).1⟩

end

/-- The last handle is given up between the test and the increment of `lock`. -/
def releaseInsideLock : List (Action Bool) :=
  [.testExpired true, .releaseOwner false, .acquireLocked true, .destroyObject false]

/-- The lock returns a handle of a destroyed object, which is destroyed again. -/
theorem lock_after_release : (∃ s : State Bool, Run step (fun _ _ => True) (start 1 1) releaseInsideLock s ∧
      0 < s.locked ∧ s.block.destroyed = 1) ∧
    ∃ s : State Bool, Run step (fun _ _ => True) (start 1 1)
      (releaseInsideLock ++ [.releaseLocked true, .destroyObject true]) s ∧
      s.block.destroyed = 2 := by
  have hheld : (exec step (fun _ _ => True) (start 1 1) releaseInsideLock).map
      (fun s => (s.locked, s.block.destroyed)) = some (1, 1) := by
    decide +kernel
  have htwice : (exec step (fun _ _ => True) (start 1 1)
      (releaseInsideLock ++ [.releaseLocked true, .destroyObject true])).map (fun s => s.block.destroyed) = some 2 := by
    decide +kernel
  obtain ⟨s, hrun, hends⟩ := run_of_exec_map hheld
  obtain ⟨hlocked, hgone⟩ := Prod.mk.inj hends
  exact ⟨⟨s, hrun, by omega, hgone⟩, run_of_exec_map htwice⟩

end Ktl.WeakLock
