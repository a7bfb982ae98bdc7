import Ktl.Loops

/-!
`ktl::lock(m1, ..., mn)`: one mutex is locked, the others are tried, and if one of them
cannot be had everything is unlocked and the next attempt begins with it. The results of the
calls of `lock` and `try_lock` are given by the number of the call.
-/
namespace Ktl.LockAttempts

open Loops

variable {ε : Type}

inductive TryResult (ε : Type) where
  | success
  | failure
  | exception (e : ε)
  deriving DecidableEq

structure Results (ε : Type) where
  lock : Nat → Option ε
  tryLock : Nat → TryResult ε

structure State where
  /-- how often the caller holds a mutex -/
  held : Nat → Nat
  /-- how often a mutex was unlocked that the caller did not hold -/
  wrong : Nat
  /-- the calls of `lock` and `try_lock` so far -/
  calls : Nat

inductive Result (ε α : Type) where
  | returned (value : α) (s : State)
  | threw (e : ε) (s : State)

namespace State

def initial : State := ⟨fun _ => 0, 0, 0⟩

def hold (s : State) (i : Nat) : State :=
  { s with held := fun j => if j = i then s.held j + 1 else s.held j }

def called (s : State) : State := { s with calls := s.calls + 1 }

def unlock (s : State) (i : Nat) : State :=
  { s with held := fun j => if j = i then s.held j - 1 else s.held j, wrong := s.wrong + if s.held i = 0 then 1 else 0 }

end State

section

variable (env : Results ε) (n : Nat)

/-- `lock_target_from_locks` -/
def lockMutex (i : Nat) (s : State) : Result ε Unit :=
  match env.lock s.calls with
  | none => .returned () (s.called.hold i)
  | some e => .threw e s.called

/-- `try_lock_target_from_locks` -/
def tryLockMutex (i : Nat) (s : State) : Result ε Bool :=
  match env.tryLock s.calls with
  | .success => .returned true (s.called.hold i)
  | .failure => .returned false s.called
  | .exception e => .threw e s.called

def lockTargetFromLocks (target : Nat) (s : State) : Result ε Unit :=
  if target < n then lockMutex env target s else .returned () s

def tryLockTargetFromLocks (target : Nat) (s : State) : Result ε Bool :=
  if target < n then tryLockMutex env target s else .returned false s

def unlockLocks (first last : Nat) (s : State) : State :=
  (List.range n).foldl (fun s i => if first ≤ i ∧ i < last then s.unlock i else s) s

/-- The loop of `try_lock_range`; the result is the mutex that could not be locked. -/
def tryLockLoop (first : Nat) : Nat → Nat → State → Result ε (Option Nat)
  | 0, _, s => .returned none s
  | left + 1, current, s =>
    match tryLockTargetFromLocks env n current s with
    | .returned true s => tryLockLoop first left (current + 1) s
    | .returned false s => .returned (some current) (unlockLocks n first current s)
    | .threw e s => .threw e (unlockLocks n first current s)

def tryLockRange (first last : Nat) (s : State) : Result ε (Option Nat) :=
  tryLockLoop env n first (last - first) first s

def lockAttempt (prev : Nat) (s : State) : Result ε (Option Nat) :=
  match lockTargetFromLocks env n prev s with
  | .threw e s => .threw e s
  | .returned () s =>
    -- here `rollback_start` is `prev`
    match tryLockRange env n 0 prev s with
    | .threw e s => .threw e (unlockLocks n prev (prev + 1) s)
    | .returned (some failed) s => .returned (some failed) (unlockLocks n prev (prev + 1) s)
    | .returned none s =>
      -- and here it is zero
      match tryLockRange env n (prev + 1) n s with
      | .threw e s => .threw e (unlockLocks n 0 (prev + 1) s)
      | .returned (some failed) s => .returned (some failed) (unlockLocks n 0 (prev + 1) s)
      | .returned none s => .returned none s

/-- `lock_attempt_small`, whose result is whether to go on; `yield` changes nothing. -/
def lockAttemptSmall (mtx1 mtx2 : Nat) (s : State) : Result ε Bool :=
  match lockMutex env mtx1 s with
  | .threw e s => .threw e s
  | .returned () s =>
    match tryLockMutex env mtx2 s with
    | .returned true s => .returned false s
    | .returned false s => .returned true (s.unlock mtx1)
    | .threw e s => .threw e (s.unlock mtx1)

/-- A pass of `lock_impl` for three and more mutexes. The number is that of the mutex to begin with,
and none after an attempt that has succeeded. -/
def lockImplMany (pass : Option Nat × State) : Pass (Option Nat × State) (Result ε Unit) :=
  match pass with
  | (none, s) => .leave (.returned () s)
  | (some notLocked, s) =>
    match lockAttempt env n notLocked s with
    | .returned notLocked s => .again (notLocked, s)
    | .threw e s => .leave (.threw e s)

/-- `lock_impl` for two mutexes. Its condition makes two attempts in turn, which are two passes
here. -/
def lockImplTwo (pass : Option Nat × State) : Pass (Option Nat × State) (Result ε Unit) :=
  match pass with
  | (none, s) => .leave (.returned () s)
  | (some mtx1, s) =>
    match lockAttemptSmall env mtx1 (1 - mtx1) s with
    | .returned true s => .again (some (1 - mtx1), s)
    | .returned false s => .again (none, s)
    | .threw e s => .leave (.threw e s)

/-- The overload that `lock` calls. -/
def lockImpl : Option Nat × State → Pass (Option Nat × State) (Result ε Unit) :=
  if n = 2 then lockImplTwo env else lockImplMany env n

end

def start : Option Nat × State := (some 0, .initial)

def span (first last i : Nat) : Nat := if first ≤ i ∧ i < last then 1 else 0

structure Holds (s : State) (held : Nat → Nat) : Prop where
  held : s.held = held
  wrong : s.wrong = 0

theorem span_self (first i : Nat) : span first first i = 0 := if_neg (by omega)

theorem span_add_span (h : first ≤ middle) (h' : middle ≤ last) (i : Nat) :
    span first middle i + span middle last i = span first last i := by
  simp only [span]
  split <;> split <;> split <;> omega

variable {held : Nat → Nat}

theorem Holds.called (h : Holds s held) : Holds s.called held := ⟨h.held, h.wrong⟩

theorem Holds.hold (h : Holds s held) (i : Nat) : Holds (s.hold i) fun j => held j + span i (i + 1) j := by
  refine ⟨?_, h.wrong⟩
  funext j
  simp only [State.hold, h.held, span]
  split <;> split <;> omega

theorem Holds.unlock (h : Holds s fun j => held j + span i (i + 1) j) : Holds (s.unlock i) held := by
  constructor
  · funext j
    simp only [State.unlock, h.held, span]
    split <;> split <;> omega
  · simp [State.unlock, h.held, h.wrong, span]

theorem Holds.unlockLocks (hlast : last ≤ n) (h : Holds s fun i => held i + span first last i) :
    Holds (unlockLocks n first last s) held := by
  -- after `k` members of the pack those from `k` on are still held
  have hafter (k : Nat) (hk : k ≤ n) :
      Holds ((List.range k).foldl (fun s i => if first ≤ i ∧ i < last then s.unlock i else s) s)
        fun i => held i + span (max first k) last i := by
    induction k with
    | zero => simpa using h
    | succ k ih =>
      rw [List.range_succ, List.foldl_append]
      have hbefore := ih (by omega)
      simp only [List.foldl_cons, List.foldl_nil]
      split_ifs with hin
      · refine Holds.unlock ⟨hbefore.held.trans ?_, hbefore.wrong⟩
        funext i
        simp only [span]
        split <;> split <;> split <;> omega
      · refine ⟨hbefore.held.trans ?_, hbefore.wrong⟩
        funext i
        simp only [span]
        split <;> split <;> omega
  have hall := hafter n (Nat.le_refl n)
  refine ⟨hall.held.trans ?_, hall.wrong⟩
  funext i
  simp only [span]
  split <;> omega

/-- All of the range is held in addition, or nothing but what was held before. -/
def RangeTried (n : Nat) (held : Nat → Nat) (first last : Nat) : Result ε (Option Nat) → Prop
  | .returned none s => Holds s fun i => held i + span first last i
  | .returned (some failed) s => Holds s held ∧ failed < n
  | .threw _ s => Holds s held

theorem tryLockLoop_tried (hle : first ≤ current) (hlast : current + left ≤ n)
    (h : Holds s fun i => held i + span first current i) :
    RangeTried n held first (current + left) (tryLockLoop env n first left current s) := by
  induction left generalizing current s with
  | zero => exact h
  | succ left ih =>
    have hcurrent : current < n := by omega
    simp only [tryLockLoop, tryLockTargetFromLocks, if_pos hcurrent, tryLockMutex]
    cases env.tryLock s.calls with
    | success =>
      have hhold := h.called.hold current
      have hspan : (fun i => held i + span first current i + span current (current + 1) i) =
          fun i => held i + span first (current + 1) i := by
        funext i
        rw [← span_add_span hle (Nat.le_succ current) i, Nat.add_assoc]
      rw [hspan] at hhold
      have hrest : RangeTried n held first (current + 1 + left)
          (tryLockLoop env n first left (current + 1) (s.called.hold current)) :=
        ih (Nat.le_succ_of_le hle) (by omega) hhold
      rwa [Nat.add_assoc, Nat.add_comm 1 left] at hrest
    | failure => exact ⟨h.called.unlockLocks (Nat.le_of_lt hcurrent), hcurrent⟩
    | exception e => exact h.called.unlockLocks (Nat.le_of_lt hcurrent)

theorem tryLockRange_tried (hle : first ≤ last) (hlast : last ≤ n) (h : Holds s held) :
    RangeTried n held first last (tryLockRange env n first last s) := by
  have hstart : Holds s fun i => held i + span first first i := by
    simp only [span_self]
    exact h
  have htried : RangeTried n held first (first + (last - first)) (tryLockLoop env n first (last - first) first s) :=
    tryLockLoop_tried (Nat.le_refl first) (by omega) hstart
  rwa [Nat.add_sub_cancel' hle] at htried

theorem lockAttempt_tried (hprev : prev < n) (h : Holds s fun _ => 0) :
    RangeTried n (fun _ => 0) 0 n (lockAttempt env n prev s) := by
  simp only [lockAttempt, lockTargetFromLocks, if_pos hprev, lockMutex]
  cases env.lock s.calls with
  | some e => exact h.called
  | none =>
    have hfirst := h.called.hold prev
    have hbelow : RangeTried n _ 0 prev (tryLockRange env n 0 prev (s.called.hold prev)) :=
      tryLockRange_tried (Nat.zero_le prev) (Nat.le_of_lt hprev) hfirst
    dsimp only
    cases hres : tryLockRange env n 0 prev (s.called.hold prev) with
    | threw e t =>
      rw [hres] at hbelow
      exact Holds.unlockLocks hprev hbelow
    | returned failed t =>
      rw [hres] at hbelow
      cases failed with
      | some failed => exact ⟨Holds.unlockLocks hprev hbelow.1, hbelow.2⟩
      | none =>
        -- the mutexes up to the first one are held
        have hupto : Holds t fun i => 0 + span 0 (prev + 1) i := by
          refine ⟨hbelow.held.trans ?_, hbelow.wrong⟩
          funext i
          have hspan := span_add_span (Nat.zero_le prev) (Nat.le_succ prev) i
          rw [← hspan, Nat.add_comm (span 0 prev i), Nat.add_assoc]
        have habove : RangeTried n _ (prev + 1) n (tryLockRange env n (prev + 1) n t) :=
          tryLockRange_tried hprev (Nat.le_refl n) hupto
        dsimp only
        cases hres' : tryLockRange env n (prev + 1) n t with
        | threw e u =>
          rw [hres'] at habove
          exact Holds.unlockLocks hprev habove
        | returned failed u =>
          rw [hres'] at habove
          cases failed with
          | some failed => exact ⟨Holds.unlockLocks hprev habove.1, habove.2⟩
          | none =>
            refine ⟨habove.held.trans ?_, habove.wrong⟩
            funext i
            rw [← span_add_span (Nat.zero_le (prev + 1)) hprev i, Nat.add_assoc]

def BothTried : Result ε Bool → Prop
  | .returned true s => Holds s fun _ => 0
  | .returned false s => Holds s (span 0 2)
  | .threw _ s => Holds s fun _ => 0

theorem lockAttemptSmall_tried (hmtx : mtx1 = 0 ∧ mtx2 = 1 ∨ mtx1 = 1 ∧ mtx2 = 0) (h : Holds s fun _ => 0) :
    BothTried (lockAttemptSmall env mtx1 mtx2 s) := by
  simp only [lockAttemptSmall, lockMutex]
  cases env.lock s.calls with
  | some e => exact h.called
  | none =>
    have hfirst := h.called.hold mtx1
    simp only [tryLockMutex]
    cases env.tryLock (s.called.hold mtx1).calls with
    | success =>
      have hboth := hfirst.called.hold mtx2
      refine ⟨hboth.held.trans ?_, hboth.wrong⟩
      funext i
      rcases hmtx with ⟨rfl, rfl⟩ | ⟨rfl, rfl⟩ <;> simp only [span] <;> split <;> split <;> split <;> omega
    | failure | exception e => exact hfirst.called.unlock

def BetweenAttempts (n : Nat) : Option Nat × State → Prop
  | (none, s) => Holds s (span 0 n)
  | (some notLocked, s) => Holds s (fun _ => 0) ∧ notLocked < n

def Ended (n : Nat) : Result ε Unit → Prop
  | .returned () s => Holds s (span 0 n)
  | .threw _ s => Holds s fun _ => 0

def PassMade (n : Nat) : Pass (Option Nat × State) (Result ε Unit) → Prop
  | .again next => BetweenAttempts n next
  | .leave r => Ended n r

variable {pass : Option Nat × State}

theorem lockImplMany_made (h : BetweenAttempts n pass) : PassMade n (lockImplMany env n pass) := by
  obtain ⟨notLocked, s⟩ := pass
  cases notLocked with
  | none => exact h
  | some notLocked =>
    have htried : RangeTried n (fun _ => 0) 0 n (lockAttempt env n notLocked s) := lockAttempt_tried h.2 h.1
    simp only [lockImplMany]
    cases hres : lockAttempt env n notLocked s with
    | threw e t =>
      rw [hres] at htried
      exact htried
    | returned failed t =>
      rw [hres] at htried
      cases failed with
      | some failed => exact htried
      | none => exact ⟨htried.held.trans (funext fun i => Nat.zero_add _), htried.wrong⟩

theorem lockImplTwo_made (h : BetweenAttempts 2 pass) : PassMade 2 (lockImplTwo env pass) := by
  obtain ⟨mtx1, s⟩ := pass
  cases mtx1 with
  | none => exact h
  | some mtx1 =>
    obtain ⟨hnone, hlt⟩ := h
    have htried : BothTried (lockAttemptSmall env mtx1 (1 - mtx1) s) := lockAttemptSmall_tried (by omega) hnone
    simp only [lockImplTwo]
    cases hres : lockAttemptSmall env mtx1 (1 - mtx1) s with
    | threw e t =>
      rw [hres] at htried
      exact htried
    | returned again t =>
      rw [hres] at htried
      cases again with
      | true => exact ⟨htried, by omega⟩
      | false => exact htried

theorem lockImpl_made (h : BetweenAttempts n pass) : PassMade n (lockImpl env n pass) := by
  by_cases hn : n = 2
  · subst hn
    exact lockImplTwo_made h
  · rw [lockImpl, if_neg hn]
    exact lockImplMany_made h

theorem betweenAttempts_of_reaches (hn : 2 ≤ n) (h : Reaches (lockImpl env n) start pass) :
    BetweenAttempts n pass := by
  have hstart : BetweenAttempts n start := ⟨⟨rfl, rfl⟩, by omega⟩
  refine h.invariant (I := BetweenAttempts n) ?_ hstart
  intro s t hs hpass
  have hmade : PassMade n (lockImpl env n s) := lockImpl_made hs
  rw [hpass] at hmade
  exact hmade

theorem ended_of_ends (hn : 2 ≤ n) (h : Ends (lockImpl env n) start r) : Ended n r := by
  obtain ⟨pass, hreaches, hleave⟩ := ends_iff_reaches.mp h
  have hmade : PassMade n (lockImpl env n pass) := lockImpl_made (betweenAttempts_of_reaches hn hreaches)
  rw [hleave] at hmade
  exact hmade

/-- If the call returns the caller holds each mutex once; if an exception leaves it, none; none is
held between two attempts; and no mutex is unlocked that is not held. -/
theorem lock_all_or_none (env : Results ε) {n : Nat} (hn : 2 ≤ n) :
    (∀ s, Ends (lockImpl env n) start (.returned () s) → (∀ i, s.held i = if i < n then 1 else 0) ∧ s.wrong = 0) ∧
    (∀ e s, Ends (lockImpl env n) start (.threw e s) → (∀ i, s.held i = 0) ∧ s.wrong = 0) ∧
    (∀ notLocked s, Reaches (lockImpl env n) start (notLocked, s) →
      (notLocked ≠ none → ∀ i, s.held i = 0) ∧ s.wrong = 0) := by
  refine ⟨fun s hends => ?_, fun e s hends => ?_, fun notLocked s hreaches => ?_⟩
  · have hended := ended_of_ends hn hends
    refine ⟨fun i => ?_, hended.wrong⟩
    rw [hended.held, span]
    simp
  · have hended := ended_of_ends hn hends
    exact ⟨fun i => congrFun hended.held i, hended.wrong⟩
  · have hbetween := betweenAttempts_of_reaches hn hreaches
    cases notLocked with
    | none => exact ⟨fun hne => absurd rfl hne, hbetween.wrong⟩
    | some notLocked => exact ⟨fun _ i => congrFun hbetween.1.held i, hbetween.1.wrong⟩

def oneFailure : Results Unit := ⟨fun _ => none, fun call => if call = 2 then .failure else .success⟩

/-- Three mutexes: the first attempt gives up the first two, the second has all. -/
theorem lock_three_after_failure : ∃ s, Ends (lockImpl oneFailure 3) start (.returned () s) ∧ s.calls = 6 ∧
      (∀ i, s.held i = if i < 3 then 1 else 0) ∧ s.wrong = 0 := by
  have hends : ∃ s, Ends (lockImpl oneFailure 3) start (.returned () s) ∧ s.calls = 6 := ⟨_, ⟨3, rfl⟩, rfl⟩
  obtain ⟨s, hs, hcalls⟩ := hends
  obtain ⟨hheld, hwrong⟩ := (lock_all_or_none oneFailure (by decide : 2 ≤ 3)).1 s hs
  exact ⟨s, hs, hcalls, hheld, hwrong⟩

end Ktl.LockAttempts
