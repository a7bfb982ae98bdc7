import Ktl.HandleTable
import Ktl.Runs

/-!
`condition_variable`: waiters that count themselves and block on an auto-reset event, and
notifiers that take counts and set the event. Every call is a thread of its own, and the
atomic steps of all calls interleave. The event is the kernel's: setting it hands the
signal to one of the threads blocked on it, or keeps at most one.

`watched` has, for a call of `notify_all`, the waiters that had released the mutex when the
call began, and `notified` those of the calls that have returned.
-/
namespace Ktl.ConditionVariable

open Runs HandleTable List

inductive Pc where
  /-- in `wait`: unlock, increment, block, blocked, lock, returned -/
  | unlock
  | increment
  | block
  | blocked
  | lock
  | waitReturned
  /-- in `notify_one` -/
  | load
  | compareExchange (current : Nat)
  | setOne
  | oneReturned
  /-- in `notify_all`, with the number of sets left -/
  | exchange
  | setAll (left : Nat)
  | allReturned
  deriving DecidableEq

@[simp] def Pc.waiting : Pc → Bool
  | .increment | .block | .blocked => true
  | _ => false

structure State where
  threads : HandleTable Nat Pc
  mutex : Option Nat
  waitCount : Nat
  signaled : Bool
  watched : Nat → List Nat
  notified : List Nat

def State.initial : State := ⟨⟨[], fun _ => .waitReturned⟩, none, 0, false, fun _ => [], []⟩

abbrev State.ids (s : State) : List Nat := s.threads.ids

def State.pc (s : State) (i : Nat) : Pc := s.threads.value i

def State.goto (s : State) (i : Nat) (pc : Pc) : State :=
  { s with threads := s.threads.assign i pc }

inductive Action where
  /-- the caller has locked the mutex and calls `wait` -/
  | callWait (i : Nat)
  | unlock (i : Nat)
  | increment (i : Nat)
  | block (i : Nat)
  | lock (i : Nat)
  /-- the caller of `wait` unlocks the mutex -/
  | release (i : Nat)
  | callNotifyOne (i : Nat)
  | load (i : Nat)
  | compareExchange (i : Nat)
  | setOne (i : Nat) (woken : Option Nat)
  | callNotifyAll (i : Nat)
  | exchange (i : Nat)
  | setAll (i : Nat) (woken : Option Nat)
  | returnAll (i : Nat)
  deriving DecidableEq

/-- `KeSetEvent`; `woken` is the blocked thread that the kernel picks. -/
def setEvent (s : State) : Option Nat → Option State
  | some j => if j ∈ s.ids ∧ s.pc j = .blocked then some (s.goto j .lock) else none
  | none => if ∀ j ∈ s.ids, s.pc j ≠ .blocked then some { s with signaled := true } else none

def step (s : State) : Action → Option State
  | .callWait i =>
    if i ∉ s.ids ∧ s.mutex = none then
      some { s with threads := s.threads.emplace i .unlock, mutex := some i } else none
  | .unlock i =>
    if i ∈ s.ids ∧ s.pc i = .unlock then some { s.goto i .increment with mutex := none } else none
  | .increment i =>
    if i ∈ s.ids ∧ s.pc i = .increment then
      some { s.goto i .block with waitCount := s.waitCount + 1 } else none
  | .block i =>
    if i ∈ s.ids ∧ s.pc i = .block then
      if s.signaled then some { s.goto i .lock with signaled := false }
      else some (s.goto i .blocked)
    else none
  | .lock i =>
    if i ∈ s.ids ∧ s.pc i = .lock ∧ s.mutex = none then
      some { s.goto i .waitReturned with mutex := some i } else none
  | .release i =>
    if i ∈ s.ids ∧ s.pc i = .waitReturned ∧ s.mutex = some i then
      some { s with mutex := none } else none
  | .callNotifyOne i =>
    if i ∉ s.ids then some { s with threads := s.threads.emplace i .load } else none
  | .load i =>
    if i ∈ s.ids ∧ s.pc i = .load then
      if s.waitCount = 0 then some (s.goto i .oneReturned)
      else some (s.goto i (.compareExchange s.waitCount))
    else none
  | .compareExchange i =>
    match s.pc i with
    | .compareExchange current =>
      if i ∈ s.ids then
        if s.waitCount = current then
          some { s.goto i .setOne with waitCount := current - 1 }
        else some (s.goto i .load)
      else none
    | _ => none
  | .setOne i woken =>
    if i ∈ s.ids ∧ s.pc i = .setOne then setEvent (s.goto i .oneReturned) woken else none
  | .callNotifyAll i =>
    if i ∉ s.ids then
      some { s with
        threads := s.threads.emplace i .exchange
        watched := Function.update s.watched i (s.ids.filter fun j => (s.pc j).waiting) }
    else none
  | .exchange i =>
    if i ∈ s.ids ∧ s.pc i = .exchange then
      some { s.goto i (.setAll s.waitCount) with waitCount := 0 } else none
  | .setAll i woken =>
    match s.pc i with
    | .setAll (left + 1) => if i ∈ s.ids then setEvent (s.goto i (.setAll left)) woken else none
    | _ => none
  | .returnAll i =>
    if i ∈ s.ids ∧ s.pc i = .setAll 0 then
      some { s.goto i .allReturned with notified := s.watched i ++ s.notified } else none

/-! ## What is to hold -/

@[simp] def Pc.setsLeft : Pc → Nat
  | .setOne => 1
  | .setAll left => left
  | _ => 0

def State.pendingSignals (s : State) : Nat := s.signaled.toNat + s.threads.total Pc.setsLeft

/-- Waiters not past the event for which a `notify_all` has returned that began after they had
released the mutex. -/
def State.notifiedWaiting (s : State) : Nat :=
  s.ids.countP fun i => (s.pc i).waiting && s.notified.contains i

def NoLostWakeUp (s : State) : Prop := s.notifiedWaiting ≤ s.pendingSignals

/-- When a step comes at the right time: `notify_all` takes the count while no waiter is about to
count itself; the event is set while it holds no signal; a waiter counts itself while no signal is
pending. -/
def Timely (s : State) : Action → Prop
  | .exchange _ => ∀ j ∈ s.ids, s.pc j ≠ .increment
  | .setOne .. | .setAll .. => s.signaled = false
  | .increment _ => s.pendingSignals = 0
  | _ => True

instance (s : State) (a : Action) : Decidable (Timely s a) :=
  match a with
  | .exchange _ => inferInstanceAs (Decidable (∀ j ∈ s.ids, s.pc j ≠ .increment))
  | .setOne .. | .setAll .. => inferInstanceAs (Decidable (s.signaled = false))
  | .increment _ => inferInstanceAs (Decidable (s.pendingSignals = 0))
  | .callWait _ | .unlock _ | .block _ | .lock _ | .release _ | .callNotifyOne _ | .load _
  | .compareExchange _ | .callNotifyAll _ | .returnAll _ => isTrue trivial

/-! ## The invariant -/

@[simp] def Pc.inEvent : Pc → Nat
  | .block | .blocked => 1
  | _ => 0

@[simp] def Pc.released : Pc → Bool
  | .increment | .block | .blocked | .lock | .waitReturned => true
  | _ => false

def Pc.loaded : Pc → Bool
  | .compareExchange current => current != 0
  | _ => true

/-- A `notify_all` that has returned, or has taken the count, owes the waiter a
signal. -/
def State.Claimed (s : State) (i : Nat) : Prop :=
  i ∈ s.notified ∨ ∃ n ∈ s.ids, ∃ left, s.pc n = .setAll left ∧ i ∈ s.watched n

/-- `hand` is the number of signals that a notifier has taken and not yet given to the event. -/
structure Inv (s : State) (hand : Nat) : Prop where
  nodup : s.ids.Nodup
  counts : s.waitCount + s.pendingSignals + hand = s.threads.total Pc.inEvent
  released : ∀ i, (i ∈ s.notified ∨ ∃ n, i ∈ s.watched n) → i ∈ s.ids ∧ (s.pc i).released
  claimed : ∀ i ∈ s.ids, (s.pc i).waiting → s.Claimed i → (s.pc i).inEvent = 1 ∧ s.waitCount = 0
  loaded : ∀ i ∈ s.ids, (s.pc i).loaded

theorem initial_inv : Inv State.initial 0 where
  nodup := nodup_nil
  counts := rfl
  released := by simp [State.initial]
  claimed := fun _ hi => absurd hi not_mem_nil
  loaded := fun _ hi => absurd hi not_mem_nil

theorem pc_goto_self (s : State) (i : Nat) (q : Pc) : (s.goto i q).pc i = q :=
  value_assign_self ..
theorem pc_goto_of_ne (hne : j ≠ i) (s : State) (q : Pc) : (s.goto i q).pc j = s.pc j :=
  value_assign_of_ne hne ..
theorem Pc.released_of_waiting {pc : Pc} (h : pc.waiting) : pc.released := by
  cases pc <;> simp_all

theorem Inv.goto (h : Inv s hand) (hi : i ∈ s.ids) (waitCount : Nat) (signaled : Bool) (mutex : Option Nat)
    (hloaded : q.loaded) (hreleased : (s.pc i).released → q.released)
    (hsends : ∀ left, q = .setAll left → ∃ left', s.pc i = .setAll left')
    (hwaiting : q.waiting → (s.pc i).released → (s.pc i).waiting ∧ ((s.pc i).inEvent = 1 → q.inEvent = 1))
    (hcounts : waitCount + signaled.toNat + q.setsLeft + hand' + (s.pc i).inEvent =
      s.waitCount + s.signaled.toNat + (s.pc i).setsLeft + hand + q.inEvent)
    (hzero : ∀ j ∈ s.ids, (s.pc j).waiting → s.Claimed j → waitCount = 0) :
    Inv { s.goto i q with waitCount := waitCount, signaled := signaled, mutex := mutex } hand' where
  nodup := h.nodup
  counts := by
    have hbefore := h.counts
    have hsets := total_assign h.nodup hi q Pc.setsLeft
    have hevent := total_assign h.nodup hi q Pc.inEvent
    simp only [State.pendingSignals, State.goto, State.pc] at *
    omega
  released := by
    intro j hj
    obtain ⟨hmem, hrel⟩ := h.released j hj
    refine ⟨hmem, ?_⟩
    by_cases he : j = i
    · subst he
      exact (pc_goto_self s j q).symm ▸ hreleased hrel
    · exact (pc_goto_of_ne he s q).symm ▸ hrel
  claimed := by
    intro j hj hwait hclaim
    have hold : s.Claimed j := by
      rcases hclaim with hnotified | ⟨n, hn, left, hpc, hwatched⟩
      · exact Or.inl hnotified
      · by_cases he : n = i
        · subst he
          obtain ⟨left', hpc'⟩ := hsends left ((pc_goto_self s n q).symm.trans hpc)
          exact Or.inr ⟨n, hn, left', hpc', hwatched⟩
        · exact Or.inr ⟨n, hn, left, (pc_goto_of_ne he s q).symm.trans hpc, hwatched⟩
    by_cases he : j = i
    · subst he
      have hpc := pc_goto_self s j q
      have hrel := (h.released j (hold.imp id fun ⟨n, _, _, _, hwatched⟩ => ⟨n, hwatched⟩)).2
      change ((s.goto j q).pc j).waiting = true at hwait
      change ((s.goto j q).pc j).inEvent = 1 ∧ _
      rw [hpc] at hwait ⊢
      obtain ⟨hwas, hevent⟩ := hwaiting hwait hrel
      exact ⟨hevent (h.claimed j hj hwas hold).1, hzero j hj hwas hold⟩
    · have hpc := pc_goto_of_ne he s q
      change ((s.goto i q).pc j).waiting = true at hwait
      change ((s.goto i q).pc j).inEvent = 1 ∧ _
      rw [hpc] at hwait ⊢
      exact ⟨(h.claimed j hj hwait hold).1, hzero j hj hwait hold⟩
  loaded := by
    intro j hj
    by_cases he : j = i
    · subst he
      exact (pc_goto_self s j q).symm ▸ hloaded
    · exact (pc_goto_of_ne he s q).symm ▸ h.loaded j hj

theorem Inv.waitCount_zero (h : Inv s hand) : ∀ j ∈ s.ids, (s.pc j).waiting → s.Claimed j → s.waitCount = 0 :=
  fun j hj hwait hclaim => (h.claimed j hj hwait hclaim).2

theorem Inv.call (h : Inv s 0) (hi : i ∉ s.ids)
    (hq : q.waiting = false ∧ q.inEvent = 0 ∧ q.setsLeft = 0 ∧ ∀ left, q ≠ .setAll left) (hloaded : q.loaded)
    (hknown : ∀ j ∈ known, j ∈ s.ids ∧ (s.pc j).released) (mutex : Option Nat) :
    Inv { s with
      threads := s.threads.emplace i q
      mutex := mutex
      watched := Function.update s.watched i known } 0 := by
  have hother : ∀ j ∈ s.ids, (s.threads.emplace i q).value j = s.pc j := by
    intro j hj
    have hne : j ≠ i := fun he => hi (he ▸ hj)
    exact value_emplace_of_ne hne ..
  constructor
  · exact nodup_cons.mpr ⟨hi, h.nodup⟩
  · have hbefore := h.counts
    have hsets := total_emplace hi q Pc.setsLeft
    have hevent := total_emplace hi q Pc.inEvent
    simp only [State.pendingSignals] at hbefore ⊢
    omega
  · intro j hj
    have hreleased : j ∈ s.ids ∧ (s.pc j).released := by
      rcases hj with hnotified | ⟨n, hn⟩
      · exact h.released j (Or.inl hnotified)
      · by_cases he : n = i
        · subst he
          simp only [Function.update_self] at hn
          exact hknown j hn
        · simp only [Function.update_of_ne he] at hn
          exact h.released j (Or.inr ⟨n, hn⟩)
    refine ⟨mem_cons_of_mem i hreleased.1, ?_⟩
    rw [State.pc, hother j hreleased.1]
    exact hreleased.2
  · intro j hj hwait hclaim
    rw [State.pc] at hwait ⊢
    rcases mem_cons.mp hj with rfl | hj
    · simp only [value_emplace_self, hq.1, Bool.false_eq_true] at hwait
    · have hold : s.Claimed j := by
        rcases hclaim with hnotified | ⟨n, hn, left, hpc, hwatched⟩
        · exact Or.inl hnotified
        · rw [State.pc] at hpc
          rcases mem_cons.mp hn with rfl | hn
          · simp only [value_emplace_self] at hpc
            exact absurd hpc (hq.2.2.2 left)
          · have hne : n ≠ i := fun he => hi (he ▸ hn)
            rw [hother n hn] at hpc
            simp only [Function.update_of_ne hne] at hwatched
            exact Or.inr ⟨n, hn, left, hpc, hwatched⟩
      rw [hother j hj] at hwait ⊢
      exact h.claimed j hj hwait hold
  · intro j hj
    rw [State.pc]
    rcases mem_cons.mp hj with rfl | hj
    · simpa only [value_emplace_self] using hloaded
    · rw [hother j hj]
      exact h.loaded j hj

theorem Inv.setEvent (h : Inv s 1) (hsignaled : s.signaled = false) (hset : setEvent s woken = some s') : Inv s' 0 := by
  cases woken with
  | none =>
    obtain ⟨-, rfl⟩ := guarded hset
    refine ⟨h.nodup, ?_, h.released, h.claimed, h.loaded⟩
    have hbefore := h.counts
    simp only [State.pendingSignals, hsignaled, Bool.toNat_false, Bool.toNat_true] at hbefore ⊢
    omega
  | some j =>
    obtain ⟨⟨hj, hpc⟩, rfl⟩ := guarded hset
    apply h.goto hj s.waitCount s.signaled s.mutex rfl
    · simp
    · simp
    · simp
    · simp [hpc, Pc.setsLeft, Pc.inEvent]
    · exact h.waitCount_zero

theorem Inv.plain (h : Inv s hand) (hi : i ∈ s.ids) (mutex : Option Nat) (hloaded : q.loaded)
    (hreleased : (s.pc i).released → q.released)
    (hq : q.waiting = false ∧ q.inEvent = 0 ∧ q.setsLeft = 0 ∧ ∀ left, q ≠ .setAll left)
    (hold : (s.pc i).inEvent = 0 ∧ (s.pc i).setsLeft = 0) : Inv { s.goto i q with mutex := mutex } hand := by
  apply h.goto hi s.waitCount s.signaled mutex hloaded hreleased
  · exact fun left he => absurd he (hq.2.2.2 left)
  · simp only [hq.1, Bool.false_eq_true, false_implies]
  · simp only [hq.2.1, hq.2.2.1, hold.1, hold.2]
  · exact h.waitCount_zero

theorem Inv.compareExchange (h : Inv s 0) (hi : i ∈ s.ids) (hpc : s.pc i = .compareExchange current)
    (hsame : s.waitCount = current) : Inv { s.goto i .setOne with waitCount := current - 1 } 0 := by
  have hpos : current ≠ 0 := by simpa [hpc, Pc.loaded] using h.loaded i hi
  apply h.goto hi (current - 1) s.signaled s.mutex rfl
  · simp [hpc]
  · simp
  · simp
  · simp only [hpc, Pc.setsLeft, Pc.inEvent]
    omega
  · intro j hj hwait hclaim
    have := h.waitCount_zero j hj hwait hclaim
    omega

section

variable (h : Inv s 0) (hi : i ∈ s.ids)

include h hi

theorem Inv.exchange (hpc : s.pc i = .exchange) (htimely : ∀ j ∈ s.ids, s.pc j ≠ .increment) :
    Inv { s.goto i (.setAll s.waitCount) with waitCount := 0 } 0 := by
  constructor
  · exact h.nodup
  · have hbefore := h.counts
    have hsets := total_assign h.nodup hi (.setAll s.waitCount) Pc.setsLeft
    have hevent := total_assign h.nodup hi (.setAll s.waitCount) Pc.inEvent
    rw [State.pc] at hpc
    simp only [State.pendingSignals, State.goto, hpc, Pc.setsLeft, Pc.inEvent] at *
    omega
  · intro j hj
    obtain ⟨hmem, hrel⟩ := h.released j hj
    have hne : j ≠ i := by
      rintro rfl
      simp [hpc] at hrel
    exact ⟨hmem, (pc_goto_of_ne hne s _).symm ▸ hrel⟩
  · intro j hj hwait _
    refine ⟨?_, rfl⟩
    change ((s.goto i (.setAll s.waitCount)).pc j).waiting = true at hwait
    change ((s.goto i (.setAll s.waitCount)).pc j).inEvent = 1
    by_cases he : j = i
    · subst he
      simp [pc_goto_self] at hwait
    · rw [pc_goto_of_ne he] at hwait ⊢
      have hcounted := htimely j hj
      cases hj' : s.pc j <;> simp_all
  · intro j hj
    change ((s.goto i (.setAll s.waitCount)).pc j).loaded = true
    by_cases he : j = i
    · subst he
      rw [pc_goto_self]
      rfl
    · rw [pc_goto_of_ne he]
      exact h.loaded j hj

theorem Inv.returnAll (hpc : s.pc i = .setAll 0) :
    Inv { s.goto i .allReturned with notified := s.watched i ++ s.notified } 0 := by
  have hmoved : Inv { s.goto i .allReturned with
      waitCount := s.waitCount, signaled := s.signaled, mutex := s.mutex } 0 := by
    apply h.goto hi s.waitCount s.signaled s.mutex rfl
    · simp [hpc]
    · simp
    · simp
    · simp [hpc]
    · exact h.waitCount_zero
  refine ⟨hmoved.nodup, hmoved.counts, ?_, ?_, hmoved.loaded⟩
  · intro j hj
    apply hmoved.released j
    rcases hj with hnotified | hwatched
    · rcases mem_append.mp hnotified with hnew | hold
      · exact Or.inr ⟨i, hnew⟩
      · exact Or.inl hold
    · exact Or.inr hwatched
  · intro j hj hwait hclaim
    change ((s.goto i .allReturned).pc j).waiting = true at hwait
    have hne : j ≠ i := by
      rintro rfl
      simp [pc_goto_self] at hwait
    rw [pc_goto_of_ne hne] at hwait
    have hold : s.Claimed j := by
      rcases hclaim with hnotified | ⟨n, hn, left, hpc', hwatched⟩
      · rcases mem_append.mp hnotified with hnew | hold
        · exact Or.inr ⟨i, hi, 0, hpc, hnew⟩
        · exact Or.inl hold
      · have hni : n ≠ i := by
          rintro rfl
          have hret := pc_goto_self s n .allReturned
          simp only [State.pc] at hpc' hret
          rw [hret] at hpc'
          simp at hpc'
        exact Or.inr ⟨n, hn, left, (pc_goto_of_ne hni s _).symm.trans hpc', hwatched⟩
    change ((s.goto i .allReturned).pc j).inEvent = 1 ∧ _
    rw [pc_goto_of_ne hne]
    exact h.claimed j hj hwait hold

theorem Inv.increment (hpc : s.pc i = .increment) (htimely : s.pendingSignals = 0) :
    Inv { s.goto i .block with waitCount := s.waitCount + 1 } 0 := by
  have hnone : ∀ j ∈ s.ids, (s.pc j).waiting → ¬s.Claimed j := by
    intro j hj hwait hclaim
    obtain ⟨hevent, hzero⟩ := h.claimed j hj hwait hclaim
    have hcounts := h.counts
    have hle := weight_le_total hj Pc.inEvent
    rw [State.pc] at hevent
    omega
  apply h.goto hi (s.waitCount + 1) s.signaled s.mutex rfl
  · simp
  · simp
  · simp [hpc]
  · simp only [hpc, Pc.setsLeft, Pc.inEvent]
    omega
  · exact fun j hj hwait hclaim => absurd hclaim (hnone j hj hwait)

theorem Inv.block (hpc : s.pc i = .block) :
    Inv (if s.signaled then { s.goto i .lock with signaled := false } else s.goto i .blocked) 0 := by
  split_ifs with hsignaled
  · apply h.goto hi s.waitCount false s.mutex rfl
    · simp
    · simp
    · simp
    · simp [hpc, hsignaled]
    · exact h.waitCount_zero
  · apply h.goto hi s.waitCount s.signaled s.mutex rfl
    · simp
    · simp
    · simp [hpc]
    · simp [hpc]
    · exact h.waitCount_zero

theorem Inv.takeOne (hpc : s.pc i = .setOne) : Inv (s.goto i .oneReturned) 1 := by
  apply h.goto hi s.waitCount s.signaled s.mutex rfl
  · simp [hpc]
  · simp
  · simp
  · simp [hpc, Pc.setsLeft, Pc.inEvent]
  · exact h.waitCount_zero

end

theorem Inv.takeNext (h : Inv s 0) (hi : i ∈ s.ids) (hpc : s.pc i = .setAll (left + 1)) :
    Inv (s.goto i (.setAll left)) 1 := by
  apply h.goto hi s.waitCount s.signaled s.mutex rfl
  · simp [hpc]
  · simp [hpc]
  · simp
  · simp only [hpc, Pc.setsLeft, Pc.inEvent]
    omega
  · exact h.waitCount_zero

theorem Inv.callPlain (h : Inv s 0) (hi : i ∉ s.ids)
    (hq : q.waiting = false ∧ q.inEvent = 0 ∧ q.setsLeft = 0 ∧ ∀ left, q ≠ .setAll left) (hloaded : q.loaded)
    (mutex : Option Nat) : Inv { s with threads := s.threads.emplace i q, mutex := mutex } 0 := by
  have hcall := h.call hi hq hloaded (fun j hj => h.released j (Or.inr ⟨i, hj⟩)) mutex
  rwa [Function.update_eq_self] at hcall

/-- Every timely step keeps the invariant. -/
theorem Inv.step (h : Inv s 0) (htimely : Timely s a) (hstep : step s a = some s') : Inv s' 0 := by
  cases a with
  | callWait i =>
    obtain ⟨⟨hi, -⟩, rfl⟩ := guarded hstep
    exact h.callPlain hi (by simp) rfl _
  | unlock i =>
    obtain ⟨⟨hi, hpc⟩, rfl⟩ := guarded hstep
    apply h.goto hi s.waitCount s.signaled none rfl
    · simp
    · simp
    · simp [hpc]
    · simp [hpc, Pc.setsLeft, Pc.inEvent]
    · exact h.waitCount_zero
  | increment i =>
    obtain ⟨⟨hi, hpc⟩, rfl⟩ := guarded hstep
    exact h.increment hi hpc htimely
  | block i =>
    obtain ⟨⟨hi, hpc⟩, hnext⟩ := Option.ite_none_right_eq_some.mp hstep
    have hblock := h.block hi hpc
    split at hnext <;> simp_all
  | lock i =>
    obtain ⟨⟨hi, hpc, -⟩, rfl⟩ := guarded hstep
    exact h.plain hi _ rfl (by simp) (by simp) (by simp [hpc])
  | release i =>
    obtain ⟨-, rfl⟩ := guarded hstep
    exact ⟨h.nodup, h.counts, h.released, h.claimed, h.loaded⟩
  | callNotifyOne i =>
    obtain ⟨hi, rfl⟩ := guarded hstep
    exact h.callPlain hi (by simp) rfl _
  | load i =>
    obtain ⟨⟨hi, hpc⟩, hnext⟩ := Option.ite_none_right_eq_some.mp hstep
    split at hnext
    · cases hnext
      exact h.plain hi s.mutex rfl (by simp [hpc]) (by simp) (by simp [hpc])
    · cases hnext
      rename_i hcount
      exact h.plain hi s.mutex (by simpa [Pc.loaded] using hcount) (by simp [hpc]) (by simp) (by simp [hpc])
  | compareExchange i =>
    simp only [ConditionVariable.step] at hstep
    split at hstep
    · rename_i current hpc
      obtain ⟨hi, hnext⟩ := Option.ite_none_right_eq_some.mp hstep
      split at hnext
      · cases hnext
        rename_i hsame
        exact h.compareExchange hi hpc hsame
      · cases hnext
        exact h.plain hi s.mutex rfl (by simp [hpc]) (by simp) (by simp [hpc])
    · cases hstep
  | setOne i woken =>
    obtain ⟨⟨hi, hpc⟩, hset⟩ := Option.ite_none_right_eq_some.mp hstep
    exact (h.takeOne hi hpc).setEvent htimely hset
  | callNotifyAll i =>
    obtain ⟨hi, rfl⟩ := guarded hstep
    refine h.call hi (by simp) rfl (fun j hj => ?_) s.mutex
    obtain ⟨hmem, hwait⟩ := mem_filter.mp hj
    exact ⟨hmem, Pc.released_of_waiting hwait⟩
  | exchange i =>
    obtain ⟨⟨hi, hpc⟩, rfl⟩ := guarded hstep
    exact h.exchange hi hpc htimely
  | setAll i woken =>
    simp only [ConditionVariable.step] at hstep
    split at hstep
    · rename_i left hpc
      obtain ⟨hi, hset⟩ := Option.ite_none_right_eq_some.mp hstep
      exact (h.takeNext hi hpc).setEvent htimely hset
    · cases hstep
  | returnAll i =>
    obtain ⟨⟨hi, hpc⟩, rfl⟩ := guarded hstep
    exact h.returnAll hi hpc

theorem Inv.noLostWakeUp (h : Inv s 0) : NoLostWakeUp s := by
  unfold NoLostWakeUp State.notifiedWaiting
  by_cases hany : ∃ i ∈ s.ids, ((s.pc i).waiting && s.notified.contains i) = true
  · have hclaimed : ∀ i ∈ s.ids, ((s.pc i).waiting && s.notified.contains i) = true →
        (s.pc i).inEvent = 1 ∧ s.waitCount = 0 := by
      intro i hi hi'
      simp only [Bool.and_eq_true, contains_iff_mem] at hi'
      exact h.claimed i hi hi'.1 (Or.inl hi'.2)
    obtain ⟨i, hi, hi'⟩ := hany
    have hzero := (hclaimed i hi hi').2
    have hle : s.ids.countP (fun i => (s.pc i).waiting && s.notified.contains i) ≤ s.threads.total Pc.inEvent :=
      countP_le_total fun i hi hi' => ((hclaimed i hi hi').1).ge
    have hcounts := h.counts
    omega
  · rw [countP_eq_zero.mpr fun i hi hi' => hany ⟨i, hi, hi'⟩]
    exact Nat.zero_le _

/-- In every run whose steps come at the right time no wake-up is lost. -/
theorem noLostWakeUp_of_timely {actions : List Action} {s : State}
    (hrun : Run step Timely State.initial actions s) : NoLostWakeUp s := by
  have hinv : Inv s 0 :=
    hrun.invariant (I := fun s => Inv s 0) (fun _ _ _ h htimely hstep => h.step htimely hstep) initial_inv
  exact hinv.noLostWakeUp

/-- Two waiters are blocked when `notify_all` takes the count; each set wakes one of them. -/
def wakeTwoBlocked : List Action :=
  [.callWait 0, .unlock 0, .callWait 1, .unlock 1, .increment 0, .increment 1, .block 0, .block 1,
    .callNotifyAll 2, .exchange 2, .setAll 2 (some 0), .setAll 2 (some 1), .returnAll 2]

theorem noLostWakeUp_twoBlocked : ∃ s, Run step Timely State.initial wakeTwoBlocked s
      ∧ (s.pc 0 = .lock ∧ s.pc 1 = .lock) ∧ NoLostWakeUp s := by
  obtain ⟨s, hrun, hpc⟩ : ∃ s, Run step Timely State.initial wakeTwoBlocked s
      ∧ (s.pc 0, s.pc 1) = (.lock, .lock) := run_of_exec_map (by decide +kernel)
  exact ⟨s, hrun, Prod.mk.inj hpc, noLostWakeUp_of_timely hrun⟩

/-- `notify_all` sets the event twice before a waiter blocks: the second waiter blocks for good. -/
def setTwiceBeforeBlock : List Action :=
  [.callWait 0, .unlock 0, .callWait 1, .unlock 1, .increment 0, .increment 1,
    .callNotifyAll 2, .exchange 2, .setAll 2 none, .setAll 2 none, .returnAll 2,
    .block 0, .block 1]

theorem signals_merge : ∃ s, Run step (fun _ _ => True) State.initial setTwiceBeforeBlock s
      ∧ s.pc 1 = .blocked ∧ s.notified = [1, 0] ∧ s.waitCount = 0 ∧ s.pendingSignals = 0
      ∧ ¬NoLostWakeUp s := by
  obtain ⟨s, hrun, hs⟩ : ∃ s, Run step (fun _ _ => True) State.initial setTwiceBeforeBlock s
      ∧ (s.pc 1, s.notified, s.waitCount, s.pendingSignals, s.notifiedWaiting)
        = (.blocked, [1, 0], 0, 0, 1) := run_of_exec_map (by decide +kernel)
  refine ⟨s, hrun, ?_⟩
  simp only [Prod.mk.injEq] at hs
  simp [NoLostWakeUp, hs]

end Ktl.ConditionVariable
