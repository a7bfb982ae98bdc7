import Ktl.Loops
import Ktl.Outcome

/-!
`operator new`: one loop for the forms that throw and the forms that must not. A new-handler
may change the pool, install another handler or none, throw, or let the pool fail again.
-/
namespace Ktl.OperatorNew

open Loops

inductive PoolType where
  | paged
  | nonPaged
  deriving DecidableEq

inductive OnAllocationFailure where
  | doNothing
  | throwException
  deriving DecidableEq

structure AllocRequest where
  bytesCount : Nat
  poolType : PoolType
  alignment : Nat
  poolTag : Nat
  deriving DecidableEq

def defaultHeapTag : Nat := 0x644c544b

def defaultNewAlignment : Nat := 16

def maxAllocationAlignment : Nat := 4096

structure State (η ω : Type) where
  newHandler : Option η
  world : ω

variable {η ω A ε : Type}

def getNewHandler (s : State η ω) : Option η := s.newHandler

def setNewHandler (s : State η ω) (newH : Option η) : Option η × State η ω :=
  (s.newHandler, { s with newHandler := newH })

/-- What is outside of `operator new`. Handlers and other threads may change the whole state. -/
structure Environment (η ω A ε : Type) where
  /-- `ExAllocatePoolUninitialized` -/
  pool : PoolType → Nat → Nat → State η ω → Option A × State η ω
  handler : η → State η ω → Outcome ε (State η ω)

def getMaxAlignmentForPool : PoolType → Nat
  | .paged | .nonPaged => defaultNewAlignment

def allocateImpl (env : Environment η ω A ε) (request : AllocRequest) (s : State η ω) : Option A × State η ω :=
  if request.alignment ≤ getMaxAlignmentForPool request.poolType then
    env.pool request.poolType request.bytesCount request.poolTag s
  else
    env.pool request.poolType (max request.bytesCount maxAllocationAlignment) request.poolTag s

inductive Event (η A : Type) where
  | attempted (memory : Option A)
  | called (handler : η)
  deriving DecidableEq

inductive Ending (A ε : Type) where
  | returned (memory : Option A)
  | badAlloc
  /-- an exception of a handler -/
  | escaped (error : ε)
  /-- an exception has met `noexcept` -/
  | terminated
  deriving DecidableEq

/-- The state inside the loop, with what has happened in the order in which it did. -/
structure Progress (η ω A : Type) where
  state : State η ω
  events : List (Event η A)

/-- A pass of `operator_new_impl`. -/
def attempt (env : Environment η ω A ε) (onFailure : OnAllocationFailure) (request : AllocRequest)
    (p : Progress η ω A) : Pass (Progress η ω A) (Ending A ε × Progress η ω A) :=
  match allocateImpl env request p.state with
  | (some memory, s) => .leave (.returned memory, ⟨s, p.events ++ [.attempted (some memory)]⟩)
  | (none, s) =>
    let events := p.events ++ [.attempted none]
    match getNewHandler s with
    | some handler =>
      let events := events ++ [.called handler]
      match env.handler handler s, onFailure with
      | .returned s, _ => .again ⟨s, events⟩
      | .threw error s, .throwException => .leave (.escaped error, ⟨s, events⟩)
      | .threw _ s, .doNothing => .leave (.terminated, ⟨s, events⟩)
    | none =>
      match onFailure with
      | .throwException => .leave (.badAlloc, ⟨s, events⟩)
      | .doNothing => .again ⟨s, events⟩

/-- The overloads: with an alignment or not, `nothrow` or not, and one of two tags or none. -/
structure Form where
  alignment : Option Nat
  nothrow : Bool
  tag : Option PoolType
  deriving DecidableEq

namespace Form

def onFailure (form : Form) : OnAllocationFailure :=
  if form.nothrow then .doNothing else .throwException

/-- What the forms pass on to the loop, with `KTL_USING_NON_PAGED_NEW_AS_DEFAULT` or without. -/
def request (nonPagedDefault : Bool) (form : Form) (bytesCount : Nat) : AllocRequest :=
  ⟨bytesCount, form.tag.getD (if nonPagedDefault then .nonPaged else .paged),
    form.alignment.getD defaultNewAlignment, defaultHeapTag⟩

end Form

def Ended (env : Environment η ω A ε) (form : Form) (request : AllocRequest) (s : State η ω)
    (ending : Ending A ε) (events : List (Event η A)) : Prop :=
  ∃ t, Ends (attempt env form.onFailure request) ⟨s, []⟩ (ending, ⟨t, events⟩)

section

variable (env : Environment η ω A ε) (request : AllocRequest)

/-- Attempts that fail, each followed by one call of the handler that is installed by then, which
returns. -/
inductive Retries : State η ω → List (Event η A) → State η ω → Prop
  | nil (s : State η ω) : Retries s [] s
  | cons {s s₁ s₂ t : State η ω} {handler : η} {events : List (Event η A)}
      (hpool : allocateImpl env request s = (none, s₁)) (hinstalled : getNewHandler s₁ = some handler)
      (hcall : env.handler handler s₁ = .returned s₂) (hrest : Retries s₂ events t) :
      Retries s (.attempted none :: .called handler :: events) t

def failure (form : Form) : Ending A ε := if form.nothrow then .returned none else .badAlloc

/-- The first memory is returned, and a failed attempt without a handler is the last one. -/
structure Right (form : Form) (s : State η ω) : Prop where
  success : ∀ events t memory t', Retries env request s events t → allocateImpl env request t = (some memory, t') →
    Ended env form request s (.returned memory) (events ++ [.attempted (some memory)])
  failed : ∀ events t t', Retries env request s events t → allocateImpl env request t = (none, t') →
    getNewHandler t' = none → Ended env form request s (failure form) (events ++ [.attempted none])
  retried : ∀ t events, Reaches (attempt env form.onFailure request) ⟨s, []⟩ ⟨t, events⟩ →
    Retries env request s events t

def AlwaysHandled (s : State η ω) : Prop :=
  ∀ events t t', Retries env request s events t → allocateImpl env request t = (none, t') → getNewHandler t' ≠ none

end

variable {env : Environment η ω A ε}  {form : Form}


theorem attempt_memory (hpool : allocateImpl env request s = (some memory, t)) :
    attempt env onFailure request ⟨s, events⟩ =
      .leave (.returned memory, ⟨t, events ++ [.attempted (some memory)]⟩) := by
  simp [attempt, hpool]

theorem attempt_retry (hpool : allocateImpl env request s = (none, t))
    (hinstalled : getNewHandler t = some handler) (hcall : env.handler handler t = .returned u) :
    attempt env onFailure request ⟨s, events⟩ = .again ⟨u, events ++ [.attempted none, .called handler]⟩ := by
  simp [attempt, hpool, hinstalled, hcall]

theorem attempt_unhandled (hpool : allocateImpl env request s = (none, t)) (hnone : getNewHandler t = none) :
    attempt env onFailure request ⟨s, events⟩ =
      match onFailure with
      | .throwException => .leave (.badAlloc, ⟨t, events ++ [.attempted none]⟩)
      | .doNothing => .again ⟨t, events ++ [.attempted none]⟩ := by
  simp [attempt, hpool, hnone]

theorem attempt_again (h : attempt env onFailure request ⟨s, events⟩ = .again p) :
    ∃ t, allocateImpl env request s = (none, t) ∧
      ((∃ handler, getNewHandler t = some handler ∧ env.handler handler t = .returned p.state ∧
          p.events = events ++ [.attempted none, .called handler]) ∨
        getNewHandler t = none ∧ onFailure = .doNothing) := by
  cases hpool : allocateImpl env request s with
  | mk memory t =>
    cases memory with
    | some memory =>
      rw [attempt_memory hpool] at h
      cases h
    | none =>
      refine ⟨t, rfl, ?_⟩
      cases hnone : getNewHandler t with
      | none =>
        right
        rw [attempt_unhandled hpool hnone] at h
        cases onFailure with
        | doNothing => exact ⟨rfl, rfl⟩
        | throwException => cases h
      | some handler =>
        left
        cases hcall : env.handler handler t with
        | returned u =>
          rw [attempt_retry hpool hnone hcall] at h
          cases h
          exact ⟨handler, rfl, hcall, rfl⟩
        | threw error u =>
          simp only [attempt, hpool, hnone, hcall] at h
          cases onFailure <;> cases h

theorem Retries.snoc (h : Retries env request s events t) (hpool : allocateImpl env request t = (none, u))
    (hinstalled : getNewHandler u = some handler) (hcall : env.handler handler u = .returned v) :
    Retries env request s (events ++ [.attempted none, .called handler]) v := by
  induction h with
  | nil s => exact .cons hpool hinstalled hcall (.nil v)
  | cons hpool' hinstalled' hcall' _ ih => exact .cons hpool' hinstalled' hcall' (ih hpool)

theorem Retries.reaches (onFailure : OnAllocationFailure) (h : Retries env request s events t)
    (before : List (Event η A)) :
    Reaches (attempt env onFailure request) ⟨s, before⟩ ⟨t, before ++ events⟩ := by
  induction h generalizing before with
  | nil s =>
    rw [List.append_nil]
    exact .refl _
  | @cons _ _ _ _ handler _ hpool hinstalled hcall _ ih =>
    have hrest := ih (before ++ [.attempted none, .called handler])
    rw [List.append_assoc] at hrest
    exact .again (attempt_retry hpool hinstalled hcall) hrest

theorem ended_of_retries (h : Retries env request s events t)
    (hleave : attempt env form.onFailure request ⟨t, events⟩ = .leave (ending, ⟨u, events'⟩)) :
    Ended env form request s ending events' := by
  refine ⟨u, ends_iff_reaches.mpr ⟨_, h.reaches form.onFailure [], ?_⟩⟩
  rw [List.nil_append]
  exact hleave

theorem Retries.even (h : Retries env request s events t) : events.length % 2 = 0 := by
  induction h with
  | nil s => rfl
  | cons _ _ _ _ ih =>
    simp only [List.length_cons]
    omega

theorem reaches_unhandled (hform : form.nothrow = true) (h : Retries env request s events t)
    (hpool : allocateImpl env request t = (none, u)) (hnone : getNewHandler u = none) :
    Reaches (attempt env form.onFailure request) ⟨s, []⟩ ⟨u, events ++ [.attempted none]⟩ := by
  have hpolicy : form.onFailure = .doNothing := if_pos hform
  have hreaches := h.reaches form.onFailure []
  rw [List.nil_append] at hreaches
  refine hreaches.step ?_
  rw [attempt_unhandled hpool hnone, hpolicy]

theorem retries_of_reaches (h : form.nothrow = false ∨ AlwaysHandled env request s)
    (hreaches : Reaches (attempt env form.onFailure request) ⟨s, []⟩ ⟨t, events⟩) :
    Retries env request s events t := by
  refine hreaches.invariant (I := fun p => Retries env request s p.events p.state) ?_ (.nil s)
  intro p q hp hpass
  obtain ⟨u, hpool, ⟨handler, hinstalled, hcall, hevents⟩ | ⟨hnone, hpolicy⟩⟩ := attempt_again hpass
  · rw [hevents]
    exact hp.snoc hpool hinstalled hcall
  · cases h with
    | inl hthrows => simp [Form.onFailure, hthrows] at hpolicy
    | inr hhandled => exact absurd hnone (hhandled _ _ _ hp hpool)

/-- `operator new` returns the first memory, calls each handler once between two attempts and gives
up when there is none, except that a form that must not throw does not if a failed attempt finds no
handler. -/
theorem right_iff_handled (env : Environment η ω A ε) (request : AllocRequest) (form : Form) (s : State η ω) :
    Right env request form s ↔ form.nothrow = false ∨ AlwaysHandled env request s := by
  constructor
  · intro h
    cases hform : form.nothrow with
    | false => exact .inl rfl
    | true =>
      right
      intro events t t' hretries hpool hnone
      -- the pass without a handler is counted, and no call comes after it
      have hodd := (h.retried _ _ (reaches_unhandled hform hretries hpool hnone)).even
      have heven := hretries.even
      rw [List.length_append, List.length_singleton] at hodd
      omega
  · intro h
    constructor
    · intro events t memory t' hretries hpool
      exact ended_of_retries hretries (attempt_memory hpool)
    · intro events t t' hretries hpool hnone
      cases h with
      | inr hhandled => exact absurd hnone (hhandled events t t' hretries hpool)
      | inl hthrows =>
        have hpolicy : form.onFailure = .throwException := by simp [Form.onFailure, hthrows]
        have hfailure : (failure form : Ending A ε) = .badAlloc := by simp [failure, hthrows]
        rw [hfailure]
        apply ended_of_retries hretries
        rw [attempt_unhandled hpool hnone, hpolicy]
    · intro t events hreaches
      exact retries_of_reaches h hreaches

def resigning : Environment Unit Unit Nat Unit :=
  ⟨fun _ _ _ s => (none, s), fun _ s => .returned (setNewHandler s none).2⟩

example : (run (attempt resigning .throwException ⟨8, .paged, 16, defaultHeapTag⟩) 2
    ⟨⟨some (), ()⟩, []⟩).map (fun r => (r.1, r.2.events)) =
    some (.badAlloc, [.attempted none, .called (), .attempted none]) := rfl

def exhausted : Environment Unit Unit Nat Unit :=
  ⟨fun _ _ _ s => (none, s), fun _ s => .returned s⟩

def plainNothrow : Form := ⟨none, true, none⟩

/-- `new (nothrow)` asks an exhausted pool again and again and never returns. -/
theorem nothrow_spins : (∀ r, ¬ Ends (attempt exhausted plainNothrow.onFailure (plainNothrow.request false 8))
      ⟨⟨none, ()⟩, []⟩ r) ∧
    ¬ Right exhausted (plainNothrow.request false 8) plainNothrow ⟨none, ()⟩ := by
  have hpool : allocateImpl exhausted (plainNothrow.request false 8) ⟨none, ()⟩ = (none, ⟨none, ()⟩) := rfl
  have hspins : ∀ r, ¬ Ends (attempt exhausted plainNothrow.onFailure (plainNothrow.request false 8))
      ⟨⟨none, ()⟩, []⟩ r := by
    intro r
    refine not_ends_of_again (I := fun p => p.state = ⟨none, ()⟩) ?_ rfl
    rintro ⟨s, events⟩ rfl
    exact ⟨_, attempt_unhandled hpool rfl, rfl⟩
  refine ⟨hspins, ?_⟩
  intro hright
  obtain ⟨t, hends⟩ := hright.failed [] ⟨none, ()⟩ ⟨none, ()⟩ (.nil _) hpool rfl
  exact hspins _ hends

end Ktl.OperatorNew
