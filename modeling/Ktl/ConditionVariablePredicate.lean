import Ktl.Loops

/-!
`wait(lock, pred)` of `condition_variable` and `condition_variable_any`. The test is the
conversion of the predicate object to `bool`; the predicate is not called. What the other
threads do while the lock is released is a schedule of wake-ups.
-/
namespace Ktl.ConditionVariablePredicate

open Loops

variable {ω : Type}

structure Predicate (ω : Type) where
  /-- `pred()` -/
  call : ω → Bool
  /-- `pred` where a `bool` is expected; a function is always true there -/
  object : ω → Bool

def Predicate.function (call : ω → Bool) : Predicate ω := ⟨call, fun _ => true⟩

/-- The data when `wait` is called and after each wait; a wait that is not woken has none. -/
structure Schedule (ω : Type) where
  entry : ω
  wake : Nat → Option ω

inductive Event where
  /-- the predicate was called, with or without the lock; the code never does so -/
  | evaluated (result held : Bool)
  | unlocked
  | blocked
  | locked
  deriving DecidableEq

structure State (ω : Type) where
  data : ω
  held : Bool
  waitCount : Nat
  /-- how many waits for the event have begun -/
  waits : Nat
  /-- the last of them does not end -/
  asleep : Bool
  log : List Event

def start (env : Schedule ω) : State ω := ⟨env.entry, true, 0, 0, false, []⟩

def wait (env : Schedule ω) (s : State ω) : State ω :=
  let s := { s with held := false, log := .unlocked :: s.log }
  let s := { s with waitCount := s.waitCount + 1 }
  let s := { s with waits := s.waits + 1, log := .blocked :: s.log }
  match env.wake (s.waits - 1) with
  | none => { s with asleep := true }
  | some data => { s with data := data, held := true, log := .locked :: s.log }

/-- One pass of `while (!pred) wait(lock)`; a thread that is not woken stays where it is. -/
@[simp] def waitWhileNot (pred : Predicate ω) (env : Schedule ω) (s : State ω) : Pass (State ω) (State ω) :=
  if s.asleep then .again s else if pred.object s.data then .leave s else .again (wait env s)

def conditionVariableWait (pred : Predicate ω) (env : Schedule ω) : State ω → Pass (State ω) (State ω) :=
  waitWhileNot pred env

def conditionVariableAnyWait (pred : Predicate ω) (env : Schedule ω) : State ω → Pass (State ω) (State ω) :=
  waitWhileNot pred env

structure WaitsFor (pred : Predicate ω) (env : Schedule ω) (loop : State ω → Pass (State ω) (State ω)) : Prop where
  /-- it returns only after a call of the predicate, under the lock, was true -/
  returns : ∀ s, Ends loop (start env) s → .evaluated true true ∈ s.log
  /-- it does not block if the predicate is true at once -/
  does_not_block : pred.call env.entry = true → ∀ s, Reaches loop (start env) s → .blocked ∉ s.log

def dataAt (env : Schedule ω) : Nat → Option ω
  | 0 => some env.entry
  | k + 1 => (dataAt env k).bind fun _ => env.wake k

variable {pred : Predicate ω} {env : Schedule ω} {s : State ω}

structure AtTest (env : Schedule ω) (s : State ω) : Prop where
  awake : s.asleep = false
  held : s.held = true
  data : dataAt env s.waits = some s.data

theorem atTest_start : AtTest env (start env) := ⟨rfl, rfl, rfl⟩
theorem wait_asleep (h : env.wake s.waits = none) : (wait env s).asleep = true := by simp [wait, h]

theorem atTest_wait (h : AtTest env s) (hwake : env.wake s.waits = some data) :
    AtTest env (wait env s) ∧ (wait env s).waits = s.waits + 1 ∧ (wait env s).data = data := by
  have hdata : dataAt env (s.waits + 1) = some data := by rw [dataAt, h.data, Option.bind_some, hwake]
  have hwait : wait env s = { s with
      data := data, held := true, waitCount := s.waitCount + 1, waits := s.waits + 1,
      log := .locked :: .blocked :: .unlocked :: s.log } := by simp [wait, hwake]
  rw [hwait]
  exact ⟨⟨h.awake, rfl, hdata⟩, rfl, rfl⟩

theorem blocked_mem_wait : .blocked ∈ (wait env s).log := by
  cases hwake : env.wake s.waits <;> simp [wait, hwake]
theorem evaluated_mem_wait : .evaluated result held ∈ (wait env s).log ↔ .evaluated result held ∈ s.log := by
  cases hwake : env.wake s.waits <;> simp [wait, hwake]

theorem waitWhileNot_leave (hawake : s.asleep = false) (htest : pred.object s.data = true) :
    waitWhileNot pred env s = .leave s := by
  simp [hawake, htest]

theorem waitWhileNot_again (hawake : s.asleep = false) (htest : pred.object s.data = false) :
    waitWhileNot pred env s = .again (wait env s) := by
  simp [hawake, htest]

section
variable (h : Reaches (waitWhileNot pred env) (start env) s)
include h

theorem asleep_or_atTest : s.asleep = true ∨ AtTest env s := by
  refine h.invariant (I := fun s => s.asleep = true ∨ AtTest env s) ?_ (.inr atTest_start)
  intro s t hs hpass
  rcases hs with hasleep | hat
  · simp only [waitWhileNot, hasleep, if_true, Pass.again.injEq] at hpass
    exact .inl (hpass ▸ hasleep)
  · cases htest : pred.object s.data with
    | true =>
      rw [waitWhileNot_leave hat.awake htest] at hpass
      cases hpass
    | false =>
      rw [waitWhileNot_again hat.awake htest] at hpass
      cases hpass
      cases hwake : env.wake s.waits with
      | none => exact .inl (wait_asleep hwake)
      | some data => exact .inr (atTest_wait hat hwake).1

theorem atTest_of_leave (hleave : waitWhileNot pred env s = .leave t) : AtTest env s ∧ pred.object s.data = true := by
  rcases asleep_or_atTest h with hasleep | hat
  · simp [hasleep] at hleave
  · cases htest : pred.object s.data with
    | true => exact ⟨hat, rfl⟩
    | false =>
      rw [waitWhileNot_again hat.awake htest] at hleave
      cases hleave

/-- No call of the predicate is ever logged. -/
theorem not_evaluated (result held : Bool) : .evaluated result held ∉ s.log := by
  refine h.invariant (I := fun s => .evaluated result held ∉ s.log) ?_ List.not_mem_nil
  intro s t hs hpass
  unfold waitWhileNot at hpass
  split at hpass
  · cases hpass
    exact hs
  · split at hpass
    · cases hpass
    · cases hpass
      exact fun hmem => hs (evaluated_mem_wait.mp hmem)

end

theorem reaches_test (hfalse : ∀ j < k, ∀ w, dataAt env j = some w → pred.object w = false)
    (hdata : dataAt env k = some data) :
    ∃ s, Reaches (waitWhileNot pred env) (start env) s ∧ AtTest env s ∧ s.waits = k ∧ s.data = data := by
  induction k generalizing data with
  | zero => exact ⟨start env, .refl _, atTest_start, rfl, Option.some.inj hdata⟩
  | succ k ih =>
    obtain ⟨before, hbefore, hwake⟩ := Option.bind_eq_some_iff.mp hdata
    obtain ⟨s, hreaches, hat, rfl, rfl⟩ := ih (fun j hj => hfalse j (Nat.lt_succ_of_lt hj)) hbefore
    have hpass : waitWhileNot pred env s = .again (wait env s) :=
      waitWhileNot_again hat.awake (hfalse _ (Nat.lt_succ_self _) _ hbefore)
    obtain ⟨hat', hwaits, hdata'⟩ := atTest_wait hat hwake
    exact ⟨_, hreaches.step hpass, hat', hwaits, hdata'⟩

theorem waitsFor_object_iff (pred : Predicate ω) (env : Schedule ω) :
    WaitsFor pred env (waitWhileNot pred env) ↔
      (∀ k data, dataAt env k = some data → pred.object data = false) ∧ pred.call env.entry = false := by
  constructor
  · intro h
    have hfalse (k : Nat) : ∀ data, dataAt env k = some data → pred.object data = false := by
      induction k using Nat.strong_induction_on with
      | _ k ih =>
        intro data hdata
        obtain ⟨s, hreaches, hat, -, rfl⟩ := reaches_test ih hdata
        -- a test that held would end the loop without a call of the predicate
        cases htest : pred.object s.data with
        | false => rfl
        | true =>
          have hleave : waitWhileNot pred env s = .leave s := waitWhileNot_leave hat.awake htest
          exact absurd (h.returns s (ends_iff_reaches.mpr ⟨s, hreaches, hleave⟩)) (not_evaluated hreaches _ _)
    refine ⟨hfalse, ?_⟩
    cases hentry : pred.call env.entry with
    | false => rfl
    | true =>
      have hpass : waitWhileNot pred env (start env) = .again (wait env (start env)) :=
        waitWhileNot_again rfl (hfalse 0 env.entry rfl)
      exact absurd blocked_mem_wait (h.does_not_block hentry _ (.again hpass (.refl _)))
  · rintro ⟨hfalse, hentry⟩
    constructor
    · intro s hends
      obtain ⟨t, ht, hleave⟩ := ends_iff_reaches.mp hends
      obtain ⟨hat, hobj⟩ := atTest_of_leave ht hleave
      rw [hfalse _ _ hat.data] at hobj
      cases hobj
    · intro hcall
      rw [hentry] at hcall
      cases hcall

/-- Both classes wait for their predicate only in calls that never return, where the predicate
object is false at every test and the predicate false at first. -/
theorem wait_pred_iff (pred : Predicate ω) (env : Schedule ω) : (WaitsFor pred env (conditionVariableWait pred env) ↔
      (∀ k data, dataAt env k = some data → pred.object data = false) ∧ pred.call env.entry = false) ∧
    (WaitsFor pred env (conditionVariableAnyWait pred env) ↔
      (∀ k data, dataAt env k = some data → pred.object data = false) ∧ pred.call env.entry = false) :=
  ⟨waitsFor_object_iff pred env, waitsFor_object_iff pred env⟩

theorem false_function_returns :
    let pred : Predicate Bool := .function id
    let env : Schedule Bool := ⟨false, fun _ => none⟩
    run (conditionVariableWait pred env) 1 (start env) = some (start env) ∧
    run (conditionVariableAnyWait pred env) 1 (start env) = some (start env) ∧
    pred.call (start env).data = false ∧ .evaluated true true ∉ (start env).log := by
  refine ⟨rfl, rfl, rfl, ?_⟩
  decide

end Ktl.ConditionVariablePredicate
