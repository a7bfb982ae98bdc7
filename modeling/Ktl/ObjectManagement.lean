import Mathlib.Data.List.Basic
import Ktl.Word32

/-!
Destructors of static objects. `atexit` keeps them in a table of fixed size behind a 32-bit
counter, which is advanced before the table is known to have a free place;
`invoke_global_destructors` runs the table from the counter downwards. What it reads is
recorded as a list of accesses.
-/
namespace Ktl.ObjectManagement

open Ktl

def maxDestructorCount : Nat := 128

variable {Handler : Type*}

structure State (Handler : Type*) where
  destructorStack : Vector (Option Handler) maxDestructorCount
  destructorCount : Nat

/-- A null pointer is refused without touching the counter; any other pointer takes the next index,
whether or not the table has a place for it. -/
def atexit (s : State Handler) : Option Handler → State Handler × Nat
  | none => (s, 1)
  | some destructor =>
    let counter := Word32.increment s.destructorCount
    let idx := Word32.decrement counter
    if h : idx < maxDestructorCount then
      (⟨s.destructorStack.set idx (some destructor), counter⟩, 0)
    else
      (⟨s.destructorStack, counter⟩, 1)

/-- The index that is read, and the pointer that is called; outside the table there is none. -/
structure Access (Handler : Type*) where
  index : Nat
  destructor : Option (Option Handler)

/-- The loop of `invoke_global_destructors`. -/
@[simp] def invokeFrom (stack : Vector (Option Handler) maxDestructorCount) : Nat → List (Access Handler)
  | 0 => []
  | idx + 1 => ⟨idx, stack[idx]?⟩ :: invokeFrom stack idx

def invokeGlobalDestructors (s : State Handler) : State Handler × List (Access Handler) :=
  ({ s with destructorCount := 0 }, invokeFrom s.destructorStack s.destructorCount)

/-! ## Registration sequences -/

/-- The table, with the routines whose registration returned success, oldest first. -/
structure Session (Handler : Type*) where
  state : State Handler
  succeeded : List Handler

def Session.register (s : Session Handler) (destructor : Option Handler) : Session Handler :=
  let (state, result) := atexit s.state destructor
  ⟨state, if result = 0 then s.succeeded ++ destructor.toList else s.succeeded⟩

/-- The registrations after start or the previous unload: the counter is zero, the table as it was
left. -/
def registerAll (stack : Vector (Option Handler) maxDestructorCount)
    (registrations : List (Option Handler)) : Session Handler :=
  registrations.foldl Session.register ⟨⟨stack, 0⟩, []⟩

/-- The traversal that follows a session reads only the table and calls the registered routines,
each once and in reverse order. -/
structure RunsRegistered (s : Session Handler) : Prop where
  inside : ∀ access ∈ (invokeGlobalDestructors s.state).2, access.index < maxDestructorCount
  called : (invokeGlobalDestructors s.state).2.map Access.destructor = (s.succeeded.map fun d => some (some d)).reverse

/-- What `n` registrations leave. Until the counter wraps around it is `n` and the table holds the
successes; afterwards there are more successes than the counter can tell. -/
structure Progress (s : Session Handler) (n : Nat) : Prop where
  counter_lt : s.state.destructorCount < 2 ^ 32
  cases : (s.state.destructorCount = n ∧ s.succeeded.length = min n maxDestructorCount ∧
      ∀ i (h : i < s.succeeded.length), s.state.destructorStack[i]? = some (some s.succeeded[i])) ∨
    (2 ^ 32 ≤ n ∧ maxDestructorCount + min s.state.destructorCount maxDestructorCount ≤ s.succeeded.length)

theorem progress_start (stack : Vector (Option Handler) maxDestructorCount) :
    Progress (⟨⟨stack, 0⟩, []⟩ : Session Handler) 0 where
  counter_lt := by simp
  cases := Or.inl ⟨rfl, by simp, by simp⟩

theorem register_none (s : Session Handler) : s.register none = s := by
  simp [Session.register, atexit]

theorem register_inside (s : Session Handler) (d : Handler) (hidx : s.state.destructorCount < maxDestructorCount) :
    s.register (some d) = ⟨⟨s.state.destructorStack.set s.state.destructorCount (some d),
        s.state.destructorCount + 1⟩, s.succeeded ++ [d]⟩ := by
  have hinc : Word32.increment s.state.destructorCount = s.state.destructorCount + 1 :=
    Word32.increment_of_lt (by unfold maxDestructorCount at hidx; omega)
  simp [Session.register, atexit, hinc, Word32.decrement_succ, hidx]

theorem register_outside (s : Session Handler) (d : Handler) (hidx : ¬s.state.destructorCount < maxDestructorCount) :
    s.register (some d) = ⟨⟨s.state.destructorStack, Word32.increment s.state.destructorCount⟩, s.succeeded⟩ := by
  simp [Session.register, atexit, Word32.decrement_increment, hidx]

theorem Progress.register_some (h : Progress s n) (d : Handler) : Progress (s.register (some d)) (n + 1) := by
  have hlt := h.counter_lt
  by_cases hidx : s.state.destructorCount < maxDestructorCount
  · rw [register_inside s d hidx]
    constructor
    · simp only [maxDestructorCount] at hidx ⊢
      omega
    · rcases h.cases with ⟨hcount, hlen, hstack⟩ | ⟨hwrapped, hlen⟩
      · left
        have hlength : s.succeeded.length = s.state.destructorCount := by omega
        refine ⟨by simp [hcount], by simp; omega, ?_⟩
        intro i hi
        simp only [List.length_append, List.length_singleton] at hi
        rcases Nat.lt_or_eq_of_le (Nat.le_of_lt_succ hi) with hlow | rfl
        · have hne : s.state.destructorCount ≠ i := by omega
          rw [Vector.getElem?_set_ne _ hne, hstack i hlow, List.getElem_append_left hlow]
        · simp [← hlength]
      · right
        simp only [List.length_append, List.length_singleton]
        omega
  · rw [register_outside s d hidx]
    constructor
    · exact Word32.increment_lt hlt
    · rcases h.cases with ⟨hcount, hlen, hstack⟩ | ⟨hwrapped, hlen⟩
      · by_cases hwrap : n + 1 = 2 ^ 32
        · right
          have hzero : Word32.increment s.state.destructorCount = 0 := by
            simp [Word32.increment, hcount, hwrap]
          simp only [hzero]
          omega
        · left
          have hnext : Word32.increment s.state.destructorCount = n + 1 := by
            rw [hcount]
            exact Word32.increment_of_lt (by omega)
          exact ⟨hnext, by simp only; omega, hstack⟩
      · right
        simp only
        omega

theorem Progress.registerAll (h : Progress s n) (registrations : List (Option Handler)) :
    Progress (registrations.foldl Session.register s) (n + (registrations.filterMap id).length) := by
  induction registrations generalizing s n with
  | nil => simpa using h
  | cons destructor rest ih =>
    cases destructor with
    | none => simpa [register_none] using ih h
    | some d =>
      have hrest := ih (h.register_some d)
      simpa [Nat.add_assoc, Nat.add_comm 1] using hrest

/-! ## The traversal -/

theorem length_invokeFrom (stack : Vector (Option Handler) maxDestructorCount) (count : Nat) :
    (invokeFrom stack count).length = count := by
  induction count with
  | zero => rfl
  | succ idx ih => simp [ih]

theorem index_lt_of_mem_invokeFrom (h : access ∈ invokeFrom stack count) : access.index < count := by
  induction count with
  | zero => simp at h
  | succ idx ih =>
    simp only [invokeFrom, List.mem_cons] at h
    rcases h with rfl | h
    · simp
    · have := ih h
      omega

theorem invokeFrom_called {xs : List Handler} (hstack : ∀ i (h : i < xs.length), stack[i]? = some (some xs[i]))
    (hcount : count ≤ xs.length) :
    (invokeFrom stack count).map Access.destructor = ((xs.take count).map fun d => some (some d)).reverse := by
  induction count with
  | zero => simp
  | succ idx ih =>
    have hidx : idx < xs.length := by omega
    simp only [invokeFrom, List.map_cons, hstack idx hidx, ih (by omega)]
    rw [List.take_succ_eq_append_getElem hidx, List.map_append, List.reverse_append]
    rfl

/-- The traversal stays inside the table and calls exactly the registered routines in reverse order
if and only if no more than `maxDestructorCount` non-null routines were offered. -/
theorem runsRegistered_iff (stack : Vector (Option Handler) maxDestructorCount)
    (registrations : List (Option Handler)) :
    RunsRegistered (registerAll stack registrations) ↔ (registrations.filterMap id).length ≤ maxDestructorCount := by
  have h : Progress (registerAll stack registrations) (registrations.filterMap id).length := by
    simpa [registerAll] using (progress_start stack).registerAll registrations
  generalize (registrations.filterMap id).length = n at h ⊢
  generalize registerAll stack registrations = s at h ⊢
  constructor
  · intro hruns
    by_contra hn
    have hcount : s.state.destructorCount ≤ maxDestructorCount := by
      by_contra hlarge
      obtain ⟨idx, hidx⟩ : ∃ idx, s.state.destructorCount = idx + 1 :=
        ⟨s.state.destructorCount - 1, by omega⟩
      have hread := hruns.inside ⟨idx, s.state.destructorStack[idx]?⟩ (by simp [invokeGlobalDestructors, hidx])
      simp only at hread
      omega
    have hlength := congrArg List.length hruns.called
    simp only [invokeGlobalDestructors, List.length_map, length_invokeFrom, List.length_reverse] at hlength
    rcases h.cases with ⟨hcase, -⟩ | ⟨-, hcase⟩
    · omega
    · unfold maxDestructorCount at *
      omega
  · intro hn
    rcases h.cases with ⟨hcount, hlen, hstack⟩ | ⟨hwrapped, -⟩
    · constructor
      · intro access haccess
        have := index_lt_of_mem_invokeFrom haccess
        omega
      · have hlength : s.state.destructorCount = s.succeeded.length := by omega
        simp only [invokeGlobalDestructors, hlength]
        rw [invokeFrom_called hstack (Nat.le_refl _), List.take_length]
    · unfold maxDestructorCount at hn
      omega

/-- One registration too many: it is refused, but the traversal reads past the
end of the table. -/
theorem traversal_overruns :
    let s := registerAll (Vector.replicate maxDestructorCount none) ((List.range (maxDestructorCount + 1)).map some)
    (atexit (registerAll (Vector.replicate maxDestructorCount none)
        ((List.range maxDestructorCount).map some)).state (some maxDestructorCount)).2 = 1 ∧
      (invokeGlobalDestructors s.state).2.head?.map Access.index = some maxDestructorCount := by
  decide +kernel

end Ktl.ObjectManagement
