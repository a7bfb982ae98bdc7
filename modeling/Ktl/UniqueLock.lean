import Ktl.Runs

/-!
`unique_lock` objects over any mutexes, also recursive ones and ones whose timed lock may end
without the mutex. It is observed how many acquisitions are held on behalf of a lock object,
how often a mutex was unlocked without being held, and how many acquisitions were given up.
-/
namespace Ktl.UniqueLock

open Runs Function Option

structure Guard where
  mtx : Option Nat
  owned : Bool
  /-- acquisitions of the mutex that are held on behalf of the object -/
  acquired : Nat
  deriving DecidableEq

def Guard.empty : Guard := ⟨none, false, 0⟩

structure World where
  object : Nat → Option Guard
  /-- acquisitions that the caller holds without a lock object, by the mutex -/
  byCaller : Nat → Nat
  misuse : Nat
  lost : Nat
  /-- a null pointer to a mutex was followed -/
  crashed : Bool

namespace World

variable (w : World)

def initial : World := ⟨fun _ => none, fun _ => 0, 0, 0, false⟩

def set (i : Nat) (g : Guard) : World := { w with object := update w.object i (some g) }

def remove (i : Nat) : World := { w with object := update w.object i none }

def blame (count : Nat) : World := { w with misuse := w.misuse + count }

def lose (count : Nat) : World := { w with lost := w.lost + count }

def crash : World := { w with crashed := true }

def giveCaller (m count : Nat) : World :=
  { w with byCaller := update w.byCaller m (w.byCaller m + count) }

def takeCaller (m : Nat) : World :=
  { w with byCaller := update w.byCaller m (w.byCaller m - 1) }

end World

inductive TimedResult where
  | acquired
  | timedOut
  | threw
  deriving DecidableEq

section

variable (w : World) (i : Nat) (g : Guard)

def lock (throws : Bool) : World :=
  match g.mtx with
  | none => w.crash
  | some _ => if throws then w else w.set i ⟨g.mtx, true, g.acquired + 1⟩

def unlock : World :=
  match g.mtx with
  | none => w.crash
  | some _ => (w.set i ⟨g.mtx, false, g.acquired - 1⟩).blame (if g.acquired = 0 then 1 else 0)

def release : World :=
  match g.mtx with
  | none => w.set i .empty
  | some m => (w.set i .empty).giveCaller m g.acquired

/-- `move_construct_from`: what was held on behalf of this object and is not unlocked is lost. -/
def moveConstructFrom (j : Nat) : World :=
  let other := (w.object j).getD .empty
  let w := w.set j .empty
  let w := w.lose ((w.object i).getD .empty).acquired
  w.set i other

def resetIfNeeded : World := if g.owned then unlock w i g else w

/-- `~unique_lock` -/
def destroy : World :=
  let w := resetIfNeeded w i g
  (w.lose ((w.object i).getD .empty).acquired).remove i

/-- `lock_for` sets the flag, whether or not the mutex was acquired. An exception leaves no object.
-/
def constructFor (m : Nat) : TimedResult → World
  | .acquired => w.set i ⟨some m, true, 1⟩
  | .timedOut => w.set i ⟨some m, true, 0⟩
  | .threw => w

def constructAdopt (m : Nat) : World :=
  (w.takeCaller m).set i ⟨some m, true, if w.byCaller m = 0 then 0 else 1⟩

end

inductive Operation where
  | construct (i : Nat)
  | constructLock (i m : Nat) (throws : Bool)
  | constructAdopt (i m : Nat)
  | constructDefer (i m : Nat)
  | constructFor (i m : Nat) (result : TimedResult)
  | lock (i : Nat) (throws : Bool)
  | unlock (i : Nat)
  | release (i : Nat)
  | moveConstruct (i j : Nat)
  | moveAssign (i j : Nat)
  | destroy (i : Nat)
  /-- the caller locks or unlocks a mutex without a lock object -/
  | callerLock (m : Nat)
  | callerUnlock (m : Nat)
  deriving DecidableEq

def onObject (w : World) (i : Nat) (f : Guard → World) : Option World := (w.object i).map f

def onNew (w : World) (i : Nat) (w' : World) : Option World := if w.object i = none then some w' else none

def step (w : World) (op : Operation) : Option World :=
  if w.crashed then none
  else match op with
    | .construct i => onNew w i (w.set i .empty)
    | .constructLock i m throws => onNew w i (if throws then w else w.set i ⟨some m, true, 1⟩)
    | .constructAdopt i m => onNew w i (constructAdopt w i m)
    | .constructDefer i m => onNew w i (w.set i ⟨some m, false, 0⟩)
    | .constructFor i m result => onNew w i (constructFor w i m result)
    | .lock i throws => onObject w i fun g => lock w i g throws
    | .unlock i => onObject w i fun g => unlock w i g
    | .release i => onObject w i fun g => release w i g
    | .moveConstruct i j =>
      if i = j then none
      else (w.object j).bind fun _ => onNew w i (moveConstructFrom (w.set i .empty) i j)
    | .moveAssign i j =>
      (w.object j).bind fun _ => onObject w i fun g =>
        let w := resetIfNeeded w i g
        if w.crashed then w else moveConstructFrom w i j
    | .destroy i => onObject w i fun g => destroy w i g
    | .callerLock m => some (w.giveCaller m 1)
    | .callerUnlock m => if w.byCaller m = 0 then none else some (w.takeCaller m)

/-- The flag says what is held on behalf of the object: one acquisition of its mutex, or none. -/
def Exact (g : Guard) : Prop :=
  g.acquired = (if g.owned then 1 else 0) ∧ (g.owned = true → g.mtx ≠ none)
deriving Decidable

structure Sound (w : World) : Prop where
  exact : ∀ i g, w.object i = some g → Exact g
  misuse : w.misuse = 0
  lost : w.lost = 0
  crashed : w.crashed = false

@[simp] def Proper (w : World) : Operation → Prop
  | .constructAdopt _ m => w.byCaller m ≠ 0
  | .constructFor _ _ result => result ≠ .timedOut
  | .lock i throws => ∀ g ∈ w.object i, g.mtx ≠ none ∧ (throws = true ∨ g.owned = false)
  | .unlock i => ∀ g ∈ w.object i, g.owned = true
  | _ => True

section

variable {w : World}

theorem object_set_self : (w.set i g).object i = some g := update_self _ _ _
theorem object_set_ne (h : k ≠ i) : (w.set i g).object k = w.object k := update_of_ne h _ _
theorem exact_empty : Exact .empty := by decide

theorem sound_initial : Sound .initial := by
  refine ⟨?_, rfl, rfl, rfl⟩
  intro i g h
  cases h

theorem Sound.set_iff (h : Sound w) : Sound (w.set i g) ↔ Exact g := by
  constructor
  · intro hset
    exact hset.exact i g object_set_self
  · intro hg
    refine ⟨fun k x hk => ?_, h.misuse, h.lost, h.crashed⟩
    by_cases hki : k = i
    · subst hki
      rw [object_set_self, some.injEq] at hk
      exact hk ▸ hg
    · rw [object_set_ne hki] at hk
      exact h.exact k x hk

theorem Sound.remove (h : Sound w) : Sound (w.remove i) := by
  refine ⟨fun k x hk => ?_, h.misuse, h.lost, h.crashed⟩
  by_cases hki : k = i
  · subst hki
    have hnone : (w.remove k).object k = none := update_self _ _ _
    rw [hnone] at hk
    cases hk
  · have hsame : (w.remove i).object k = w.object k := update_of_ne hki _ _
    rw [hsame] at hk
    exact h.exact k x hk

theorem sound_blame_iff : Sound (w.blame k) ↔ Sound w ∧ k = 0 := by
  constructor
  · intro h
    have hzero := Nat.add_eq_zero_iff.mp h.misuse
    exact ⟨⟨h.exact, hzero.1, h.lost, h.crashed⟩, hzero.2⟩
  · rintro ⟨h, rfl⟩
    exact ⟨h.exact, h.misuse, h.lost, h.crashed⟩

theorem Sound.lose_zero (h : Sound w) : Sound (w.lose 0) := ⟨h.exact, h.misuse, h.lost, h.crashed⟩
theorem Sound.giveCaller (h : Sound w) : Sound (w.giveCaller m k) := ⟨h.exact, h.misuse, h.lost, h.crashed⟩
theorem Sound.takeCaller (h : Sound w) : Sound (w.takeCaller m) := ⟨h.exact, h.misuse, h.lost, h.crashed⟩
theorem not_sound_crash : ¬ Sound w.crash := fun h => Bool.noConfusion h.crashed

section
variable (h : Sound w) (hobj : w.object i = some g)
include h hobj

theorem Sound.lock_iff (throws : Bool) :
    Sound (lock w i g throws) ↔ g.mtx ≠ none ∧ (throws = true ∨ g.owned = false) := by
  have hexact := h.exact i g hobj
  cases hmtx : g.mtx with
  | none => simp [lock, hmtx, not_sound_crash]
  | some m =>
    cases throws with
    | true => simpa [lock, hmtx] using h
    | false =>
      simp only [lock, hmtx, Bool.false_eq_true, if_false, h.set_iff, Exact, hexact.1]
      cases g.owned <;> simp

theorem Sound.unlock_iff : Sound (unlock w i g) ↔ g.owned = true := by
  have hexact := h.exact i g hobj
  cases hmtx : g.mtx with
  | none =>
    have hnot : g.owned ≠ true := fun howned => hexact.2 howned hmtx
    simp [unlock, hmtx, not_sound_crash, hnot]
  | some m =>
    simp only [unlock, hmtx, sound_blame_iff, h.set_iff, Exact, hexact.1]
    cases g.owned <;> simp

theorem Sound.resetIfNeeded :
    Sound (resetIfNeeded w i g) ∧ ∃ x, (resetIfNeeded w i g).object i = some x ∧ x.acquired = 0 := by
  have hexact := h.exact i g hobj
  cases howned : g.owned with
  | true =>
    have hunlock := (h.unlock_iff hobj).mpr howned
    obtain ⟨m, hmtx⟩ := ne_none_iff_exists'.mp (hexact.2 howned)
    have hreset : UniqueLock.resetIfNeeded w i g = unlock w i g := by rw [UniqueLock.resetIfNeeded, howned, if_pos rfl]
    rw [hreset]
    refine ⟨hunlock, ⟨g.mtx, false, g.acquired - 1⟩, ?_, ?_⟩
    · simp [unlock, hmtx, World.blame, World.set]
    · simp [hexact.1, howned]
  | false =>
    have hreset : UniqueLock.resetIfNeeded w i g = w := by
      rw [UniqueLock.resetIfNeeded, howned, if_neg Bool.false_ne_true]
    rw [hreset]
    exact ⟨h, g, hobj, by simp [hexact.1, howned]⟩

theorem Sound.moveConstructFrom (hnone : g.acquired = 0) : Sound (moveConstructFrom w i j) := by
  have hother : Exact ((w.object j).getD .empty) := by
    cases hj : w.object j with
    | none => exact exact_empty
    | some x => exact h.exact j x hj
  have hempty : Sound (w.set j .empty) := h.set_iff.mpr exact_empty
  have hlost : (((w.set j .empty).object i).getD .empty).acquired = 0 := by
    by_cases hij : i = j
    · subst hij
      rw [object_set_self]
      rfl
    · rw [object_set_ne hij, hobj]
      exact hnone
  simp only [UniqueLock.moveConstructFrom, hlost]
  exact hempty.lose_zero.set_iff.mpr hother

end

end

theorem onNew_eq_some (h : onNew w i w₁ = some w') : w' = w₁ := by
  unfold onNew at h
  split at h
  · exact (some.inj h).symm
  · cases h

theorem onObject_eq_some (h : onObject w i f = some w') : ∃ g, w.object i = some g ∧ f g = w' :=
  map_eq_some_iff.mp h

theorem sound_step_iff (h : Sound w) (hstep : step w op = some w') : Sound w' ↔ Proper w op := by
  simp only [step, h.crashed, Bool.false_eq_true, if_false] at hstep
  cases op with
  | construct i =>
    rw [onNew_eq_some hstep]
    exact iff_of_true (h.set_iff.mpr exact_empty) trivial
  | constructLock i m throws =>
    rw [onNew_eq_some hstep]
    refine iff_of_true ?_ trivial
    cases throws with
    | true => exact h
    | false => exact h.set_iff.mpr (by simp [Exact])
  | constructAdopt i m =>
    rw [onNew_eq_some hstep, constructAdopt, h.takeCaller.set_iff]
    by_cases hzero : w.byCaller m = 0 <;> simp [Exact, hzero]
  | constructDefer i m =>
    rw [onNew_eq_some hstep]
    exact iff_of_true (h.set_iff.mpr (by simp [Exact])) trivial
  | constructFor i m result =>
    rw [onNew_eq_some hstep]
    cases result with
    | acquired | timedOut => simp [constructFor, h.set_iff, Exact]
    | threw => simpa [constructFor] using h
  | lock i throws =>
    obtain ⟨g, hobj, rfl⟩ := onObject_eq_some hstep
    simp [h.lock_iff hobj, hobj]
  | unlock i =>
    obtain ⟨g, hobj, rfl⟩ := onObject_eq_some hstep
    simp [h.unlock_iff hobj, hobj]
  | release i =>
    obtain ⟨g, hobj, rfl⟩ := onObject_eq_some hstep
    refine iff_of_true ?_ trivial
    unfold release
    cases g.mtx with
    | none => exact h.set_iff.mpr exact_empty
    | some m => exact (h.set_iff.mpr exact_empty).giveCaller
  | moveConstruct i j =>
    refine iff_of_true ?_ trivial
    dsimp only at hstep
    split at hstep
    · cases hstep
    · obtain ⟨_, -, hnew⟩ := bind_eq_some_iff.mp hstep
      rw [onNew_eq_some hnew]
      exact (h.set_iff.mpr exact_empty).moveConstructFrom object_set_self rfl
  | moveAssign i j =>
    refine iff_of_true ?_ trivial
    obtain ⟨_, -, hassign⟩ := bind_eq_some_iff.mp hstep
    obtain ⟨g, hobj, rfl⟩ := onObject_eq_some hassign
    obtain ⟨hreset, x, hx, hnone⟩ := h.resetIfNeeded hobj
    simp only [hreset.crashed, Bool.false_eq_true, if_false]
    exact hreset.moveConstructFrom hx hnone
  | destroy i =>
    refine iff_of_true ?_ trivial
    obtain ⟨g, hobj, rfl⟩ := onObject_eq_some hstep
    obtain ⟨hreset, x, hx, hnone⟩ := h.resetIfNeeded hobj
    simp only [destroy, hx, getD_some, hnone]
    exact hreset.lose_zero.remove
  | callerLock m =>
    cases hstep
    exact iff_of_true h.giveCaller trivial
  | callerUnlock m =>
    refine iff_of_true ?_ trivial
    dsimp only at hstep
    split at hstep
    · cases hstep
    · cases hstep
      exact h.takeCaller

/-- Every flag is exact, every acquisition that is not given to the caller is unlocked once, and
nothing else is unlocked, if and only if every operation is a proper use; no timed construction may
end without the mutex. -/
theorem sound_run_iff (ops : List Operation) (w : World) :
    Run step (fun w op => ∀ w', step w op = some w' → Sound w') .initial ops w ↔ Run step Proper .initial ops w := by
  refine Run.congr (I := Sound) ?_ ?_ sound_initial
  · intro w op w' h hstep
    rw [← sound_step_iff h hstep, hstep]
    exact ⟨fun hall => hall w' rfl, fun hsound _ heq => some.inj heq ▸ hsound⟩
  · intro w op w' _ hall hstep
    exact hall w' hstep

def observe (w : World) : Option Guard × Nat := (w.object 0, w.misuse)

/-- The time runs out: the destructor unlocks what the lock object does not hold. -/
theorem timed_out_owns : (exec step (fun _ _ => True) .initial [.constructFor 0 0 .timedOut]).map observe =
      some (some ⟨some 0, true, 0⟩, 0) ∧
    (exec step (fun _ _ => True) .initial [.constructFor 0 0 .timedOut, .destroy 0]).map observe = some (none, 1) := by
  decide

end Ktl.UniqueLock
