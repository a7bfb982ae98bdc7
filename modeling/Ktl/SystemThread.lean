import Ktl.HandleTable
import Ktl.Runs
import Ktl.ThreadEntry

/-!
`system_thread` objects, the kernel threads they start and the two resources that change
hands: the packed arguments of a creation and the reference to the thread object. What
`PsCreateSystemThread` and `ObReferenceObjectByHandle` answer is part of the operation, and
the ends of the threads are operations of their own. After `terminate` nothing happens any
more.
-/
namespace Ktl.SystemThread

open Runs ThreadEntry HandleTable Function

/-- The packed arguments of one creation, by which the thread object is named. -/
structure Creation where
  threadClass : ThreadClass
  /-- `PsCreateSystemThread` succeeded -/
  created : Bool
  /-- how the thread left its entry function -/
  ended : Option ThreadEnd
  /-- destructions of the tuple by the creator and by the new thread -/
  byCreator : Nat
  byThread : Nat
  deriving DecidableEq

structure World where
  creation : Nat → Creation
  /-- tuples `0, …, packed - 1` were built -/
  packed : Nat
  /-- the `system_thread` objects with their `m_thread` -/
  table : HandleTable Nat (Option Nat)
  /-- references obtained to and given up for a thread object -/
  obtained : Nat → Nat
  dereferenced : Nat → Nat
  terminated : Bool
  /-- threads whose object was destroyed or overwritten while joinable,
  without `terminate` -/
  dropped : List Nat

def World.empty : World where
  creation := fun _ => ⟨.systemThread, false, none, 0, 0⟩
  packed := 0
  table := ⟨[], fun _ => none⟩
  obtained := fun _ => 0
  dereferenced := fun _ => 0
  terminated := false
  dropped := []

abbrev World.ids (w : World) : List Nat := w.table.ids

@[simp] def World.setCreation (w : World) (k : Nat) (f : Creation → Creation) : World :=
  { w with creation := update w.creation k (f (w.creation k)) }

def joinable (w : World) (this : Nat) : Bool := (w.table.value this).isSome

/-! ## Creation -/

inductive Answer where
  /-- the arguments could not be allocated or copied -/
  | packFailed
  /-- `PsCreateSystemThread` failed -/
  | createFailed
  /-- the thread runs, `ObReferenceObjectByHandle` failed -/
  | notReferenced
  | referenced
  deriving DecidableEq

@[simp] def packFnWithArgs (w : World) (c : ThreadClass) : World × Nat :=
  ({ w with
      creation := update w.creation w.packed ⟨c, false, none, 0, 0⟩
      packed := w.packed + 1 }, w.packed)

@[simp] def tryObtainThreadObject (w : World) (k : Nat) (succeeds : Bool) : World × Option Nat :=
  if succeeds then
    ({ w with obtained := update w.obtained k (w.obtained k + 1) }, some k)
  else (w, none)

@[simp] def createThreadImpl (w : World) (k : Nat) (creates references : Bool) : World × Option (Option Nat) :=
  if creates then
    let (w, object) :=
      tryObtainThreadObject (w.setCreation k fun c => { c with created := true }) k references
    (w, some object)
  else (w, none)

/-- `create_thread`. When `kernel_error` passes, the `unique_ptr` destroys the tuple. -/
@[simp] def createThread (w : World) (c : ThreadClass) (creates references : Bool) : World × Option (Option Nat) :=
  let (w, k) := packFnWithArgs w c
  match createThreadImpl w k creates references with
  | (w, some object) => (w, some object)
  | (w, none) => (w.setCreation k fun c => { c with byCreator := c.byCreator + 1 }, none)

/-- No object comes to life when an exception leaves `create_thread`. -/
def construct (w : World) (h : Nat) (c : ThreadClass) : Answer → World
  | .packFailed => w
  | answer =>
    match createThread w c (answer != .createFailed) (answer == .referenced) with
    | (w, some object) => { w with table := w.table.emplace h object }
    | (w, none) => w

/-- An object without a thread. -/
def constructDefault (w : World) (h : Nat) : World := { w with table := w.table.emplace h none }

/-! ## Objects -/

def destroy (w : World) (this : Nat) : World :=
  match w.table.value this with
  | some k =>
    { w with
      dereferenced := update w.dereferenced k (w.dereferenced k + 1)
      table := w.table.assign this none }
  | none => w

def moveConstruct (w : World) (h other : Nat) : World :=
  { w with table := (w.table.assign other none).emplace h (w.table.value other) }

/-- `thread_base::operator=`, which the defaulted `system_thread::operator=`
calls. -/
def moveAssign (w : World) (this other : Nat) : World :=
  if this ≠ other then
    let w := destroy w this
    { w with table := (w.table.assign other none).assign this (w.table.value other) }
  else w

def swap (w : World) (this other : Nat) : World := { w with table := w.table.swap this other }

/-- `~system_thread` -/
def destruct (w : World) (h : Nat) : World :=
  if joinable w h then { w with terminated := true }
  else
    let w := destroy w h
    { w with table := w.table.erase h }

/-- `join` throws `kernel_error` for an object that is not joinable. -/
def join (w : World) (this : Nat) : World := if joinable w this then destroy w this else w

def detach (w : World) (this : Nat) : World := if joinable w this then destroy w this else w

/-- The end of the entry function: the guard destroys the tuple, unless the program terminates. -/
def finish (w : World) (k : Nat) (routine : Routine) : World :=
  match threadRoutine (w.creation k).threadClass routine with
  | .beforeExit status =>
    w.setCreation k fun c =>
      { c with ended := some (.beforeExit status), byThread := c.byThread + 1 }
  | .terminate => { w with terminated := true }

inductive Operation where
  | constructDefault (h : Nat)
  | construct (h : Nat) (c : ThreadClass) (answer : Answer)
  | moveConstruct (h other : Nat)
  | moveAssign (this other : Nat)
  | swap (this other : Nat)
  | join (this : Nat)
  | detach (this : Nat)
  | destruct (h : Nat)
  | finish (k : Nat) (routine : Routine)

def awaited (w : World) (this : Nat) : Prop :=
  ∀ k ∈ w.table.value this, (w.creation k).ended ≠ none
deriving Decidable

def apply (w : World) : Operation → Option World
  | .constructDefault h => if h ∉ w.ids then some (constructDefault w h) else none
  -- an `io_thread` is another class, with a constructor of its own
  | .construct h c answer => if h ∉ w.ids ∧ c ≠ .ioThread then some (construct w h c answer) else none
  | .moveConstruct h other =>
    if h ∉ w.ids ∧ other ∈ w.ids then some (moveConstruct w h other) else none
  | .moveAssign this other =>
    if this ∈ w.ids ∧ other ∈ w.ids then some (moveAssign w this other) else none
  | .swap this other => if this ∈ w.ids ∧ other ∈ w.ids then some (swap w this other) else none
  | .join this => if this ∈ w.ids ∧ awaited w this then some (join w this) else none
  | .detach this => if this ∈ w.ids then some (detach w this) else none
  | .destruct h => if h ∈ w.ids then some (destruct w h) else none
  | .finish k routine =>
    if k < w.packed ∧ (w.creation k).created ∧ (w.creation k).ended = none then
      some (finish w k routine) else none

def givenUp (w : World) : Operation → Option Nat
  | .destruct h => w.table.value h
  | .moveAssign this other => if this ≠ other then w.table.value this else none
  | _ => none

def step (w : World) (op : Operation) : Option World :=
  if w.terminated then none
  else (apply w op).map fun w' =>
    if w'.terminated then w' else { w' with dropped := (givenUp w op).toList ++ w'.dropped }

structure Sound (w : World) : Prop where
  /-- the creator destroys the tuple exactly if no thread was created, the thread exactly when it
  has ended -/
  tuples : ∀ k < w.packed, (w.creation k).byCreator = (if (w.creation k).created then 0 else 1) ∧
    (w.creation k).byThread = (if (w.creation k).ended.isSome then 1 else 0) ∧
    ((w.creation k).ended.isSome → (w.creation k).created)
  /-- a reference that was obtained is held by one object or was given up once -/
  references : ∀ k, w.obtained k = w.dereferenced k + w.table.holders k ∧ w.obtained k ≤ 1
  none_dropped : w.dropped = []

def Kept (w : World) : Operation → Prop
  | .moveAssign this other => this = other ∨ w.table.value this = none
  | _ => True

instance (w : World) (op : Operation) : Decidable (Kept w op) :=
  match op with
  | .moveAssign this other => inferInstanceAs (Decidable (this = other ∨ w.table.value this = none))
  | .constructDefault _ | .construct .. | .moveConstruct .. | .swap .. | .join _ | .detach _ | .destruct _
  | .finish .. => isTrue trivial

/-! ## The invariant -/

structure Inv (w : World) : Prop extends Sound w where
  nodup : w.ids.Nodup
  unobtained : ∀ k, w.packed ≤ k → w.obtained k = 0

theorem empty_inv : Inv World.empty where
  tuples := by simp [World.empty]
  references := fun _ => ⟨rfl, Nat.zero_le _⟩
  none_dropped := rfl
  nodup := List.nodup_nil
  unobtained := fun _ _ => rfl

theorem destroy_of_none (h : w.table.value this = none) : destroy w this = w := by
  simp [destroy, h]

@[simp] def World.addCreation (w : World) (c : Creation) : World :=
  { w with creation := update w.creation w.packed c, packed := w.packed + 1 }

theorem construct_createFailed (w : World) (h : Nat) (c : ThreadClass) :
    construct w h c .createFailed = w.addCreation ⟨c, false, none, 1, 0⟩ := by
  simp [construct]

theorem construct_notReferenced (w : World) (h : Nat) (c : ThreadClass) : construct w h c .notReferenced =
      { w.addCreation ⟨c, true, none, 0, 0⟩ with table := w.table.emplace h none } := by
  simp [construct]

theorem construct_referenced (w : World) (h : Nat) (c : ThreadClass) : construct w h c .referenced =
      { w.addCreation ⟨c, true, none, 0, 0⟩ with
        obtained := update w.obtained w.packed (w.obtained w.packed + 1)
        table := w.table.emplace h (some w.packed) } := by
  simp [construct]

section

variable (hw : Inv w)

include hw

theorem Inv.terminate : Inv { w with terminated := true } :=
  ⟨⟨hw.tuples, hw.references, hw.none_dropped⟩, hw.nodup, hw.unobtained⟩

theorem Inv.withTable (hn : table.ids.Nodup) (hcount : ∀ k, table.holders k = w.table.holders k) :
    Inv { w with table := table } where
  tuples := hw.tuples
  references := by
    intro k
    obtain ⟨hbalance, hle⟩ := hw.references k
    refine ⟨?_, hle⟩
    change w.obtained k = w.dereferenced k + table.holders k
    rw [hcount]
    exact hbalance
  none_dropped := hw.none_dropped
  nodup := hn
  unobtained := hw.unobtained

theorem Inv.destroy (hthis : this ∈ w.ids) : Inv (destroy w this) := by
  cases hthread : w.table.value this with
  | none => rwa [destroy_of_none hthread]
  | some k =>
    simp only [SystemThread.destroy, hthread]
    refine ⟨⟨hw.tuples, ?_, hw.none_dropped⟩, hw.nodup, hw.unobtained⟩
    intro i
    obtain ⟨hbalance, hle⟩ := hw.references i
    have hcount := holders_assign hw.nodup hthis none i
    rw [hthread] at hcount
    refine ⟨?_, hle⟩
    by_cases hi : k = i
    · subst hi
      simp only [update_self]
      simp only [ind_self, ind_none] at hcount
      omega
    · simp only [update_of_ne (Ne.symm hi)]
      simp only [ind_of_ne hi, ind_none] at hcount
      omega

theorem Inv.moveConstruct (hnew : h ∉ w.ids) (hother : other ∈ w.ids) : Inv (moveConstruct w h other) := by
  apply hw.withTable
  · exact List.nodup_cons.mpr ⟨hnew, hw.nodup⟩
  · intro k
    have htaken := holders_assign hw.nodup hother none k
    rw [holders_emplace (t := w.table.assign other none) hnew]
    simpa using htaken

theorem Inv.moveAssign (hthis : this ∈ w.ids) (hother : other ∈ w.ids)
    (hkept : this = other ∨ w.table.value this = none) : Inv (moveAssign w this other) := by
  unfold SystemThread.moveAssign
  split_ifs with hne
  · have hthread := hkept.resolve_left hne
    rw [destroy_of_none hthread]
    refine hw.withTable hw.nodup fun k => ?_
    have htaken := holders_assign hw.nodup hother none k
    have hgiven := holders_assign (t := w.table.assign other none) hw.nodup hthis (w.table.value other) k
    rw [value_assign_of_ne hne, hthread] at hgiven
    rw [ind_none] at htaken hgiven
    omega
  · exact hw

theorem Inv.swap (hthis : this ∈ w.ids) (hother : other ∈ w.ids) : Inv (swap w this other) :=
  hw.withTable hw.nodup fun _ => holders_swap hw.nodup hthis hother _

theorem Inv.destruct (hmem : h ∈ w.ids) : Inv (destruct w h) := by
  unfold SystemThread.destruct
  split_ifs with hjoinable
  · exact hw.terminate
  · have hthread : w.table.value h = none := by simpa [joinable] using hjoinable
    rw [destroy_of_none hthread]
    apply hw.withTable (hw.nodup.erase h)
    intro k
    have hcount := holders_erase hmem k
    rwa [hthread] at hcount

theorem Inv.finish (hk : k < w.packed) (hcreated : (w.creation k).created)
    (hended : (w.creation k).ended = none) (routine : Routine) : Inv (finish w k routine) := by
  unfold SystemThread.finish
  split
  · refine ⟨⟨?_, hw.references, hw.none_dropped⟩, hw.nodup, hw.unobtained⟩
    intro i hi
    by_cases he : i = k
    · subst he
      obtain ⟨hcreator, hthread, -⟩ := hw.tuples i hi
      simp only [World.setCreation, update_self, Option.isSome_some, if_true]
      simp only [hended, Option.isSome_none, Bool.false_eq_true, if_false] at hthread
      exact ⟨hcreator, by rw [hthread], fun _ => hcreated⟩
    · simp only [World.setCreation, update_of_ne he]
      exact hw.tuples i hi
  · exact hw.terminate

theorem Inv.pack (c : Creation) (hc : c.byCreator = (if c.created then 0 else 1) ∧ c.byThread = 0 ∧ c.ended = none) :
    Inv (w.addCreation c) where
  tuples := by
    intro k hk
    simp only [World.addCreation] at hk ⊢
    by_cases he : k = w.packed
    · subst he
      simp [hc.1, hc.2.1, hc.2.2]
    · simp only [update_of_ne he]
      exact hw.tuples k (by omega)
  references := hw.references
  none_dropped := hw.none_dropped
  nodup := hw.nodup
  unobtained := fun k hk => hw.unobtained k (Nat.le_of_succ_le hk)

theorem Inv.obtain (hnew : h ∉ w.ids) (hk : k < w.packed) (hfirst : w.obtained k = 0) : Inv { w with
      obtained := update w.obtained k (w.obtained k + 1)
      table := w.table.emplace h (some k) } where
  tuples := hw.tuples
  references := by
    intro i
    obtain ⟨hbalance, hle⟩ := hw.references i
    rw [holders_emplace hnew]
    by_cases hi : k = i
    · subst hi
      simp only [update_self, ind_self]
      omega
    · simp only [update_of_ne (Ne.symm hi), ind_of_ne hi]
      omega
  none_dropped := hw.none_dropped
  nodup := List.nodup_cons.mpr ⟨hnew, hw.nodup⟩
  unobtained := by
    intro i hi
    have hne : i ≠ k := by simp only at hi; omega
    simp only [update_of_ne hne]
    exact hw.unobtained i hi

theorem Inv.emplaceNone (hnew : h ∉ w.ids) : Inv { w with table := w.table.emplace h none } := by
  refine hw.withTable (List.nodup_cons.mpr ⟨hnew, hw.nodup⟩) fun k => ?_
  rw [holders_emplace hnew, ind_none, Nat.add_zero]

theorem Inv.construct (hnew : h ∉ w.ids) (c : ThreadClass) (answer : Answer) : Inv (construct w h c answer) := by
  cases answer with
  | packFailed => exact hw
  | createFailed =>
    rw [construct_createFailed]
    exact hw.pack ⟨c, false, none, 1, 0⟩ (by simp)
  | notReferenced =>
    rw [construct_notReferenced]
    have hpacked := hw.pack ⟨c, true, none, 0, 0⟩ (by simp)
    exact hpacked.emplaceNone hnew
  | referenced =>
    rw [construct_referenced]
    have hpacked := hw.pack ⟨c, true, none, 0, 0⟩ (by simp)
    exact hpacked.obtain hnew (Nat.lt_succ_self _) (hw.unobtained _ le_rfl)

end

theorem Inv.apply (hw : Inv w) (hkept : Kept w op) (happly : SystemThread.apply w op = some w') : Inv w' := by
  cases op with
  | constructDefault h =>
    obtain ⟨hnew, rfl⟩ := guarded happly
    exact hw.emplaceNone hnew
  | construct h c answer =>
    obtain ⟨⟨hnew, -⟩, rfl⟩ := guarded happly
    exact hw.construct hnew c answer
  | moveConstruct h other =>
    obtain ⟨⟨hnew, hother⟩, rfl⟩ := guarded happly
    exact hw.moveConstruct hnew hother
  | moveAssign this other =>
    obtain ⟨⟨hthis, hother⟩, rfl⟩ := guarded happly
    exact hw.moveAssign hthis hother hkept
  | swap this other =>
    obtain ⟨⟨hthis, hother⟩, rfl⟩ := guarded happly
    exact hw.swap hthis hother
  | join this =>
    obtain ⟨⟨hthis, -⟩, rfl⟩ := guarded happly
    unfold join
    split
    · exact hw.destroy hthis
    · exact hw
  | detach this =>
    obtain ⟨hthis, rfl⟩ := guarded happly
    unfold detach
    split
    · exact hw.destroy hthis
    · exact hw
  | destruct h =>
    obtain ⟨hmem, rfl⟩ := guarded happly
    exact hw.destruct hmem
  | finish k routine =>
    obtain ⟨⟨hk, hcreated, hended⟩, rfl⟩ := guarded happly
    exact hw.finish hk hcreated hended routine

theorem givenUp_of_kept (hkept : Kept w op) (happly : SystemThread.apply w op = some w')
    (hrunning : w'.terminated = false) : givenUp w op = none := by
  cases op with
  | moveAssign this other =>
    rcases hkept with he | hthread
    · simp [givenUp, he]
    · simp [givenUp, hthread]
  | destruct h =>
    obtain ⟨-, rfl⟩ := guarded happly
    rw [destruct] at hrunning
    split at hrunning
    · simp at hrunning
    · rename_i hjoinable
      simpa [joinable, givenUp] using hjoinable
  | constructDefault | construct | moveConstruct | swap | join | detach | finish => rfl

/-- Every operation that drops no thread keeps the invariant. -/
theorem Inv.step (hw : Inv w) (hkept : Kept w op) (hstep : SystemThread.step w op = some w') : Inv w' := by
  simp only [SystemThread.step, Option.ite_none_left_eq_some, Option.map_eq_some_iff] at hstep
  obtain ⟨-, w₁, happly, rfl⟩ := hstep
  have hinv := hw.apply hkept happly
  split_ifs with hrunning
  · exact hinv
  · rw [givenUp_of_kept hkept happly (by simpa using hrunning)]
    exact hinv

/-- If a joinable object is never the target of a move assignment, the tuples are destroyed once by
the right side, the references are balanced, and no thread is dropped silently. -/
theorem sound_of_kept {ops : List Operation} {w : World} (hrun : Run step Kept World.empty ops w) : Sound w := by
  have hw : Inv w := hrun.invariant (fun _ _ _ hs hok hstep => hs.step hok hstep) empty_inv
  exact hw.toSound

/-- Two threads, one without a reference, a failed creation, a move, a join and the destructions. -/
def startAndJoin : List Operation :=
  [.construct 0 .systemThread .referenced, .construct 1 .guardedSystemThread .notReferenced,
    .construct 2 .systemThread .createFailed, .constructDefault 2, .moveAssign 2 0, .finish 1 (.ok ()),
    .finish 0 (.ok ()), .join 2, .destruct 2, .destruct 1, .destruct 0]

theorem sound_of_startAndJoin : ∃ w, Run step Kept World.empty startAndJoin w ∧ w.ids = [] ∧ w.terminated = false ∧
      w.packed = 3 ∧ w.obtained 0 = 1 ∧ w.dereferenced 0 = 1 ∧ Sound w := by
  have hsome : (exec step Kept World.empty startAndJoin).map
      (fun w => (w.ids, w.terminated, w.packed, w.obtained 0, w.dereferenced 0)) = some ([], false, 3, 1, 1) := by
    decide +kernel
  obtain ⟨w, hrun, hproj⟩ := run_of_exec_map hsome
  simp only [Prod.mk.injEq] at hproj
  exact ⟨w, hrun, hproj.1, hproj.2.1, hproj.2.2.1, hproj.2.2.2.1, hproj.2.2.2.2, sound_of_kept hrun⟩

/-- Move assignment to a joinable object: the running thread loses its only reference, and nothing
terminates. -/
theorem moveAssign_drops : ∃ w, Run step (fun _ _ => True) World.empty
        [.construct 0 .systemThread .referenced, .construct 1 .systemThread .referenced, .moveAssign 0 1] w ∧
      (w.creation 0).ended = none ∧ w.table.holders 0 = 0 ∧ w.terminated = false ∧ w.dropped = [0] := by
  have hsome : (exec step (fun _ _ => True) World.empty
      [.construct 0 .systemThread .referenced, .construct 1 .systemThread .referenced, .moveAssign 0 1]).map
      (fun w => ((w.creation 0).ended, w.table.holders 0, w.terminated, w.dropped)) = some (none, 0, false, [0]) := by
    decide +kernel
  obtain ⟨w, hrun, hproj⟩ := run_of_exec_map hsome
  simp only [Prod.mk.injEq] at hproj
  exact ⟨w, hrun, hproj⟩

end Ktl.SystemThread
