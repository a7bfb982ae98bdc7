import Ktl.HandleTable
import Ktl.Runs

/-!
`intrusive_ptr` handles of one type, whose calls of `intrusive_ptr_add_ref` and
`intrusive_ptr_release` are counted. A release may destroy the object, and then the
destructors of the handles stored in it run as well. They are kept in a list of destructors
that are due, and further operations may come before the next of them runs.
-/
namespace Ktl.IntrusivePtr

open Runs HandleTable List

/-- `adopt` is a construction without `add_ref`, `detach` a call that returned the object. -/
inductive Call where
  | addRef (object : Nat)
  | adopt (object : Nat)
  | release (handle object : Nat)
  | detach (object : Nat)
  deriving DecidableEq

def Call.releases (object : Nat) : Call → Bool
  | .release _ o => o == object
  | _ => false

structure World where
  /-- the handles whose destructor has not run, with their `m_ptr` -/
  table : HandleTable Nat (Option Nat)
  /-- the object a handle is stored in, if any -/
  inside : Nat → Option Nat
  /-- the handles whose destructor is due, the next one first -/
  due : List Nat
  calls : List Call

def World.empty : World := ⟨⟨[], fun _ => none⟩, fun _ => none, [], []⟩

abbrev World.ids (w : World) : List Nat := w.table.ids

abbrev World.ptr (w : World) (h : Nat) : Option Nat := w.table.value h

def World.holders (w : World) (object : Nat) : Nat :=
  w.table.holders object

def World.releases (w : World) (object : Nat) : Nat :=
  w.calls.countP (Call.releases object)

@[simp] def World.record (w : World) (call : Call) : World := { w with calls := call :: w.calls }

def World.emplace (w : World) (h : Nat) (place ptr : Option Nat) : World :=
  { w with
    table := w.table.emplace h ptr
    inside := Function.update w.inside h place }

def addRefIfNotNull (w : World) : Option Nat → World
  | some object => w.record (.addRef object)
  | none => w

/-- `intrusive_ptr(ptr, add_ref)` -/
def construct (w : World) (h : Nat) (place ptr : Option Nat) (addRef : Bool) : World :=
  let w := w.emplace h place ptr
  if addRef then addRefIfNotNull w ptr else w

def copyConstruct (w : World) (h : Nat) (place : Option Nat) (other : Nat) : World :=
  addRefIfNotNull (w.emplace h place (w.ptr other)) (w.ptr other)

def detach (w : World) (this : Nat) : World × Option Nat :=
  ({ w with table := w.table.assign this none }, w.ptr this)

def moveConstruct (w : World) (h : Nat) (place : Option Nat) (other : Nat) : World :=
  let (w, ptr) := detach w other
  w.emplace h place ptr

def swap (w : World) (this other : Nat) : World :=
  { w with table := w.table.swap this other }

/-- `~intrusive_ptr`, which is due from now on. -/
def destruct (w : World) (h : Nat) : World := { w with due := h :: w.due }

/-- `reset(ptr, add_ref)` -/
def resetWith (w : World) (this : Nat) (ptr : Option Nat) (addRef : Bool) (tmp : Nat) : World :=
  destruct (swap (construct w tmp none ptr addRef) tmp this) tmp

def reset (w : World) (this : Nat) (ptr : Option Nat) (tmp : Nat) : World :=
  resetWith w this ptr true tmp

def copyAssign (w : World) (this other tmp : Nat) : World :=
  if this ≠ other then destruct (swap (copyConstruct w tmp none other) tmp this) tmp else w

def moveAssign (w : World) (this other tmp : Nat) : World :=
  if this ≠ other then
    let (w, ptr) := detach w other
    resetWith w this ptr false tmp
  else w

/-- The handles stored in an object, except those whose destructor is due
already. -/
def members (w : World) (object : Nat) : List Nat :=
  w.ids.filter fun h => decide (w.inside h = some object) && !w.due.contains h

/-- The destructor of `h`, the first that is due; `dies` says whether the release destroys the
object. -/
def runDestructor (w : World) (h : Nat) (rest : List Nat) (dies : Bool) : World :=
  let w' := { w with table := w.table.erase h, due := rest }
  match w.ptr h with
  | none => w'
  | some object =>
    let w' := w'.record (.release h object)
    if dies then { w' with due := members w' object ++ rest } else w'

inductive Operation where
  | construct (h : Nat) (place ptr : Option Nat) (addRef : Bool)
  | copyConstruct (h : Nat) (place : Option Nat) (other : Nat)
  | moveConstruct (h : Nat) (place : Option Nat) (other : Nat)
  | copyAssign (this other tmp : Nat)
  | moveAssign (this other tmp : Nat)
  | reset (this : Nat) (ptr : Option Nat) (tmp : Nat)
  | resetWith (this : Nat) (ptr : Option Nat) (addRef : Bool) (tmp : Nat)
  | detach (this : Nat)
  | swap (this other : Nat)
  | destruct (h : Nat)
  | runDestructor (dies : Bool)
  deriving DecidableEq

def recordAdoption (w : World) (ptr : Option Nat) (addRef : Bool) : World :=
  match ptr, addRef with
  | some object, false => w.record (.adopt object)
  | _, _ => w

def recordDetach (w : World) : Option Nat → World
  | some object => w.record (.detach object)
  | none => w

/-- A new handle needs an unused number, an operation handles that are alive. -/
def step (w : World) : Operation → Option World
  | .construct h place ptr addRef =>
    if h ∉ w.ids then some (recordAdoption (construct w h place ptr addRef) ptr addRef) else none
  | .copyConstruct h place other =>
    if h ∉ w.ids ∧ other ∈ w.ids then some (copyConstruct w h place other) else none
  | .moveConstruct h place other =>
    if h ∉ w.ids ∧ other ∈ w.ids then some (moveConstruct w h place other) else none
  | .copyAssign this other tmp =>
    if tmp ∉ w.ids ∧ this ∈ w.ids ∧ other ∈ w.ids then some (copyAssign w this other tmp) else none
  | .moveAssign this other tmp =>
    if tmp ∉ w.ids ∧ this ∈ w.ids ∧ other ∈ w.ids then some (moveAssign w this other tmp) else none
  | .reset this ptr tmp =>
    if tmp ∉ w.ids ∧ this ∈ w.ids then some (reset w this ptr tmp) else none
  | .resetWith this ptr addRef tmp =>
    if tmp ∉ w.ids ∧ this ∈ w.ids then
      some (recordAdoption (resetWith w this ptr addRef tmp) ptr addRef) else none
  | .detach this =>
    if this ∈ w.ids then
      let (w', ptr) := detach w this
      some (recordDetach w' ptr) else none
  | .swap this other =>
    if this ∈ w.ids ∧ other ∈ w.ids then some (swap w this other) else none
  | .destruct h => if h ∈ w.ids ∧ h ∉ w.due then some (destruct w h) else none
  | .runDestructor dies =>
    match w.due with
    | [] => none
    | h :: rest => some (runDestructor w h rest dies)

/-! ## What the operations do to the number of handles -/

@[simp] theorem holders_record (w : World) (call : Call) (object : Nat) :
    (w.record call).holders object = w.holders object := rfl

variable {w : World}

theorem holders_emplace (hnew : h ∉ w.ids) (place ptr : Option Nat) (object : Nat) :
    (w.emplace h place ptr).holders object = w.holders object + ind ptr object :=
  HandleTable.holders_emplace hnew ptr object

/-! ## What the operations do to the calls -/

def World.gained (w : World) (object : Nat) : Nat :=
  w.calls.count (.addRef object) + w.calls.count (.adopt object)

def World.lost (w : World) (object : Nat) : Nat :=
  w.releases object + w.calls.count (.detach object)

def Call.gains (object : Nat) : Call → Nat
  | .addRef o | .adopt o => ind (some o) object
  | .release .. | .detach _ => 0

def Call.loses (object : Nat) : Call → Nat
  | .release _ o | .detach o => ind (some o) object
  | .addRef _ | .adopt _ => 0

theorem gained_record (w : World) (call : Call) (object : Nat) :
    (w.record call).gained object = w.gained object + call.gains object := by
  cases call <;>
    simp [World.gained, Call.gains, count_cons, ind_some, Nat.add_assoc, Nat.add_comm, Nat.add_left_comm]

theorem lost_record (w : World) (call : Call) (object : Nat) :
    (w.record call).lost object = w.lost object + call.loses object := by
  cases call <;>
    simp [World.lost, World.releases, Call.loses, Call.releases, count_cons, countP_cons, ind_some, Nat.add_assoc,
      Nat.add_comm, Nat.add_left_comm]

/-! ## The invariant -/

/-- The references of every object are accounted for, one of them possibly in flight. -/
structure Inv (w : World) (inFlight : Option Nat) : Prop where
  nodup : w.ids.Nodup
  due_nodup : w.due.Nodup
  due_live : ∀ h ∈ w.due, h ∈ w.ids
  balanced : ∀ object, w.gained object = w.lost object + w.holders object + ind inFlight object

theorem empty_inv : Inv World.empty none where
  nodup := nodup_nil
  due_nodup := nodup_nil
  due_live := by simp [World.empty]
  balanced := fun _ => rfl

variable {ptr : Option Nat}

theorem Inv.emplace (hw : Inv w ptr) (hnew : h ∉ w.ids) (place : Option Nat) : Inv (w.emplace h place ptr) none where
  nodup := nodup_cons.mpr ⟨hnew, hw.nodup⟩
  due_nodup := hw.due_nodup
  due_live := fun i hi => mem_cons_of_mem h (hw.due_live i hi)
  balanced := by
    intro object
    have hbefore := hw.balanced object
    have hcount := holders_emplace hnew place ptr object
    change w.gained object = w.lost object + _ + _
    simp only [ind_none]
    omega

theorem Inv.recordGain (hw : Inv w none) (call : Call)
    (hcall : ∀ o, call.gains o = ind (some object) o ∧ call.loses o = 0) :
    Inv (w.record call) (some object) where
  nodup := hw.nodup
  due_nodup := hw.due_nodup
  due_live := hw.due_live
  balanced := by
    intro o
    have hbefore := hw.balanced o
    rw [gained_record, lost_record, holders_record, (hcall o).1, (hcall o).2]
    rw [ind_none] at hbefore
    omega

theorem Inv.emplaceAddRef (hw : Inv w none) (hnew : h ∉ w.ids) (place ptr : Option Nat) :
    Inv (addRefIfNotNull (w.emplace h place ptr) ptr) none := by
  cases ptr with
  | none => exact hw.emplace hnew place
  | some object =>
    -- the reference may as well be made before the handle
    exact (hw.recordGain (.addRef object) fun _ => ⟨rfl, rfl⟩).emplace hnew place

theorem Inv.construct (hw : Inv w (if addRef then none else ptr)) (hnew : h ∉ w.ids) (place : Option Nat) :
    Inv (construct w h place ptr addRef) none := by
  cases addRef with
  | true => exact hw.emplaceAddRef hnew place ptr
  | false => exact hw.emplace hnew place

theorem Inv.swap (hw : Inv w inFlight) (hthis : this ∈ w.ids) (hother : other ∈ w.ids) :
    Inv (swap w this other) inFlight where
  nodup := hw.nodup
  due_nodup := hw.due_nodup
  due_live := hw.due_live
  balanced := by
    intro object
    change w.gained object = w.lost object + (w.table.swap this other).holders object + _
    rw [holders_swap hw.nodup hthis hother]
    exact hw.balanced object

theorem Inv.destruct (hw : Inv w inFlight) (hmem : h ∈ w.ids) (hdue : h ∉ w.due) : Inv (destruct w h) inFlight where
  nodup := hw.nodup
  due_nodup := nodup_cons.mpr ⟨hdue, hw.due_nodup⟩
  due_live := by
    intro i hi
    rcases mem_cons.mp hi with rfl | hi
    · exact hmem
    · exact hw.due_live i hi
  balanced := hw.balanced

theorem Inv.not_due (hw : Inv w inFlight) (hnew : h ∉ w.ids) : h ∉ w.due :=
  fun hdue => hnew (hw.due_live h hdue)

theorem ids_construct (w : World) (h : Nat) (place ptr : Option Nat) (addRef : Bool) :
    (construct w h place ptr addRef).ids = h :: w.ids := by
  cases addRef <;> cases ptr <;> rfl

theorem due_construct (w : World) (h : Nat) (place ptr : Option Nat) (addRef : Bool) :
    (construct w h place ptr addRef).due = w.due := by
  cases addRef <;> cases ptr <;> rfl

theorem Inv.resetWith (ptr : Option Nat) (addRef : Bool) (hw : Inv w (if addRef then none else ptr))
    (hthis : this ∈ w.ids) (htmp : tmp ∉ w.ids) : Inv (resetWith w this ptr addRef tmp) none := by
  have hmade := hw.construct htmp none
  have hids := ids_construct w tmp none ptr addRef
  have hown := hids ▸ mem_cons_self
  apply (hmade.swap hown (hids ▸ mem_cons_of_mem tmp hthis)).destruct hown
  exact due_construct w tmp none ptr addRef ▸ hw.not_due htmp

theorem Inv.recordDetach (hw : Inv w ptr) : Inv (recordDetach w ptr) none := by
  cases ptr with
  | none => exact hw
  | some object =>
    refine ⟨hw.nodup, hw.due_nodup, hw.due_live, ?_⟩
    intro o
    have hbefore := hw.balanced o
    rw [IntrusivePtr.recordDetach, gained_record, lost_record, holders_record]
    simp only [Call.gains, Call.loses, ind_none] at hbefore ⊢
    omega

section

variable (hw : Inv w none)

include hw

theorem Inv.detach (hthis : this ∈ w.ids) : Inv (IntrusivePtr.detach w this).1 (w.ptr this) where
  nodup := hw.nodup
  due_nodup := hw.due_nodup
  due_live := hw.due_live
  balanced := by
    intro object
    have hbefore := hw.balanced object
    have hcount := holders_assign hw.nodup hthis none object
    change w.gained object = w.lost object + w.table.holders object + _ at hbefore
    change w.gained object = w.lost object + (w.table.assign this none).holders object + ind (w.table.value this) object
    rw [ind_none] at hbefore hcount
    omega

theorem Inv.copyAssign (hthis : this ∈ w.ids) (htmp : tmp ∉ w.ids) : Inv (copyAssign w this other tmp) none := by
  unfold IntrusivePtr.copyAssign
  split
  · exact Inv.resetWith (w.ptr other) true hw hthis htmp
  · exact hw

theorem Inv.moveAssign (hthis : this ∈ w.ids) (hother : other ∈ w.ids) (htmp : tmp ∉ w.ids) :
    Inv (moveAssign w this other tmp) none := by
  unfold IntrusivePtr.moveAssign
  split
  · exact Inv.resetWith (w.ptr other) false (hw.detach hother) hthis htmp
  · exact hw

theorem Inv.recordAdoption (ptr : Option Nat) (addRef : Bool) :
    Inv (recordAdoption w ptr addRef) (if addRef then none else ptr) := by
  cases addRef with
  | true => cases ptr <;> exact hw
  | false =>
    cases ptr with
    | none => exact hw
    | some object => exact hw.recordGain _ fun _ => ⟨rfl, rfl⟩

theorem Inv.runDestructor (hdue : w.due = h :: rest) (dies : Bool) : Inv (runDestructor w h rest dies) none := by
  have hlive : h ∈ w.ids := hw.due_live h (by simp [hdue])
  have hnodup := hw.due_nodup
  rw [hdue, nodup_cons] at hnodup
  have hrest : ∀ i ∈ rest, i ∈ w.ids.erase h := by
    intro i hi
    have hne : i ≠ h := fun he => hnodup.1 (he ▸ hi)
    exact (mem_erase_of_ne hne).mpr (hw.due_live i (by simp [hdue, hi]))
  have hbalanced : ∀ object, w.gained object = w.lost object + ind (w.ptr h) object +
      ({ w with table := w.table.erase h, due := rest } : World).holders object := by
    intro object
    have hbefore := hw.balanced object
    have hcount := holders_erase hlive object
    change w.gained object = w.lost object + w.table.holders object + _ at hbefore
    change w.gained object = w.lost object + ind (w.table.value h) object + (w.table.erase h).holders object
    rw [ind_none] at hbefore
    omega
  cases hptr : w.ptr h with
  | none =>
    simp only [IntrusivePtr.runDestructor, hptr]
    refine ⟨hw.nodup.erase h, hnodup.2, hrest, ?_⟩
    intro object
    have hbefore := hbalanced object
    rw [hptr, ind_none, Nat.add_zero] at hbefore
    exact hbefore
  | some o =>
    have hreleased : Inv (({ w with table := w.table.erase h, due := rest } : World).record (.release h o)) none := by
      refine ⟨hw.nodup.erase h, hnodup.2, hrest, ?_⟩
      intro object
      have hbefore := hbalanced object
      rw [gained_record, lost_record, holders_record]
      change w.gained object + 0 = w.lost object + ind (some o) object + _ + 0
      rw [hptr] at hbefore
      omega
    simp only [IntrusivePtr.runDestructor, hptr]
    split
    · refine ⟨hreleased.nodup, ?_, ?_, hreleased.balanced⟩
      · apply nodup_append.mpr
        refine ⟨hreleased.nodup.filter _, hnodup.2, ?_⟩
        rintro i hmember j hj rfl
        simp [members, hj] at hmember
      · intro i hi
        rcases mem_append.mp hi with hmember | hi
        · exact mem_of_mem_filter hmember
        · exact hrest i hi
    · exact hreleased

end

theorem recordAdoption_resetWith (w : World) (this : Nat) (ptr : Option Nat) (addRef : Bool)
    (tmp : Nat) : recordAdoption (resetWith w this ptr addRef tmp) ptr addRef =
      resetWith (recordAdoption w ptr addRef) this ptr addRef tmp := by
  cases addRef <;> cases ptr <;> rfl

theorem recordAdoption_construct (w : World) (h : Nat) (place ptr : Option Nat) (addRef : Bool) :
    recordAdoption (construct w h place ptr addRef) ptr addRef =
      construct (recordAdoption w ptr addRef) h place ptr addRef := by
  cases addRef <;> cases ptr <;> rfl

theorem ids_recordAdoption (w : World) (ptr : Option Nat) (addRef : Bool) :
    (recordAdoption w ptr addRef).ids = w.ids := by
  cases addRef <;> cases ptr <;> rfl

/-! ## Who calls `intrusive_ptr_release` -/

/-- Each release was made by a handle that held the object and is gone now. -/
def ReleasesJustified (w w' : World) : Prop :=
  ∃ new, w'.calls = new ++ w.calls ∧ ∀ h object, Call.release h object ∈ new →
    h ∈ w.ids ∧ w.ptr h = some object ∧ h ∉ w'.ids

def Quiet (w w' : World) : Prop :=
  ∃ call : Option Call, w'.calls = call.toList ++ w.calls ∧ ∀ h object, call ≠ some (.release h object)

theorem Quiet.justified (h : Quiet w w') : ReleasesJustified w w' := by
  obtain ⟨call, hcalls, hne⟩ := h
  refine ⟨call.toList, hcalls, ?_⟩
  intro i object hmem
  exact absurd (Option.mem_toList.mp hmem) (hne i object)

theorem quiet_of_calls_eq (hcalls : w'.calls = w.calls) : Quiet w w' :=
  ⟨none, hcalls, by simp⟩

theorem calls_addRefIfNotNull (w : World) (ptr : Option Nat) :
    (addRefIfNotNull w ptr).calls = (ptr.map Call.addRef).toList ++ w.calls := by
  cases ptr <;> rfl

theorem quiet_of_addRef (hcalls : w'.calls = (ptr.map Call.addRef).toList ++ w.calls) : Quiet w w' :=
  ⟨ptr.map .addRef, hcalls, by cases ptr <;> simp⟩

theorem calls_construct (w : World) (h : Nat) (place ptr : Option Nat) (addRef : Bool) :
    (construct w h place ptr addRef).calls = (if addRef then ptr.map Call.addRef else none).toList ++ w.calls := by
  cases addRef <;> cases ptr <;> rfl

theorem quiet_recordAdoption (hcalls : w'.calls = (if addRef then ptr.map Call.addRef else none).toList ++ w.calls) :
    Quiet w (recordAdoption w' ptr addRef) := by
  cases addRef with
  | true =>
    have hsame : recordAdoption w' ptr true = w' := by cases ptr <;> rfl
    rw [hsame]
    exact quiet_of_addRef hcalls
  | false =>
    cases ptr with
    | none => exact quiet_of_calls_eq hcalls
    | some object =>
      exact ⟨some (.adopt object), by simpa [recordAdoption] using hcalls, by simp⟩

theorem justified_runDestructor (hw : Inv w none) (hdue : w.due = h :: rest) (dies : Bool) :
    ReleasesJustified w (runDestructor w h rest dies) := by
  have hlive : h ∈ w.ids := hw.due_live h (by simp [hdue])
  cases hptr : w.ptr h with
  | none =>
    simp only [runDestructor, hptr]
    exact ⟨[], rfl, by simp⟩
  | some o =>
    refine ⟨[.release h o], ?_, ?_⟩
    · simp only [runDestructor, hptr]
      split <;> rfl
    · intro i object hmem
      obtain ⟨rfl, rfl⟩ : i = h ∧ object = o := by simpa using hmem
      refine ⟨hlive, hptr, ?_⟩
      simp only [runDestructor, hptr]
      split <;> exact hw.nodup.not_mem_erase

/-! ## Runs -/

/-- Every operation keeps the references accounted for. -/
theorem Inv.step (hw : Inv w none) (hstep : IntrusivePtr.step w op = some w') :
    Inv w' none ∧ ReleasesJustified w w' := by
  cases op with
  | construct h place ptr addRef =>
    obtain ⟨hnew, rfl⟩ := guarded hstep
    refine ⟨?_, Quiet.justified (quiet_recordAdoption (calls_construct w h place ptr addRef))⟩
    rw [recordAdoption_construct]
    exact (hw.recordAdoption ptr addRef).construct (by rwa [ids_recordAdoption]) place
  | copyConstruct h place other =>
    obtain ⟨⟨hnew, -⟩, rfl⟩ := guarded hstep
    exact ⟨hw.emplaceAddRef hnew place (w.ptr other), Quiet.justified (quiet_of_addRef (calls_addRefIfNotNull _ _))⟩
  | moveConstruct h place other =>
    obtain ⟨⟨hnew, hother⟩, rfl⟩ := guarded hstep
    exact ⟨(hw.detach hother).emplace hnew place, Quiet.justified (quiet_of_calls_eq rfl)⟩
  | copyAssign this other tmp =>
    obtain ⟨⟨htmp, hthis, -⟩, rfl⟩ := guarded hstep
    refine ⟨hw.copyAssign hthis htmp, ?_⟩
    rw [IntrusivePtr.copyAssign]
    split
    · exact Quiet.justified (quiet_of_addRef (calls_addRefIfNotNull _ _))
    · exact Quiet.justified (quiet_of_calls_eq rfl)
  | moveAssign this other tmp =>
    obtain ⟨⟨htmp, hthis, hother⟩, rfl⟩ := guarded hstep
    refine ⟨hw.moveAssign hthis hother htmp, ?_⟩
    rw [IntrusivePtr.moveAssign]
    split <;> exact Quiet.justified (quiet_of_calls_eq rfl)
  | reset this ptr tmp =>
    obtain ⟨⟨htmp, hthis⟩, rfl⟩ := guarded hstep
    exact ⟨Inv.resetWith ptr true hw hthis htmp,
      Quiet.justified (quiet_of_addRef (calls_construct w tmp none ptr true))⟩
  | resetWith this ptr addRef tmp =>
    obtain ⟨⟨htmp, hthis⟩, rfl⟩ := guarded hstep
    refine ⟨?_, Quiet.justified (quiet_recordAdoption (calls_construct w tmp none ptr addRef))⟩
    rw [recordAdoption_resetWith]
    exact Inv.resetWith ptr addRef (hw.recordAdoption ptr addRef)
      (by rwa [ids_recordAdoption]) (by rwa [ids_recordAdoption])
  | detach this =>
    obtain ⟨hthis, rfl⟩ : this ∈ w.ids ∧
        IntrusivePtr.recordDetach (IntrusivePtr.detach w this).1 (w.ptr this) = w' := guarded hstep
    refine ⟨(hw.detach hthis).recordDetach, ?_⟩
    cases w.ptr this with
    | none => exact Quiet.justified (quiet_of_calls_eq rfl)
    | some object => exact Quiet.justified ⟨some (.detach object), rfl, by simp⟩
  | swap this other =>
    obtain ⟨⟨hthis, hother⟩, rfl⟩ := guarded hstep
    exact ⟨hw.swap hthis hother, Quiet.justified (quiet_of_calls_eq rfl)⟩
  | destruct h =>
    obtain ⟨⟨hmem, hdue⟩, rfl⟩ := guarded hstep
    exact ⟨hw.destruct hmem hdue, Quiet.justified (quiet_of_calls_eq rfl)⟩
  | runDestructor dies =>
    simp only [IntrusivePtr.step] at hstep
    cases hdue : w.due with
    | nil => simp [hdue] at hstep
    | cons h rest =>
      simp only [hdue, Option.some.injEq] at hstep
      rw [← hstep]
      exact ⟨hw.runDestructor hdue dies, justified_runDestructor hw hdue dies⟩

/-- In every state reached the calls made for an object balance with the handles to it, and the next
operation releases an object only through a live handle to it. -/
theorem references_balance {ops : List Operation} {w : World} (hrun : Run step (fun _ _ => True) World.empty ops w) :
    (∀ object, w.calls.count (.addRef object) + w.calls.count (.adopt object)
      = w.releases object + w.calls.count (.detach object) + w.holders object) ∧
    ∀ op w', step w op = some w' → ReleasesJustified w w' := by
  have hw : Inv w none :=
    hrun.invariant (I := fun w => Inv w none) (fun _ _ _ hs _ hstep => (hs.step hstep).1) empty_inv
  constructor
  · intro object
    have hbalanced := hw.balanced object
    simpa only [World.gained, World.lost, ind_none, Nat.add_zero] using hbalanced
  · intro op w' hstep
    exact (hw.step hstep).2

/-- Handle 0 owns object 10, in which handle 1 owns object 11. Handle 0 takes over handle 1, and the
release of object 10 destroys it with the handle inside. -/
def popFront : List Operation :=
  [.construct 0 none (some 10) true, .construct 1 (some 10) (some 11) false,
    .moveAssign 0 1 2, .runDestructor true, .runDestructor false]

theorem references_balance_popFront :
    ∃ w, Run step (fun _ _ => True) World.empty popFront w ∧ w.ids = [0] ∧ w.ptr 0 = some 11 ∧
      w.releases 10 = 1 ∧ w.releases 11 = 0 ∧
      w.calls.count (.addRef 10) + w.calls.count (.adopt 10)
        = w.releases 10 + w.calls.count (.detach 10) + w.holders 10 := by
  have hsome : (exec step (fun _ _ => True) World.empty popFront).map
      (fun w => (w.ids, w.ptr 0, w.releases 10, w.releases 11)) = some ([0], some 11, 1, 0) := by
    decide +kernel
  obtain ⟨w, hrun, hproj⟩ := run_of_exec_map hsome
  simp only [Prod.mk.injEq] at hproj
  exact ⟨w, hrun, hproj.1, hproj.2.1, hproj.2.2.1, hproj.2.2.2, (references_balance hrun).1 10⟩

end Ktl.IntrusivePtr
