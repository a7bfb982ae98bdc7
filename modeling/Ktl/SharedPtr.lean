import Ktl.Counting
import Ktl.RefCounter
import Ktl.Runs

/-!
`shared_ptr` and `weak_ptr` handles of one thread. The managed objects contain no handles, so
destroying one changes only its control block.
-/
namespace Ktl.SharedPtr

open RefCounter Runs Counting Function List

inductive Kind where
  | shared | weak
  deriving DecidableEq

/-- `shared_ptr` or `weak_ptr`. -/
structure Handle where
  kind : Kind
  valuePtr : Option Nat
  refCounter : Option Nat
  deriving DecidableEq

@[simp] def Handle.null (kind : Kind) : Handle := ⟨kind, none, none⟩

@[simp] def Handle.refers (x : Handle) (kind : Kind) (c : Nat) : Bool :=
  decide (x.kind = kind ∧ x.refCounter = some c)

structure World where
  counters : Nat → ControlBlock
  /-- control blocks `0, …, created - 1` were made -/
  created : Nat
  /-- the live handles -/
  ids : List Nat
  handle : Nat → Handle

def World.refs (w : World) (kind : Kind) (c : Nat) : Nat :=
  w.ids.countP (fun h => (w.handle h).refers kind c)

@[simp] def World.setCounter (w : World) (c : Nat) (f : ControlBlock → ControlBlock) : World :=
  { w with counters := update w.counters c (f (w.counters c)) }

@[simp] def World.setHandle (w : World) (h : Nat) (x : Handle) : World :=
  { w with handle := update w.handle h x }

@[simp] def World.setPointers (w : World) (h : Nat) (valuePtr refCounter : Option Nat) : World :=
  w.setHandle h ⟨(w.handle h).kind, valuePtr, refCounter⟩

def incref : Kind → ControlBlock → ControlBlock
  | .shared => acquire
  | .weak => follow

def decref : Kind → ControlBlock → ControlBlock
  | .shared => release
  | .weak => unfollow

def increfIfNotNull (w : World) (this : Nat) : World :=
  match (w.handle this).refCounter with
  | some c => w.setCounter c (incref (w.handle this).kind)
  | none => w

@[simp] def decrefIfNotNull (w : World) (this : Nat) : World :=
  match (w.handle this).refCounter with
  | some c => w.setCounter c (decref (w.handle this).kind)
  | none => w

def copyConstructFrom (w : World) (this other : Nat) : World :=
  let w := decrefIfNotNull w this
  let w := w.setPointers this (w.handle other).valuePtr (w.handle other).refCounter
  increfIfNotNull w this

def moveConstructFrom (w : World) (this other : Nat) : World :=
  let w := decrefIfNotNull w this
  let source := w.handle other
  let w := w.setPointers other none none
  w.setPointers this source.valuePtr source.refCounter

def reset (w : World) (this : Nat) : World :=
  (decrefIfNotNull w this).setPointers this none none

def swap (w : World) (lhs rhs : Nat) : World :=
  let l := w.handle lhs
  let r := w.handle rhs
  (w.setPointers lhs r.valuePtr r.refCounter).setPointers rhs l.valuePtr l.refCounter

def useCount (w : World) (this : Nat) : Nat :=
  match (w.handle this).refCounter with
  | some c => (w.counters c).strong
  | none => 0

def expired (w : World) (this : Nat) : Bool := useCount w this == 0

def construct (w : World) (h : Nat) (x : Handle) : World :=
  { w with ids := h :: w.ids, handle := update w.handle h x }

/-- `~shared_ptr`, `~weak_ptr` -/
def destroy (w : World) (h : Nat) : World :=
  { reset w h with ids := w.ids.erase h }

/-- `make_ref_counter` -/
def newCounter (w : World) : World :=
  { w with counters := update w.counters w.created initial, created := w.created + 1 }

def makeRefCounter (w : World) (ptr : Option Nat) : World × Option Nat :=
  match ptr with
  | some _ => (newCounter w, some w.created)
  | none => (w, none)

/-- `shared_ptr(ptr)`, with or without a deleter, and `shared_ptr(unique_ptr&&)`. -/
def sharedFromPointer (w : World) (h : Nat) (ptr : Option Nat) : World :=
  let (w, refCounter) := makeRefCounter w ptr
  construct w h ⟨.shared, ptr, refCounter⟩

/-- `shared_ptr(ptr, alloc)` always makes a control block, as do `make_shared`
and `allocate_shared`. -/
def sharedWithCounter (w : World) (h : Nat) (ptr : Option Nat) : World :=
  construct (newCounter w) h ⟨.shared, ptr, some w.created⟩

/-- `weak_ptr::lock`: a temporary takes the reference unless the pointer has expired. -/
def lock (w : World) (h tmp this : Nat) : World :=
  let w := construct w tmp (.null .shared)
  let w := if expired w this then w else copyConstructFrom w tmp this
  let w := moveConstructFrom (construct w h (.null .shared)) h tmp
  destroy w tmp

/-- `operator=` from a `unique_ptr`. -/
def assignUnique (w : World) (this tmp : Nat) (ptr : Option Nat) : World :=
  let w := sharedFromPointer w tmp ptr
  destroy (moveConstructFrom w this tmp) tmp

/-- `reset(ptr)` -/
def resetTo (w : World) (this tmp : Nat) (ptr : Option Nat) : World :=
  let w := sharedFromPointer w tmp ptr
  destroy (swap w tmp this) tmp

inductive Operation where
  | makeNull (h : Nat) (kind : Kind)
  | fromPointer (h : Nat) (ptr : Option Nat)
  | withCounter (h : Nat) (ptr : Option Nat)
  | copyConstruct (h : Nat) (kind : Kind) (other : Nat)
  | moveConstruct (h other : Nat)
  | fromWeak (h other : Nat)
  | lock (h tmp other : Nat)
  | copyAssign (this other : Nat)
  | moveAssign (this other : Nat)
  | assignUnique (this tmp : Nat) (ptr : Option Nat)
  | reset (this : Nat)
  | resetTo (this tmp : Nat) (ptr : Option Nat)
  | swap (lhs rhs : Nat)
  | destroy (this : Nat)
  deriving DecidableEq

/-- One operation; `none` if the program could not contain it. -/
def step (w : World) : Operation → Option World
  | .makeNull h kind => if h ∉ w.ids then some (construct w h (.null kind)) else none
  | .fromPointer h ptr => if h ∉ w.ids then some (sharedFromPointer w h ptr) else none
  | .withCounter h ptr => if h ∉ w.ids then some (sharedWithCounter w h ptr) else none
  | .copyConstruct h kind other =>
    if h ∉ w.ids ∧ other ∈ w.ids ∧ (kind = .shared → (w.handle other).kind = .shared) then
      some (copyConstructFrom (construct w h (.null kind)) h other)
    else none
  | .moveConstruct h other =>
    if h ∉ w.ids ∧ other ∈ w.ids then
      some (moveConstructFrom (construct w h (.null (w.handle other).kind)) h other)
    else none
  | .fromWeak h other =>
    if h ∉ w.ids ∧ other ∈ w.ids ∧ (w.handle other).kind = .weak then
      -- an expired pointer throws `bad_weak_ptr` and nothing is constructed
      if expired w other then some w
      else some (copyConstructFrom (construct w h (.null .shared)) h other)
    else none
  | .lock h tmp other =>
    if h ∉ w.ids ∧ tmp ∉ w.ids ∧ h ≠ tmp ∧ other ∈ w.ids ∧ (w.handle other).kind = .weak then
      some (lock w h tmp other)
    else none
  | .copyAssign this other =>
    if this ∈ w.ids ∧ other ∈ w.ids ∧ (w.handle this).kind = (w.handle other).kind then
      some (if other ≠ this then copyConstructFrom w this other else w)
    else none
  | .moveAssign this other =>
    if this ∈ w.ids ∧ other ∈ w.ids ∧ (w.handle this).kind = (w.handle other).kind then
      some (if other ≠ this then moveConstructFrom w this other else w)
    else none
  | .assignUnique this tmp ptr =>
    if this ∈ w.ids ∧ tmp ∉ w.ids ∧ (w.handle this).kind = .shared then
      some (assignUnique w this tmp ptr)
    else none
  | .reset this => if this ∈ w.ids then some (reset w this) else none
  | .resetTo this tmp ptr =>
    if this ∈ w.ids ∧ tmp ∉ w.ids ∧ (w.handle this).kind = .shared then
      some (resetTo w this tmp ptr)
    else none
  | .swap lhs rhs =>
    if lhs ∈ w.ids ∧ rhs ∈ w.ids ∧ (w.handle lhs).kind = (w.handle rhs).kind then
      some (swap w lhs rhs)
    else none
  | .destroy this => if this ∈ w.ids then some (destroy w this) else none

def World.empty : World := ⟨fun _ => initial, 0, [], fun _ => .null .shared⟩

def FewHandles (w : World) (op : Operation) : Prop :=
  ∀ w', step w op = some w' → ∀ c, w'.refs .shared c + w'.refs .weak c < 2 ^ 32

def World.Few (w : World) : Prop := ∀ c, w.refs .shared c + w.refs .weak c < 2 ^ 32

/-- Distinct live handles refer to blocks that exist, and every block is as
its handles require. -/
structure Inv (w : World) : Prop where
  nodup : w.ids.Nodup
  valid : ∀ h ∈ w.ids, ∀ c, (w.handle h).refCounter = some c → c < w.created
  counts : ∀ c < w.created, Counts (w.counters c) (w.refs .shared c) (w.refs .weak c)

theorem decref_counts (h : Counts rc (n + if kind = .shared then 1 else 0) (m + if kind = .weak then 1 else 0)) :
    Counts (decref kind rc) n m := by
  cases kind with
  | shared => exact Counts.release (by simpa using h)
  | weak => exact Counts.unfollow (by simpa using h)

theorem incref_counts (h : Counts rc n m) (hstrong : kind = .shared → 0 < n)
    (hany : 0 < n + m) (hb : n + m + 1 < 2 ^ 32) :
    Counts (incref kind rc) (n + if kind = .shared then 1 else 0) (m + if kind = .weak then 1 else 0) := by
  cases kind with
  | shared => exact h.acquire (hstrong rfl) (by omega)
  | weak =>
    have hweak : weakRefs n m ≤ n + m := by
      unfold weakRefs
      split <;> omega
    exact h.follow (by omega) (by omega)

variable {w : World}

@[simp] theorem newCounter_refs : (newCounter w).refs = w.refs := rfl
@[simp] theorem newCounter_handle : (newCounter w).handle = w.handle := rfl
@[simp] theorem setHandle_handle : (w.setHandle h x).handle = update w.handle h x := rfl
theorem setHandle_setCounter_refs (f : ControlBlock → ControlBlock) :
    ((w.setCounter c f).setHandle h x).refs = (w.setHandle h x).refs := rfl

theorem refs_setHandle (hn : w.ids.Nodup) (hh : h ∈ w.ids) (k : Kind) (c : Nat) :
    (w.setHandle h x).refs k c + (if (w.handle h).refers k c then 1 else 0) =
      w.refs k c + (if x.refers k c then 1 else 0) :=
  countP_update_of_mem hn hh w.handle x (fun y => y.refers k c)

theorem refs_construct (hh : h ∉ w.ids) (k : Kind) (c : Nat) :
    (construct w h x).refs k c = w.refs k c + (if x.refers k c then 1 else 0) := by
  have hrest := countP_update_of_notMem hh w.handle x (fun y => y.refers k c)
  simp only [World.refs, construct, countP_cons, update_self, hrest]

theorem refs_pos (hh : h ∈ w.ids) (hr : (w.handle h).refers k c = true) : 0 < w.refs k c :=
  countP_pos_of_mem hh hr

theorem Inv.rearrange (hw : Inv w) (hids : w'.ids.Nodup) (hcreated : w'.created = w.created)
    (hcounters : w'.counters = w.counters) (hrefs : ∀ k c, w'.refs k c = w.refs k c) : Inv w' := by
  constructor
  · exact hids
  · intro h hh c hc
    have hpos : 0 < w'.refs (w'.handle h).kind c := refs_pos hh (by simp [hc])
    rw [hrefs] at hpos
    obtain ⟨h', hh', hr⟩ := countP_pos_iff.mp hpos
    simp only [Handle.refers, decide_eq_true_eq] at hr
    rw [hcreated]
    exact hw.valid h' hh' c hr.2
  · intro c hc
    rw [hcounters, hrefs, hrefs]
    exact hw.counts c (by omega)

theorem Inv.setHandle (hw : Inv w) (hh : h ∈ w.ids) (f : ControlBlock → ControlBlock)
    (hvalid : ∀ c, x.refCounter = some c → c < w.created)
    (hcounts : ∀ c < w.created, Counts (update w.counters d (f (w.counters d)) c) ((w.setHandle h x).refs .shared c)
      ((w.setHandle h x).refs .weak c)) :
    Inv ((w.setCounter d f).setHandle h x) := by
  constructor
  · exact hw.nodup
  · intro h' hh' c hc
    by_cases he : h' = h
    · subst he
      exact hvalid c (by simpa using hc)
    · exact hw.valid h' hh' c (by simpa [he] using hc)
  · exact hcounts

theorem refs_setHandle_null (hn : w.ids.Nodup) (hh : h ∈ w.ids)
    (hnull : (w.handle h).refCounter = none) (k : Kind) (c : Nat) :
    (w.setHandle h x).refs k c = w.refs k c + (if x.refers k c then 1 else 0) := by
  simpa [hnull] using refs_setHandle (x := x) hn hh k c

theorem reset_of_none (hrc : (w.handle h).refCounter = none) :
    reset w h = w.setHandle h ⟨(w.handle h).kind, none, none⟩ := by
  simp [SharedPtr.reset, hrc]

theorem reset_of_some (hrc : (w.handle h).refCounter = some c) :
    reset w h = (w.setCounter c (decref (w.handle h).kind)).setHandle h ⟨(w.handle h).kind, none, none⟩ := by
  simp [SharedPtr.reset, hrc]

theorem Inv.reset (hw : Inv w) (hh : h ∈ w.ids) : Inv (reset w h) := by
  have hrefs : ∀ k c, (w.setHandle h ⟨(w.handle h).kind, none, none⟩).refs k c +
      (if (w.handle h).refers k c then 1 else 0) = w.refs k c := by
    intro k c
    simpa using refs_setHandle (x := ⟨(w.handle h).kind, none, none⟩) hw.nodup hh k c
  cases hrc : (w.handle h).refCounter with
  | none =>
    rw [reset_of_none hrc]
    have hkept : ∀ k c, (w.setHandle h ⟨(w.handle h).kind, none, none⟩).refs k c = w.refs k c := by
      intro k c
      simpa [hrc] using hrefs k c
    exact hw.rearrange hw.nodup rfl rfl hkept
  | some c₀ =>
    rw [reset_of_some hrc]
    apply hw.setHandle hh _ (by simp)
    intro c hc
    have hold := hw.counts c hc
    rw [← hrefs .shared c, ← hrefs .weak c] at hold
    by_cases he : c = c₀
    · subst he
      rw [update_self]
      apply decref_counts
      simpa [hrc] using hold
    · rw [update_of_ne he]
      simpa [hrc, Ne.symm he] using hold

@[simp] theorem reset_ids (w : World) (h : Nat) : (reset w h).ids = w.ids := by
  unfold reset decrefIfNotNull
  split <;> rfl

@[simp] theorem reset_handle (w : World) (h : Nat) :
    (reset w h).handle = update w.handle h (.null (w.handle h).kind) := by
  unfold reset decrefIfNotNull
  split <;> rfl

def attach (w : World) (this : Nat) (source : Handle) : World :=
  increfIfNotNull (w.setPointers this source.valuePtr source.refCounter) this

@[simp] def transfer (w : World) (this other : Nat) : World :=
  let source := w.handle other
  (w.setPointers other none none).setPointers this source.valuePtr source.refCounter

theorem copyConstructFrom_eq (w : World) (this other : Nat) :
    copyConstructFrom w this other = attach (reset w this) this (w.handle other) := by
  cases hrc : (w.handle this).refCounter <;>
    simp [copyConstructFrom, attach, SharedPtr.reset, hrc]

theorem moveConstructFrom_eq (hne : other ≠ this) :
    moveConstructFrom w this other = transfer (reset w this) this other := by
  cases hrc : (w.handle this).refCounter <;>
    simp [moveConstructFrom, SharedPtr.reset, hrc, hne, hne.symm, update_comm hne]

@[simp] theorem attach_ids (w : World) (this : Nat) (source : Handle) : (attach w this source).ids = w.ids := by
  unfold attach increfIfNotNull
  split <;> rfl

@[simp] theorem attach_handle (w : World) (this : Nat) (source : Handle) :
    (attach w this source).handle = update w.handle this
      ⟨(w.handle this).kind, source.valuePtr, source.refCounter⟩ := by
  unfold attach increfIfNotNull
  split <;> rfl

theorem refs_transfer (hn : w.ids.Nodup) (hthis : this ∈ w.ids) (hother : other ∈ w.ids) (hne : other ≠ this)
    (hkind : (w.handle this).kind = (w.handle other).kind) (hnull : (w.handle this).refCounter = none)
    (k : Kind) (c : Nat) : (transfer w this other).refs k c = w.refs k c := by
  have heq : transfer w this other =
      (w.setHandle other ⟨(w.handle other).kind, none, none⟩).setHandle this (w.handle other) := by
    simp [hne.symm, hkind]
  have hleft := refs_setHandle (x := ⟨(w.handle other).kind, none, none⟩) hn hother k c
  have hright := refs_setHandle_null (w := w.setHandle other ⟨(w.handle other).kind, none, none⟩)
    (x := w.handle other) (by exact hn) (by exact hthis) (by simp [hne.symm, hnull]) k c
  rw [heq, hright]
  simpa using hleft

theorem refs_reset_null (hn : w.ids.Nodup) (hh : h ∈ w.ids)
    (hnull : (w.handle h).refCounter = none) (k : Kind) (c : Nat) : (reset w h).refs k c = w.refs k c := by
  rw [reset_of_none hnull, refs_setHandle_null hn hh hnull]
  simp

theorem refs_constructNull (hh : h ∉ w.ids) (kind k : Kind) (c : Nat) :
    (construct w h (.null kind)).refs k c = w.refs k c := by
  simp [refs_construct hh]

theorem refs_destroy (hh : h ∈ w.ids) (k : Kind) (c : Nat) : (destroy w h).refs k c = (reset w h).refs k c := by
  have herase := countP_erase_of_mem hh fun h' => ((reset w h).handle h').refers k c
  simpa [World.refs, destroy] using herase

section
variable (hw : Inv w)
include hw

theorem Inv.attach (hh : h ∈ w.ids) (hnull : (w.handle h).refCounter = none)
    (hsrc : ∀ c, source.refCounter = some c → c < w.created ∧ 0 < w.refs .shared c + w.refs .weak c ∧
      ((w.handle h).kind = .shared → 0 < w.refs .shared c))
    (hb : (attach w h source).Few) : Inv (attach w h source) := by
  have hrefs := refs_setHandle_null (x := ⟨(w.handle h).kind, source.valuePtr, source.refCounter⟩) hw.nodup hh hnull
  cases hrc : source.refCounter with
  | none =>
    have heq : SharedPtr.attach w h source = w.setHandle h ⟨(w.handle h).kind, source.valuePtr, none⟩ := by
      simp [SharedPtr.attach, increfIfNotNull, hrc]
    have hkept : ∀ k c, (w.setHandle h ⟨(w.handle h).kind, source.valuePtr, none⟩).refs k c = w.refs k c := by
      intro k c
      simpa [hrc] using hrefs k c
    rw [heq]
    exact hw.rearrange hw.nodup rfl rfl hkept
  | some c₀ =>
    have heq : SharedPtr.attach w h source = (w.setCounter c₀ (incref (w.handle h).kind)).setHandle h
        ⟨(w.handle h).kind, source.valuePtr, some c₀⟩ := by
      simp [SharedPtr.attach, increfIfNotNull, hrc]
    obtain ⟨hlt, hany, hstrong⟩ := hsrc c₀ hrc
    rw [hrc] at hrefs
    rw [heq] at hb ⊢
    apply hw.setHandle hh _ (by simpa using hlt)
    intro c hc
    have hold := hw.counts c hc
    by_cases he : c = c₀
    · subst he
      have hind : ∀ k, (Handle.refers ⟨(w.handle h).kind, source.valuePtr, some c⟩ k c) =
          decide ((w.handle h).kind = k) := by
        simp
      have hbound := hb c
      rw [setHandle_setCounter_refs, hrefs, hrefs, hind, hind] at hbound
      rw [update_self, hrefs, hrefs, hind, hind]
      simp only [decide_eq_true_eq] at hbound ⊢
      apply incref_counts hold hstrong hany
      cases hk : (w.handle h).kind <;> simp [hk] at hbound <;> omega
    · rw [update_of_ne he, hrefs, hrefs]
      simpa [Ne.symm he] using hold

theorem Inv.swap (lhs rhs : Nat) (hl : lhs ∈ w.ids) (hr : rhs ∈ w.ids)
    (hkind : (w.handle lhs).kind = (w.handle rhs).kind) : Inv (swap w lhs rhs) := by
  have hkept : ∀ k c, (SharedPtr.swap w lhs rhs).refs k c = w.refs k c := by
    intro k c
    by_cases he : lhs = rhs
    · subst he
      simp [SharedPtr.swap]
    · have heq : SharedPtr.swap w lhs rhs = (w.setHandle lhs (w.handle rhs)).setHandle rhs (w.handle lhs) := by
        have hpl : (⟨(w.handle lhs).kind, (w.handle rhs).valuePtr, (w.handle rhs).refCounter⟩ : Handle) =
            w.handle rhs := by rw [hkind]
        have hpr : (⟨(w.handle rhs).kind, (w.handle lhs).valuePtr, (w.handle lhs).refCounter⟩ : Handle) =
            w.handle lhs := by rw [← hkind]
        simp [SharedPtr.swap, World.setPointers, update_of_ne (Ne.symm he), hpl, hpr]
      have hleft := refs_setHandle (x := w.handle rhs) hw.nodup hl k c
      have hright := refs_setHandle (w := w.setHandle lhs (w.handle rhs)) (x := w.handle lhs)
        (by exact hw.nodup) (by exact hr) k c
      rw [setHandle_handle, update_of_ne (Ne.symm he)] at hright
      rw [heq]
      omega
  exact hw.rearrange hw.nodup rfl rfl hkept

theorem Inv.constructNull (hh : h ∉ w.ids) (kind : Kind) : Inv (construct w h (.null kind)) := by
  exact hw.rearrange (nodup_cons.mpr ⟨hh, hw.nodup⟩) rfl rfl (refs_constructNull hh kind)

theorem Inv.constructFirst (hh : h ∉ w.ids) (ptr : Option Nat) :
    Inv (construct (newCounter w) h ⟨.shared, ptr, some w.created⟩) := by
  have hrefs := fun k c => refs_construct (w := newCounter w) (x := ⟨.shared, ptr, some w.created⟩) (by exact hh) k c
  have hnone : ∀ k, w.refs k w.created = 0 := by
    intro k
    by_contra hpos
    obtain ⟨h', hh', hr⟩ := countP_pos_iff.mp (Nat.pos_of_ne_zero hpos)
    simp only [Handle.refers, decide_eq_true_eq] at hr
    exact Nat.lt_irrefl _ (hw.valid h' hh' _ hr.2)
  constructor
  · exact nodup_cons.mpr ⟨hh, hw.nodup⟩
  · intro h' hh' c hc
    by_cases he : h' = h
    · subst he
      simp only [construct, update_self, Option.some.injEq] at hc
      subst hc
      exact Nat.lt_succ_self _
    · have hold := hw.valid h' (mem_of_ne_of_mem he hh') c (by simpa [construct, he] using hc)
      exact Nat.lt_succ_of_lt hold
  · intro c hc
    rw [hrefs, hrefs, newCounter_refs]
    by_cases he : c = w.created
    · subst he
      simpa [hnone, construct, newCounter] using initial_counts
    · have hlt : c < w.created := Nat.lt_of_le_of_ne (Nat.le_of_lt_succ hc) he
      simpa [Ne.symm he, construct, newCounter, he] using hw.counts c hlt

theorem Inv.sharedFromPointer (hh : h ∉ w.ids) (ptr : Option Nat) : Inv (sharedFromPointer w h ptr) := by
  cases ptr with
  | none => exact hw.constructNull hh .shared
  | some p => exact hw.constructFirst hh (some p)

theorem Inv.destroy (hh : h ∈ w.ids) : Inv (destroy w h) := by
  exact (hw.reset hh).rearrange (hw.nodup.erase h) rfl rfl (refs_destroy hh)

theorem Inv.moveConstructFrom (this other : Nat) (hthis : this ∈ w.ids) (hother : other ∈ w.ids)
    (hne : other ≠ this) (hkind : (w.handle this).kind = (w.handle other).kind) :
    Inv (moveConstructFrom w this other) := by
  have hreset := hw.reset hthis
  have hkept := refs_transfer (w := SharedPtr.reset w this) hreset.nodup (by simpa using hthis)
    (by simpa using hother) hne (by simpa [hne] using hkind) (by simp)
  rw [moveConstructFrom_eq hne]
  exact hreset.rearrange hreset.nodup rfl rfl hkept

theorem Inv.copyConstructFrom (hthis : this ∈ w.ids) (hother : other ∈ w.ids) (hne : other ≠ this)
    (hlive : (w.handle this).kind = .shared → (w.handle other).kind = .weak →
      ∀ c, (w.handle other).refCounter = some c → 0 < (SharedPtr.reset w this).refs .shared c)
    (hb : (copyConstructFrom w this other).Few) : Inv (copyConstructFrom w this other) := by
  rw [copyConstructFrom_eq] at hb ⊢
  have hreset := hw.reset hthis
  have hsame : (SharedPtr.reset w this).handle other = w.handle other := by simp [hne]
  have hmem : other ∈ (SharedPtr.reset w this).ids := by simpa using hother
  apply hreset.attach (by simpa using hthis) (by simp) _ hb
  intro c hc
  have hpos : 0 < (SharedPtr.reset w this).refs (w.handle other).kind c :=
    refs_pos hmem (by rw [hsame]; simp [hc])
  constructor
  · exact hreset.valid other hmem c (by rw [hsame, hc])
  · cases hk : (w.handle other).kind with
    | shared =>
      rw [hk] at hpos
      constructor
      · omega
      · intro _
        exact hpos
    | weak =>
      rw [hk] at hpos
      constructor
      · omega
      · intro hs
        exact hlive (by simpa using hs) hk c hc

theorem Inv.shared_pos_of_not_expired (hh : h ∈ w.ids) (he : expired w h = false)
    (hc : (w.handle h).refCounter = some c) : 0 < w.refs .shared c := by
  have hcount := (hw.counts c (hw.valid h hh c hc)).strong
  simp only [expired, useCount, hc, beq_eq_false_iff_ne, ne_eq] at he
  omega

theorem Inv.constructCopy (kind : Kind) (hh : h ∉ w.ids) (hother : other ∈ w.ids)
    (hlive : kind = .shared → (w.handle other).kind = .shared ∨ expired w other = false)
    (hb : (SharedPtr.copyConstructFrom (construct w h (.null kind)) h other).Few) :
    Inv (SharedPtr.copyConstructFrom (construct w h (.null kind)) h other) := by
  have hne : other ≠ h := fun he => hh (he ▸ hother)
  have hnew := hw.constructNull hh kind
  have hmem : h ∈ (construct w h (.null kind)).ids := mem_cons_self
  apply hnew.copyConstructFrom hmem (mem_cons_of_mem _ hother) hne _ hb
  intro hs hk c hc
  simp only [construct, update_self, update_of_ne hne] at hs hk hc
  rw [refs_reset_null hnew.nodup hmem (by simp [construct]), refs_constructNull hh]
  obtain hshared | hexp := hlive hs
  · rw [hk] at hshared
    cases hshared
  · exact hw.shared_pos_of_not_expired hother hexp hc

end

def handOver (w : World) (h tmp : Nat) : World :=
  destroy (moveConstructFrom (construct w h (.null .shared)) h tmp) tmp

section

variable (hh : h ∉ w.ids) (htmp : tmp ∈ w.ids) (hkind : (w.handle tmp).kind = .shared)
include hh htmp hkind

theorem Inv.handOver (hw : Inv w) : Inv (handOver w h tmp) := by
  have hne : tmp ≠ h := fun he => hh (he ▸ htmp)
  have hmoved := (hw.constructNull hh .shared).moveConstructFrom h tmp
    mem_cons_self (mem_cons_of_mem _ htmp) hne (by simp [construct, hne, hkind])
  exact hmoved.destroy (by simp [moveConstructFrom_eq hne, construct, htmp])

theorem refs_handOver (hn : w.ids.Nodup) (k : Kind) (c : Nat) : (handOver w h tmp).refs k c = w.refs k c := by
  have hne : tmp ≠ h := fun he => hh (he ▸ htmp)
  have hnew : (construct w h (.null .shared)).ids.Nodup := nodup_cons.mpr ⟨hh, hn⟩
  have hmem : tmp ∈ (construct w h (.null .shared)).ids := mem_cons_of_mem _ htmp
  have hself : h ∈ (construct w h (.null .shared)).ids := mem_cons_self
  rw [handOver, moveConstructFrom_eq hne, refs_destroy (by simpa using hmem), refs_reset_null (by simpa using hnew)
      (by simpa using hmem)
      (by simp [construct, hne]),
    refs_transfer (by simpa using hnew) (by simpa using hself) (by simpa using hmem) hne
      (by simp [construct, hne, hkind]) (by simp),
    refs_reset_null hnew hself (by simp [construct]), refs_constructNull hh]

end

theorem Inv.lock (hw : Inv w) (hh : h ∉ w.ids) (htmp : tmp ∉ w.ids) (hne : h ≠ tmp) (hother : other ∈ w.ids)
    (hb : (lock w h tmp other).Few) : Inv (lock w h tmp other) := by
  have hot : other ≠ tmp := fun he => htmp (he ▸ hother)
  have hexp : expired (construct w tmp (.null .shared)) other = expired w other := by
    simp [expired, useCount, construct, hot]
  obtain ⟨u, hu⟩ : ∃ u, u = if expired w other then construct w tmp (.null .shared)
    else SharedPtr.copyConstructFrom (construct w tmp (.null .shared)) tmp other := ⟨_, rfl⟩
  have hlock : SharedPtr.lock w h tmp other = SharedPtr.handOver u h tmp := by
    rw [SharedPtr.lock, hexp, ← hu]
    rfl
  have hids : u.ids = tmp :: w.ids := by
    rw [hu]
    split
    · rfl
    · simp [copyConstructFrom_eq, construct]
  have hkind : (u.handle tmp).kind = .shared := by
    rw [hu]
    split <;> simp [copyConstructFrom_eq, construct]
  have hnot : h ∉ u.ids := by simp [hids, hne, hh]
  have hmem : tmp ∈ u.ids := by simp [hids]
  have hfew : u.Few := by
    intro c
    rw [← refs_handOver hnot hmem hkind (hids ▸ nodup_cons.mpr ⟨htmp, hw.nodup⟩),
      ← refs_handOver hnot hmem hkind (hids ▸ nodup_cons.mpr ⟨htmp, hw.nodup⟩), ← hlock]
    exact hb c
  rw [hlock]
  refine Inv.handOver hnot hmem hkind ?_
  by_cases he : expired w other = true
  · rw [hu, if_pos he]
    exact hw.constructNull htmp .shared
  · rw [if_neg he] at hu
    rw [hu] at hfew ⊢
    exact hw.constructCopy .shared htmp hother (fun _ => .inr (Bool.not_eq_true _ ▸ he)) hfew

theorem sharedFromPointer_spec (w : World) (h : Nat) (ptr : Option Nat) :
    (sharedFromPointer w h ptr).ids = h :: w.ids ∧ ((sharedFromPointer w h ptr).handle h).kind = .shared ∧
      ∀ i ≠ h, (sharedFromPointer w h ptr).handle i = w.handle i := by
  cases ptr <;> simp +contextual [sharedFromPointer, makeRefCounter, construct, newCounter]

section

variable  (hw : Inv w) (hthis : this ∈ w.ids) (htmp : tmp ∉ w.ids)
  (hkind : (w.handle this).kind = .shared) (ptr : Option Nat)
include hw hthis htmp hkind

theorem Inv.assignUnique : Inv (assignUnique w this tmp ptr) := by
  have hne : this ≠ tmp := fun he => htmp (he ▸ hthis)
  obtain ⟨hids, htmpKind, hsame⟩ := sharedFromPointer_spec w tmp ptr
  have hmoved := (hw.sharedFromPointer htmp ptr).moveConstructFrom this tmp (by simp [hids, hthis])
    (by simp [hids]) hne.symm (by rw [hsame this hne, hkind, htmpKind])
  exact hmoved.destroy (by simp [moveConstructFrom_eq hne.symm, hids])

theorem Inv.resetTo : Inv (resetTo w this tmp ptr) := by
  have hne : this ≠ tmp := fun he => htmp (he ▸ hthis)
  obtain ⟨hids, htmpKind, hsame⟩ := sharedFromPointer_spec w tmp ptr
  have hswapped := (hw.sharedFromPointer htmp ptr).swap tmp this (by simp [hids]) (by simp [hids, hthis])
    (by rw [hsame this hne, hkind, htmpKind])
  exact hswapped.destroy (by simp [SharedPtr.swap, hids])

end

/-- Every operation keeps the counters right. -/
theorem Inv.step (hw : Inv w) (hok : FewHandles w op) (hstep : step w op = some w') : Inv w' := by
  have hb := hok w' hstep
  cases op with
  | makeNull h kind =>
    obtain ⟨hh, rfl⟩ := guarded hstep
    exact hw.constructNull hh kind
  | fromPointer h ptr =>
    obtain ⟨hh, rfl⟩ := guarded hstep
    exact hw.sharedFromPointer hh ptr
  | withCounter h ptr =>
    obtain ⟨hh, rfl⟩ := guarded hstep
    exact hw.constructFirst hh ptr
  | copyConstruct h kind other =>
    obtain ⟨⟨hh, hother, hkind⟩, rfl⟩ := guarded hstep
    exact hw.constructCopy _ hh hother (fun hs => .inl (hkind hs)) hb
  | moveConstruct h other =>
    obtain ⟨⟨hh, hother⟩, rfl⟩ := guarded hstep
    have hne : other ≠ h := fun he => hh (he ▸ hother)
    exact (hw.constructNull hh _).moveConstructFrom _ _ mem_cons_self
      (mem_cons_of_mem _ hother) hne (by simp [construct, hne])
  | fromWeak h other =>
    obtain ⟨⟨hh, hother, hkind⟩, hstep⟩ := Option.ite_none_right_eq_some.mp hstep
    split_ifs at hstep with he
    · cases hstep
      exact hw
    · cases hstep
      exact hw.constructCopy _ hh hother (fun _ => .inr (by simpa using he)) hb
  | lock h tmp other =>
    obtain ⟨⟨hh, htmp, hne, hother, _⟩, rfl⟩ := guarded hstep
    exact hw.lock hh htmp hne hother hb
  | copyAssign this other =>
    obtain ⟨⟨hthis, hother, hkind⟩, rfl⟩ := guarded hstep
    split_ifs with hne
    · rw [if_pos hne] at hb
      apply hw.copyConstructFrom hthis hother hne _ hb
      intro hs hk
      rw [hkind, hk] at hs
      cases hs
    · exact hw
  | moveAssign this other =>
    obtain ⟨⟨hthis, hother, hkind⟩, rfl⟩ := guarded hstep
    split_ifs with hne
    · exact hw.moveConstructFrom _ _ hthis hother hne hkind
    · exact hw
  | assignUnique this tmp ptr =>
    obtain ⟨⟨hthis, htmp, hkind⟩, rfl⟩ := guarded hstep
    exact hw.assignUnique hthis htmp hkind ptr
  | reset this =>
    obtain ⟨hh, rfl⟩ := guarded hstep
    exact hw.reset hh
  | resetTo this tmp ptr =>
    obtain ⟨⟨hthis, htmp, hkind⟩, rfl⟩ := guarded hstep
    exact hw.resetTo hthis htmp hkind ptr
  | swap lhs rhs =>
    obtain ⟨⟨hl, hr, hkind⟩, rfl⟩ := guarded hstep
    exact hw.swap _ _ hl hr hkind
  | destroy this =>
    obtain ⟨hh, rfl⟩ := guarded hstep
    exact hw.destroy hh

theorem empty_inv : Inv World.empty := by
  constructor
  · exact nodup_nil
  · intro h hh
    exact absurd hh not_mem_nil
  · intro c hc
    exact absurd hc (Nat.not_lt_zero c)

/-- The counters of each control block count its handles; the object was destroyed once if it has no
`shared_ptr` left and not otherwise, and the block freed once if it has no handle left and not
otherwise. -/
theorem counters_of_run {ops : List Operation} (hrun : Run step FewHandles World.empty ops w) (hc : c < w.created) :
    (w.counters c).strong = w.refs .shared c ∧
    (w.counters c).weak = w.refs .weak c + (if 0 < (w.counters c).strong then 1 else 0) ∧
    (w.counters c).destroyed = (if w.refs .shared c = 0 then 1 else 0) ∧
    (w.counters c).deleted = (if w.refs .shared c = 0 ∧ w.refs .weak c = 0 then 1 else 0) := by
  have hinv : Inv w := hrun.invariant (fun _ _ _ hw hok hst => hw.step hok hst) empty_inv
  have hcounts := hinv.counts c hc
  constructor
  · exact hcounts.strong
  constructor
  · rw [hcounts.strong]
    exact hcounts.weak
  constructor
  · exact hcounts.destroyed
  · exact hcounts.deleted

theorem refs_le_length (w : World) (c : Nat) : w.refs .shared c + w.refs .weak c ≤ w.ids.length := by
  have hweak : w.refs .weak c ≤ w.ids.countP (fun h => !(w.handle h).refers .shared c) := by
    apply countP_mono_left
    intro h _ hr
    simp only [Handle.refers, decide_eq_true_eq] at hr
    simp [hr.1]
  have hlen := length_eq_countP_add_countP (fun h => (w.handle h).refers .shared c) (l := w.ids)
  simp only [Bool.not_eq_true, Bool.decide_eq_false] at hlen
  rw [hlen]
  exact Nat.add_le_add_left hweak _

def FewLive (w : World) (op : Operation) : Prop :=
  ((step w op).all fun w' => decide (w'.ids.length < 2 ^ 32)) = true
deriving Decidable

theorem FewLive.fewHandles (h : FewLive w op) : FewHandles w op := by
  intro w' hstep c
  have hlen : w'.ids.length < 2 ^ 32 := by simpa [FewLive, hstep] using h
  exact Nat.lt_of_le_of_lt (refs_le_length w' c) hlen

def lockTwice : List Operation :=
  [.withCounter 0 (some 7), .copyConstruct 1 .weak 0, .lock 2 3 1, .reset 0, .swap 0 2, .destroy 0,
    .lock 4 3 1, .destroy 1, .destroy 2, .destroy 4]

theorem counters_of_run_lockTwice : ∃ w, Run step FewHandles World.empty lockTwice w ∧ (w.created = 1 ∧ w.ids = []) ∧
    (w.counters 0).destroyed = (if w.refs .shared 0 = 0 then 1 else 0) ∧
    (w.counters 0).deleted = (if w.refs .shared 0 = 0 ∧ w.refs .weak 0 = 0 then 1 else 0) := by
  have hsome : (exec step FewLive World.empty lockTwice).map (fun w => (w.created, w.ids)) = some (1, []) := by
    decide +kernel
  obtain ⟨w, hfew, hends⟩ := run_of_exec_map hsome
  have hrun := hfew.mono fun _ _ => FewLive.fewHandles
  obtain ⟨hcreated, hids⟩ := Prod.mk.inj hends
  obtain ⟨_, _, hgone, hdeleted⟩ := counters_of_run hrun (c := 0) (by omega)
  exact ⟨w, hrun, ⟨hcreated, hids⟩, hgone, hdeleted⟩

end Ktl.SharedPtr
