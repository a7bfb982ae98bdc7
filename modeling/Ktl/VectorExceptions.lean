import Ktl.VectorInsertion

/-!
Exceptions of the elements while a vector grows. A guard gives the new buffer back, and a
helper destroys the copies.
-/
namespace Ktl.VectorExceptions

open ObjectMemory ObjectValues Ktl.Vector VectorCapacity VectorOwnership VectorAssignment VectorInsertion Function

variable {α : Type}

structure Throws where
  /-- the constructor of the new element -/
  construct : Bool
  /-- the copy of an old element, by its index -/
  copy : Nat → Bool

inductive Failure where
  | vector (err : Error)
  | element
  deriving DecidableEq

section

def abandon (m : Memory α) (p : Option Nat) (i : Nat) : Memory α :=
  m.access p i fun x => if x.isNone then some none else none

/-- `uninitialized_copy_n_unchecked` from step `i` on; whether an exception leaves it. -/
def uninitializedCopyN (throws : Nat → Bool) (src dst : Option Nat) : Nat → Nat → Memory α → Memory α × Bool
  | 0, _, m => (m, false)
  | n + 1, i, m =>
    -- the destructor of `uninitialized_backout_with_allocator`
    if throws i then ((abandon m dst i).destroyN dst 0 i, true)
    else uninitializedCopyN throws src dst n (i + 1) (m.take src i id fun m v => m.construct dst i v)

variable (e : Element α) (throws : Throws) (s : State α)

/-- `make_transfer_without_shift`; the objects are moved only if that does not throw. -/
def transferWithoutShift (m : Memory α) (p : Option Nat) : Memory α × Bool :=
  if e.movesOnTransfer then (s.transferWithoutShift e m p, false)
  else uninitializedCopyN throws.copy s.this.buffer p s.this.size 0 m

/-- `make_construct_at_helper` -/
def constructAt (pos : Nat) (src : Source α) (m : Memory α) (p : Option Nat) : Memory α × Bool :=
  if throws.construct then (abandon m p pos, true) else (s.constructAt pos src m p, false)

/-- `make_dummy_construct_helper` -/
def constructDummy (m : Memory α) (_ : Option Nat) : Memory α × Bool := (m, false)

def growUnchecked (adjustSize : Bool) (newCapacity adjustment : Nat)
    (construct : Memory α → Option Nat → Memory α × Bool) : Outcome Failure (State α) :=
  match s.memory.allocate newCapacity e.size with
  | (m, none) => .threw (.vector .badAlloc) (s.withMemory m)
  | (m, some p) =>
    -- an exception from here on makes `alc_guard` give the buffer back
    match construct m (some p) with
    | (m, true) => .threw .element (s.withMemory (m.deallocate (some p) newCapacity))
    | (m, false) =>
      match transferWithoutShift e throws s m (some p) with
      | (m, true) => .threw .element (s.withMemory (m.deallocate (some p) newCapacity))
      | (m, false) =>
        .returned ⟨(s.withMemory m).destroyAndDeallocate,
          ⟨some p, if adjustSize then (s.this.size + adjustment) % 2 ^ 64 else s.this.size, newCapacity⟩⟩

def grow (adjustSize : Bool) (newCapacity adjustment : Nat)
    (construct : Memory α → Option Nat → Memory α × Bool) : Outcome Failure (State α) :=
  if newCapacity ≤ maxSize then growUnchecked e throws s adjustSize newCapacity adjustment construct
  else .threw (.vector .lengthError) s

def emplaceBack (src : Source α) : Outcome Failure (State α) :=
  if s.this.size = s.this.capacity then
    grow e throws s true (calcGrowth s.this.capacity) 1 (constructAt throws s s.this.size src)
  else
    match constructAt throws s s.this.size src s.memory s.this.buffer with
    | (m, true) => .threw .element (s.withMemory m)
    | (m, false) => .returned ((s.withMemory m).setSize (s.this.size + 1))

def pushBack (src : Source α) : Outcome Failure (State α) := emplaceBack e throws s src

def reserve (newCapacity : Nat) : Outcome Failure (State α) :=
  if s.this.capacity < newCapacity then grow e throws s false newCapacity s.this.size constructDummy
  else .returned s

end

variable {e : Element α} {throws : Throws} {s : State α} {m : Memory α}

section

variable {throwing : Nat → Bool}

theorem uninitializedCopyN_calm (hcalm : ∀ k, throwing k = false) :
    uninitializedCopyN throwing p q n i m = (m.transferN id p i q i n, false) := by
  induction n generalizing m i with
  | zero => rfl
  | succ n ih =>
    rw [uninitializedCopyN, hcalm i]
    exact ih

theorem uninitializedCopyN_throws (hj : j < n) (hcalm : ∀ k < j, throwing (i + k) = false)
    (hthrows : throwing (i + j) = true) :
    uninitializedCopyN throwing p q n i m =
      ((abandon (m.transferN id p i q i j) q (i + j)).destroyN q 0 (i + j), true) := by
  induction j generalizing m i n with
  | zero =>
    obtain ⟨n, rfl⟩ : ∃ k, n = k + 1 := ⟨n - 1, by omega⟩
    rw [Nat.add_zero] at hthrows
    rw [uninitializedCopyN, if_pos hthrows]
    rfl
  | succ j ih =>
    obtain ⟨n, rfl⟩ : ∃ k, n = k + 1 := ⟨n - 1, by omega⟩
    have hindex : ∀ k, i + (k + 1) = i + 1 + k := fun k => by omega
    have hfirst : throwing i = false := hcalm 0 (Nat.succ_pos j)
    rw [hindex] at hthrows ⊢
    rw [uninitializedCopyN, hfirst]
    apply ih (by omega) _ hthrows
    intro k hk
    rw [← hindex]
    exact hcalm (k + 1) (by omega)

theorem exists_first (h : ∃ k < n, throwing k = true) : ∃ j < n, throwing j = true ∧ ∀ k < j, throwing k = false := by
  obtain ⟨hlt, hthrows⟩ := Nat.find_spec h
  refine ⟨Nat.find h, hlt, hthrows, fun k hk => ?_⟩
  have hnot := Nat.find_min h hk
  rw [Bool.eq_false_iff]
  exact fun hk' => hnot ⟨hk.trans hlt, hk'⟩

end

def lift : Result α → Outcome Failure (State α)
  | .returned s => .returned s
  | .threw err s => .threw (.vector err) s

theorem left_of_copies (hcopies : e.movesOnTransfer = false) : State.left e = id := by
  rw [State.left, hcopies]
  rfl

theorem transferWithoutShift_calm (hcalm : ∀ k, throws.copy k = false) (p : Option Nat) :
    transferWithoutShift e throws s m p = (s.transferWithoutShift e m p, false) := by
  rw [transferWithoutShift]
  cases hmoves : e.movesOnTransfer with
  | true => rfl
  | false =>
    rw [State.transferWithoutShift, left_of_copies hmoves]
    exact uninitializedCopyN_calm hcalm

theorem grow_calm (hcalm : ∀ k, throws.copy k = false) (hconstruct : ∀ m p, construct m p = (construct' m p, false)) :
    grow e throws s adjustSize newCapacity adjustment construct =
      lift (s.grow e adjustSize newCapacity adjustment construct' (s.transferWithoutShift e)) := by
  rw [grow, State.grow]
  split
  · simp only [growUnchecked, State.growUnchecked, Memory.allocate]
    cases s.memory.fails s.memory.next with
    | true => rfl
    | false => simp [hconstruct, transferWithoutShift_calm hcalm, lift]
  · rfl

/-- Where nothing throws, the calls are those of `Vector`. -/
theorem calls_of_calm (hconstruct : throws.construct = false) (hcalm : ∀ k, throws.copy k = false) (src : Source α)
    (newCapacity : Nat) :
    emplaceBack e throws s src = lift (s.emplaceBack e src) ∧ pushBack e throws s src = lift (s.emplaceBack e src) ∧
      reserve e throws s newCapacity = lift (s.reserve e newCapacity) := by
  have hcalmAt : ∀ m p, constructAt throws s s.this.size src m p = (s.constructAt s.this.size src m p, false) := by
    intro m p
    rw [constructAt, hconstruct]
    rfl
  have hback : emplaceBack e throws s src = lift (s.emplaceBack e src) := by
    rw [emplaceBack, State.emplaceBack]
    split
    · exact grow_calm hcalm hcalmAt
    · simp [hcalmAt, lift]
  refine ⟨hback, hback, ?_⟩
  rw [reserve, State.reserve]
  split
  · exact grow_calm hcalm fun _ _ => rfl
  · rfl

section

/-- The vector is what it was, and so is the memory: the new block is gone and its objects are
destroyed. -/
structure Untouched (s t : State α) : Prop where
  this : t.this = s.this
  block : t.memory.block = s.memory.block
  misuse : t.memory.misuse = s.memory.misuse
  leaked : t.memory.leaked = s.memory.leaked

theorem Untouched.refl (s : State α) : Untouched s s := ⟨rfl, rfl, rfl, rfl⟩
theorem not_untouched_of_misuse (h : s.memory.misuse < t.memory.misuse) : ¬ Untouched s t :=
  fun huntouched => h.ne' huntouched.misuse
theorem not_untouched_of_leak (h : s.memory.leaked < t.memory.leaked) : ¬ Untouched s t :=
  fun huntouched => h.ne' huntouched.leaked

theorem misuse_abandon_beyond (hd : m.block p = some d) (hi : d.slots ≤ i) : m.misuse < (abandon m (some p) i).misuse :=
  misuse_access_beyond hd hi

theorem untouched_unwound (hf : Fresh s.memory) : Untouched s (s.withMemory
      ((s.memory.allocated newCapacity e.size).deallocate (some s.memory.next) newCapacity)) := by
  have hnone := hf _ le_rfl
  have hlive : Memory.liveCount (⟨newCapacity, newCapacity * e.size % 2 ^ 64, newCapacity * e.size % 2 ^ 64 / e.size,
      fun _ => none⟩ : Block α) = 0 := by
    simp [Memory.liveCount]
  have hblock := block_allocated s.memory newCapacity e.size
  simp only [Memory.deallocate, hblock, hlive, if_true, Nat.add_zero]
  refine ⟨rfl, ?_, rfl, rfl⟩
  simp only [State.withMemory, Memory.allocated, update_idem]
  rw [← hnone, update_eq_self]

theorem abandon_eq (hd : m.block p = some d) (hi : i < d.slots) (hraw : d.cells i = none) :
    abandon m (some p) i = m := by
  have hcells : abandon m (some p) i = setCells m p d (update d.cells i (d.cells i)) := by
    simp only [abandon, Memory.access, hd, if_pos hi, hraw, Option.isNone_none, if_true]
    rfl
  rw [hcells, update_eq_self, setCells_self hd]

theorem unwound_eq (h : Owns e s.memory s.this) (hn : n < s.this.size)
    (hothers : ∀ q, q ≠ p → m.block q = s.memory.block q) (hp : s.memory.block p = none)
    (hd : m.block p = some d) (hroom : n < d.slots) (hraw : ∀ k ≤ n, d.cells k = none) :
    (abandon (m.transferN id s.this.buffer 0 (some p) 0 n) (some p) n).destroyN (some p) 0 n = m := by
  cases hb : s.this.buffer with
  | none =>
    obtain ⟨hsize, _⟩ := (owns_none hb).mp h
    omega
  | some q =>
    obtain ⟨hfit, b, hblock, _, hslots, hcells⟩ := (owns_some hb).mp h
    have hqp : q ≠ p := by
      rintro rfl
      exact h.buffer_ne hp hb
    rw [← hothers q hqp] at hblock
    have hlive : ∀ k < n, (b.cells k).isSome := fun k hk => (hcells k).mpr (by omega)
    have hcopied : m.transferN id (some q) 0 (some p) 0 n =
      setCells m p d (patch d.cells 0 n fun k => b.cells (0 + k)) :=
      transferN_id_eq hblock hd hqp (by omega) (by omega) (fun k hk => hlive k (hk.lt (by omega)))
        fun k hk => hraw k (hk.lt (by omega)).le
    have hstill : patch d.cells 0 n (fun k => b.cells (0 + k)) n = none := by
      rw [patch_outside _ (by omega)]
      exact hraw n (Nat.le_refl n)
    have habandoned := abandon_eq (setCells_block m p d (patch d.cells 0 n fun k => b.cells (0 + k))) hroom hstill
    rw [hcopied, habandoned, ← hcopied]
    exact destroyN_transferN_id hblock hd hqp (by omega) (by omega) hlive fun k hk => hraw k hk.le

theorem leaked_lt_deallocate (hd : m.block p = some d) (hi : i < d.slots) (hlive : (d.cells i).isSome) :
    m.leaked < (m.deallocate (some p) count).leaked := by
  have hcount : 0 < Memory.liveCount d := List.countP_pos_iff.mpr ⟨i, List.mem_range.mpr hi, hlive⟩
  simp only [Memory.deallocate, hd]
  omega

theorem leaked_lt_unwound (h : Owns e s.memory s.this) (hn : n < s.this.size)
    (hothers : ∀ q, q ≠ p → m.block q = s.memory.block q) (hp : s.memory.block p = none)
    (hd : m.block p = some d) (hroom : s.this.size < d.slots) (hraw : ∀ k, d.cells k = none) :
    m.leaked < (((abandon ((m.construct (some p) s.this.size x).transferN id s.this.buffer 0 (some p) 0 n)
      (some p) n).destroyN (some p) 0 n).deallocate (some p) c).leaked := by
  have hconstructed := construct_eq x hd hroom (hraw _)
  have hblock := setCells_block m p d (update d.cells s.this.size (some x))
  have hbelow : ∀ k ≤ n, update d.cells s.this.size (some x) k = none := by
    intro k hk
    rw [update_of_ne (by omega), hraw k]
  have hunwound := unwound_eq h hn (fun q hq => (setCells_block_ne m d _ hq).trans (hothers q hq)) hp hblock
    (hn.trans hroom) hbelow
  rw [hconstructed, hunwound]
  exact leaked_lt_deallocate hblock hroom (by simp)

inductive Call (α : Type) where
  | emplaceBack (src : Source α)
  | pushBack (src : Source α)
  | reserve (newCapacity : Nat)

def Call.run (e : Element α) (throws : Throws) (s : State α) : Call α → Outcome Failure (State α)
  | .emplaceBack src => VectorExceptions.emplaceBack e throws s src
  | .pushBack src => VectorExceptions.pushBack e throws s src
  | .reserve newCapacity => VectorExceptions.reserve e throws s newCapacity

/-- A new buffer is needed, and an argument that is an element is one of the vector. -/
def Call.Reallocates (s : State α) : Call α → Prop
  | .emplaceBack src | .pushBack src => s.this.size = s.this.capacity ∧ VectorOwnership.Valid src s.this.size
  | .reserve newCapacity => s.this.capacity < newCapacity

def AllocationFails (s : State α) (newCapacity : Nat) : Prop :=
  maxSize < newCapacity ∨ s.memory.fails s.memory.next = true

def CopyFails (e : Element α) (throws : Throws) (s : State α) : Prop :=
  e.movesOnTransfer = false ∧ ∃ k < s.this.size, throws.copy k = true

def Call.Fails (e : Element α) (throws : Throws) (s : State α) : Call α → Prop
  | .emplaceBack _ | .pushBack _ =>
    AllocationFails s (calcGrowth s.this.capacity) ∨ throws.construct = true ∨ CopyFails e throws s
  | .reserve newCapacity => AllocationFails s newCapacity ∨ CopyFails e throws s

/-- The objects for which a new buffer has room; its byte size may have wrapped. -/
def roomFor (e : Element α) (newCapacity : Nat) : Nat := newCapacity * e.size % 2 ^ 64 / e.size

def Call.Guarded (e : Element α) (throws : Throws) (s : State α) : Call α → Prop
  | .emplaceBack _ | .pushBack _ =>
    AllocationFails s (calcGrowth s.this.capacity) ∨
      throws.construct = true ∧ s.this.size < roomFor e (calcGrowth s.this.capacity)
  | .reserve newCapacity =>
    AllocationFails s newCapacity ∨ ∃ k < s.this.size, k < roomFor e newCapacity ∧ throws.copy k = true

/-- An exception leaves the call, and under which condition it leaves nothing else. -/
def Propagates (s : State α) (guarded : Prop) (r : Outcome Failure (State α)) : Prop :=
  ∃ failure t, r = .threw failure t ∧ (Untouched s t ↔ guarded)

section

variable {construct : Memory α → Option Nat → Memory α × Bool} {guarded : Prop}

theorem propagates_of_allocationFails (h : AllocationFails s newCapacity) (hguarded : guarded) :
    Propagates s guarded (grow e throws s adjustSize newCapacity adjustment construct) := by
  rw [grow]
  split_ifs with hmax
  · have hfail := h.resolve_left hmax.not_gt
    simp only [growUnchecked, Memory.allocate, hfail, if_true]
    exact ⟨_, _, rfl, iff_of_true ⟨rfl, rfl, rfl, rfl⟩ hguarded⟩
  · exact ⟨_, _, rfl, iff_of_true (Untouched.refl s) hguarded⟩

theorem grow_of_allocated (h : ¬ AllocationFails s newCapacity) :
    grow e throws s adjustSize newCapacity adjustment construct =
      match construct (s.memory.allocated newCapacity e.size) (some s.memory.next) with
      | (m, true) => .threw .element (s.withMemory (m.deallocate (some s.memory.next) newCapacity))
      | (m, false) =>
        match transferWithoutShift e throws s m (some s.memory.next) with
        | (m, true) => .threw .element (s.withMemory (m.deallocate (some s.memory.next) newCapacity))
        | (m, false) =>
          .returned ⟨(s.withMemory m).destroyAndDeallocate, ⟨some s.memory.next,
            if adjustSize then (s.this.size + adjustment) % 2 ^ 64 else s.this.size, newCapacity⟩⟩ := by
  obtain ⟨hmax, hserved⟩ := not_or.mp h
  rw [Bool.not_eq_true] at hserved
  rw [grow, if_pos (not_lt.mp hmax)]
  simp [growUnchecked, Memory.allocate, hserved]

theorem propagates_of_construct_throws (hf : Fresh s.memory) (h : ¬ AllocationFails s newCapacity)
    (hthrows : throws.construct = true) :
    Propagates s (s.this.size < roomFor e newCapacity)
      (grow e throws s adjustSize newCapacity adjustment (constructAt throws s s.this.size src)) := by
  have hblock := block_allocated s.memory newCapacity e.size
  rw [grow_of_allocated h]
  simp only [constructAt, hthrows, if_true]
  refine ⟨_, _, rfl, ?_⟩
  by_cases hroom : s.this.size < roomFor e newCapacity
  · rw [abandon_eq hblock hroom rfl]
    exact iff_of_true (untouched_unwound hf) hroom
  · have hbeyond := misuse_abandon_beyond hblock (not_lt.mp hroom)
    apply iff_of_false (not_untouched_of_misuse _) hroom
    exact hbeyond.trans_le misuse_le_deallocate

theorem grow_of_copy_throws (h : ¬ AllocationFails s newCapacity)
    (hconstruct : construct (s.memory.allocated newCapacity e.size) (some s.memory.next) = (m, false))
    (hcopies : e.movesOnTransfer = false) (hj : j < s.this.size) (hthrows : throws.copy j = true)
    (hcalm : ∀ k < j, throws.copy k = false) :
    grow e throws s adjustSize newCapacity adjustment construct =
      .threw .element (s.withMemory (((abandon (m.transferN id s.this.buffer 0 (some s.memory.next) 0 j)
        (some s.memory.next) j).destroyN (some s.memory.next) 0 j).deallocate (some s.memory.next) newCapacity)) := by
  have hcopied : transferWithoutShift e throws s m (some s.memory.next) =
      ((abandon (m.transferN id s.this.buffer 0 (some s.memory.next) 0 j) (some s.memory.next) j).destroyN
        (some s.memory.next) 0 j, true) := by
    have hloop : uninitializedCopyN throws.copy s.this.buffer (some s.memory.next) s.this.size 0 m = _ :=
      uninitializedCopyN_throws hj (fun k hk => by rw [Nat.zero_add]; exact hcalm k hk)
        (by rw [Nat.zero_add]; exact hthrows)
    rw [Nat.zero_add] at hloop
    rw [transferWithoutShift, hcopies]
    exact hloop
  rw [grow_of_allocated h]
  simp [hconstruct, hcopied]

section
variable (h : Owns e s.memory s.this) (hf : Fresh s.memory)
include h hf

theorem propagates_of_reserve_throws (hserved : ¬ AllocationFails s newCapacity) (hfails : CopyFails e throws s) :
    Propagates s (∃ k < s.this.size, k < roomFor e newCapacity ∧ throws.copy k = true)
      (grow e throws s adjustSize newCapacity adjustment constructDummy) := by
  obtain ⟨j, hj, hfirst, hcalm⟩ := exists_first hfails.2
  have hnone := hf _ le_rfl
  have hblock := block_allocated s.memory newCapacity e.size
  refine ⟨_, _, grow_of_copy_throws hserved rfl hfails.1 hj hfirst hcalm, ?_⟩
  by_cases hroom : j < roomFor e newCapacity
  · have hunwound := unwound_eq h hj (fun q => block_allocated_ne s.memory newCapacity e.size) hnone hblock hroom
      fun _ _ => rfl
    rw [hunwound]
    exact iff_of_true (untouched_unwound hf) ⟨j, hj, hroom, hfirst⟩
  · apply iff_of_false
    · apply not_untouched_of_misuse
      obtain ⟨b, hb, hslots⟩ : ∃ b, ((s.memory.allocated newCapacity e.size).transferN id s.this.buffer 0
          (some s.memory.next) 0 j).block s.memory.next = some b ∧ b.slots = roomFor e newCapacity :=
        slots_of_sameBlocks sameBlocks_transferN hblock
      have hbeyond := misuse_le_transferN.trans_lt (misuse_abandon_beyond hb (i := j) (by omega))
      exact hbeyond.trans_le (misuse_le_destroyN.trans misuse_le_deallocate)
    · rintro ⟨k, _, hk, hthrows⟩
      rw [hcalm k (by omega)] at hthrows
      cases hthrows

theorem propagates_of_emplaceBack_throws (hsrc : VectorOwnership.Valid src s.this.size)
    (hserved : ¬ AllocationFails s newCapacity) (hconstruct : throws.construct = false)
    (hfails : CopyFails e throws s) :
    Propagates s False (grow e throws s adjustSize newCapacity adjustment (constructAt throws s s.this.size src)) := by
  obtain ⟨j, hj, hfirst, hcalm⟩ := exists_first hfails.2
  obtain ⟨x, hx⟩ := value_of_valid h hsrc
  have hnone := hf _ le_rfl
  have hothers : ∀ q, q ≠ s.memory.next → (s.memory.allocated newCapacity e.size).block q = s.memory.block q :=
    fun q => block_allocated_ne s.memory newCapacity e.size
  have hblock := block_allocated s.memory newCapacity e.size
  have hconstructed : constructAt throws s s.this.size src (s.memory.allocated newCapacity e.size)
    (some s.memory.next) =
      ((s.memory.allocated newCapacity e.size).construct (some s.memory.next) s.this.size x, false) := by
    simp [constructAt, hconstruct, State.constructAt, Source.use, value_of_others h hothers hnone src, hx]
  refine ⟨_, _, grow_of_copy_throws hserved hconstructed hfails.1 hj hfirst hcalm, iff_of_false ?_ not_false⟩
  by_cases hroom : s.this.size < roomFor e newCapacity
  · apply not_untouched_of_leak
    have hleaked := leaked_lt_unwound (c := newCapacity) (x := x) h hj hothers hnone hblock hroom fun _ => rfl
    exact hleaked
  · have hbeyond := misuse_construct_beyond (v := x) hblock (not_lt.mp hroom)
    apply not_untouched_of_misuse
    exact Nat.lt_of_lt_of_le hbeyond (Nat.le_trans misuse_le_transferN
      (misuse_le_access.trans (misuse_le_destroyN.trans misuse_le_deallocate)))

theorem emplaceBack_propagates (hsrc : VectorOwnership.Valid src s.this.size)
    (hfails : AllocationFails s newCapacity ∨ throws.construct = true ∨ CopyFails e throws s) :
    Propagates s (AllocationFails s newCapacity ∨ throws.construct = true ∧ s.this.size < roomFor e newCapacity)
      (grow e throws s adjustSize newCapacity adjustment (constructAt throws s s.this.size src)) := by
  by_cases halloc : AllocationFails s newCapacity
  · exact propagates_of_allocationFails halloc (.inl halloc)
  · simp only [halloc, false_or] at hfails ⊢
    cases hconstruct : throws.construct with
    | true =>
      simp only [true_and]
      exact propagates_of_construct_throws hf halloc hconstruct
    | false =>
      simp only [hconstruct, Bool.false_eq_true, false_or, false_and] at hfails ⊢
      exact propagates_of_emplaceBack_throws h hf hsrc halloc hconstruct hfails

theorem reserve_propagates (hfails : AllocationFails s newCapacity ∨ CopyFails e throws s) :
    Propagates s (AllocationFails s newCapacity ∨ ∃ k < s.this.size, k < roomFor e newCapacity ∧ throws.copy k = true)
      (grow e throws s adjustSize newCapacity adjustment constructDummy) := by
  by_cases halloc : AllocationFails s newCapacity
  · exact propagates_of_allocationFails halloc (.inl halloc)
  · simp only [halloc, false_or] at hfails ⊢
    exact propagates_of_reserve_throws h hf halloc hfails

end

end

/-- A failure of a call that needs a new buffer leaves the call as an exception, and the vector and
the memory are what they were unless an old element is copied after the new one was constructed, or
the new buffer is too small. -/
theorem call_propagates (c : Call α) (h : Owns e s.memory s.this) (hf : Fresh s.memory) (hgrows : c.Reallocates s)
    (hfails : c.Fails e throws s) : Propagates s (c.Guarded e throws s) (c.run e throws s) := by
  have hback : ∀ src, s.this.size = s.this.capacity → VectorOwnership.Valid src s.this.size →
      (Call.emplaceBack src).Fails e throws s →
      Propagates s ((Call.emplaceBack src).Guarded e throws s) (emplaceBack e throws s src) := by
    intro src hfull hsrc hfails
    rw [emplaceBack, if_pos hfull]
    exact emplaceBack_propagates h hf hsrc hfails
  cases c with
  | emplaceBack src | pushBack src => exact hback src hgrows.1 hgrows.2 hfails
  | reserve newCapacity =>
    have hrun : reserve e throws s newCapacity =
        grow e throws s false newCapacity s.this.size constructDummy := if_pos hgrows
    rw [Call.run, hrun]
    exact reserve_propagates h hf hfails

end

def copiedWords : Element Nat := { words with movesOnTransfer := false }

def full : State Nat := (noWords.emplaceBack copiedWords (.external 7)).state

theorem contains_full : Contains copiedWords full [7] := by
  have hret : noWords.emplaceBack copiedWords (.external 7) = .returned full := rfl
  exact (emplaceBack_contains (Contains.of_holds (holds_noWords copiedWords)) rfl (fun _ => by decide) hret).1

theorem call_propagates_second :
    Propagates full ((Call.pushBack (.external 9)).Guarded copiedWords ⟨true, fun _ => false⟩ full)
      (pushBack copiedWords ⟨true, fun _ => false⟩ full (.external 9)) :=
  call_propagates (.pushBack (.external 9)) contains_full.owns contains_full.fresh ⟨rfl, trivial⟩ (.inr (.inl rfl))

/-- The copy of the old number throws in `push_back`: the new one is not destroyed. -/
theorem pushBack_leaks_the_new_element :
    ∃ t, pushBack copiedWords ⟨false, fun k => k == 0⟩ full (.external 9) = .threw .element t ∧
      t.memory.leaked = full.memory.leaked + 1 ∧ ¬ Untouched full t :=
  ⟨_, rfl, rfl, fun huntouched => absurd huntouched.leaked (by decide)⟩

end Ktl.VectorExceptions
