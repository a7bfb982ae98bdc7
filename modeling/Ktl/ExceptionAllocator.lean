import Ktl.Deferred
import Ktl.Runs
import Ktl.Word32
import Mathlib.Data.List.Nodup

/-!
The memory pool of exceptions: a fixed number of slots, of which
`m_slots[m_current_slot ..]` are free, and the heap when no slot is left. Each
interlocked operation and each access of `m_slots` is one step.
-/
namespace Ktl.ExceptionAllocator

open Deferred Runs Word32 Function

def slotSize : Nat := 512
def reservedBytesCount : Nat := 4096
def slotCount : Nat := reservedBytesCount / slotSize

inductive Pc where
  | idle
  /-- `try_get_slot` was given an index and reads the slot next -/
  | reading (index : Nat)
  /-- `try_get_slot` has incremented too far and takes it back next -/
  | overshot
  /-- `allocate_from_heap` comes next -/
  | fromHeap
  /-- `deallocate` was given an index and stores the address next -/
  | writing (index ptr : Nat)
  deriving DecidableEq

def Pc.index : Pc → Option Nat
  | .reading index | .writing index _ => some index
  | _ => none

structure State (τ : Type) where
  /-- `m_buffer` -/
  buffer : Nat
  slots : Nat → Nat
  currentSlot : Nat
  /-- the addresses that were handed out, once for each owner -/
  held : List Nat
  /-- the blocks that the heap has given and not taken back -/
  heap : List Nat
  /-- calls of `free_to_heap` with something that is no block of the heap -/
  invalidFrees : Nat
  pc : τ → Pc
  /-- history: the accesses of `m_slots` still to be made, in the order of their reservation -/
  order : List (Entry Nat τ Nat)

inductive Action (τ : Type) where
  | allocate (t : τ) (bytesCount : Nat)
  | readSlot (t : τ)
  | undoIncrement (t : τ)
  | allocateFromHeap (t : τ) (ptr : Nat)
  | deallocate (t : τ) (ptr : Nat)
  | writeSlot (t : τ)
  deriving DecidableEq

variable {τ : Type} [DecidableEq τ]

@[simp] def State.goto (s : State τ) (t : τ) (pc : Pc) : State τ := { s with pc := update s.pc t pc }

def State.settle (s : State τ) (t : τ) : State τ :=
  { s with order := s.order.filter fun e => e.owner ≠ t }

def notInBuffer (buffer ptr : Nat) : Bool :=
  decide (ptr < buffer ∨ buffer + reservedBytesCount - slotSize < ptr)

def Reserved (buffer ptr : Nat) : Prop := buffer ≤ ptr ∧ ptr < buffer + reservedBytesCount
deriving Decidable

def freeToHeap (s : State τ) (ptr : Nat) : State τ :=
  if ptr ∈ s.heap then { s with heap := s.heap.erase ptr }
  else { s with invalidFrees := s.invalidFrees + 1 }

def tryGetSlot (s : State τ) (t : τ) : State τ :=
  let slotIndex := s.currentSlot
  let s := { s with currentSlot := increment s.currentSlot }
  if slotIndex < slotCount then
    { s.goto t (.reading slotIndex) with
      order := s.order ++ [⟨slotIndex, t, .read (settled s.slots s.order slotIndex)⟩] }
  else s.goto t .overshot

/-- `deallocate` of a slot: the counter comes first. -/
def putSlot (s : State τ) (t : τ) (ptr : Nat) : State τ :=
  let slotIndex := decrement s.currentSlot
  { s.goto t (.writing slotIndex ptr) with
    currentSlot := slotIndex
    order := s.order ++ [⟨slotIndex, t, .write ptr⟩] }

def step (s : State τ) : Action τ → Option (State τ)
  | .allocate t bytesCount =>
    if s.pc t = .idle then
      if bytesCount ≤ slotSize then some (tryGetSlot s t) else some (s.goto t .fromHeap)
    else none
  | .readSlot t =>
    match s.pc t with
    | .reading index =>
      some (({ s with held := s.slots index :: s.held }.goto t .idle).settle t)
    | _ => none
  | .undoIncrement t =>
    if s.pc t = .overshot then
      some ({ s with currentSlot := decrement s.currentSlot }.goto t .fromHeap)
    else none
  | .allocateFromHeap t ptr =>
    -- the heap succeeds and its memory is fresh
    if s.pc t = .fromHeap ∧ ptr ∉ s.heap ∧ ¬ Reserved s.buffer ptr then
      some ({ s with held := ptr :: s.held, heap := ptr :: s.heap }.goto t .idle)
    else none
  | .deallocate t ptr =>
    if s.pc t = .idle ∧ ptr ∈ s.held then
      let s := { s with held := s.held.erase ptr }
      some (if notInBuffer s.buffer ptr then freeToHeap s ptr else putSlot s t ptr)
    else none
  | .writeSlot t =>
    match s.pc t with
    | .writing index ptr =>
      -- a store outside `m_slots` is undefined
      if index < slotCount then
        some (({ s with slots := update s.slots index ptr }.goto t .idle).settle t)
      else none
    | _ => none

def initialized (buffer : Nat) : State τ where
  buffer := buffer
  slots i := buffer + slotSize * i
  currentSlot := 0
  held := []
  heap := []
  invalidFrees := 0
  pc _ := .idle
  order := []

def slotAddresses (buffer : Nat) : List Nat :=
  (List.range slotCount).map fun i => buffer + slotSize * i

def contentFrom (content : Nat → Nat) (c : Nat) : List Nat :=
  (List.range' c (slotCount - c)).map content

@[simp] def State.pool (s : State τ) : List Nat := contentFrom (settled s.slots s.order) s.currentSlot

@[simp] def State.inFlight (s : State τ) : List Nat := (s.order.map Entry.access).filterMap Access.seen

/-- The accesses of each slot are made in the order in which they were reserved, no address is put
back while an allocation has incremented too far, and the counter does not wrap around. -/
def InTurn (s : State τ) : Action τ → Prop
  | .allocate _ _ => s.currentSlot + 1 < 2 ^ 32
  | .deallocate _ ptr => notInBuffer s.buffer ptr = false → s.currentSlot ≤ slotCount
  | .readSlot t | .writeSlot t =>
    ∀ index ∈ (s.pc t).index, (s.order.find? fun e => e.index = index).map Entry.owner = some t
  | _ => True

instance (s : State τ) (a : Action τ) : Decidable (InTurn s a) :=
  match a with
  | .allocate _ _ => inferInstanceAs (Decidable (_ < _))
  | .deallocate _ _ => inferInstanceAs (Decidable (_ → _))
  | .readSlot _ | .writeSlot _ => inferInstanceAs (Decidable (∀ _ ∈ _, _))
  | .undoIncrement _ | .allocateFromHeap _ _ => inferInstanceAs (Decidable True)

def inBuffer (buffer ptr : Nat) : Bool := !notInBuffer buffer ptr

def pcOf (e : Entry Nat τ Nat) : Pc :=
  match e.access with
  | .read _ => .reading e.index
  | .write ptr => .writing e.index ptr

/-- The counter is at most `slotCount`, except for the threads that have
incremented too far. -/
def Overshoot (currentSlot : Nat) (pc : τ → Pc) : Prop :=
  ∃ late : List τ, late.Nodup ∧ (∀ t, t ∈ late ↔ pc t = .overshot) ∧
    (late = [] → currentSlot ≤ slotCount) ∧ (late ≠ [] → currentSlot = slotCount + late.length)

structure Accesses (slots : Nat → Nat) (order : List (Entry Nat τ Nat)) (pc : τ → Pc) : Prop where
  coherent : Coherent slots order
  owners : (order.map Entry.owner).Nodup
  entries : ∀ e ∈ order, pc e.owner = pcOf e ∧ e.index < slotCount
  complete : ∀ t, (pc t).index ≠ none → ∃ e ∈ order, e.owner = t

structure Inv (s : State τ) : Prop where
  accesses : Accesses s.slots s.order s.pc
  overshoot : Overshoot s.currentSlot s.pc
  slots : (s.pool ++ s.inFlight ++ s.held.filter (inBuffer s.buffer)).Perm (slotAddresses s.buffer)
  heap : s.heap.Perm (s.held.filter (notInBuffer s.buffer))
  fresh : s.heap.Nodup
  frees : s.invalidFrees = 0

section

variable {slots : Nat → Nat} {pc : τ → Pc}

omit [DecidableEq τ] in
theorem index_pcOf (e : Entry Nat τ Nat) : (pcOf e).index = some e.index := by
  unfold pcOf
  split <;> rfl

omit [DecidableEq τ] in
theorem Accesses.owner_ne (h : Accesses slots order pc) (ht : (pc t).index = none) (he : e ∈ order) : e.owner ≠ t := by
  rintro rfl
  rw [(h.entries e he).1, index_pcOf] at ht
  cases ht

theorem Accesses.goto (h : Accesses slots order pc) (ht : (pc t).index = none) (hv : v.index = none) :
    Accesses slots order (update pc t v) := by
  constructor
  · exact h.coherent
  · exact h.owners
  · intro e he
    rw [update_of_ne (h.owner_ne ht he)]
    exact h.entries e he
  · intro t' hpc
    have hne : t' ≠ t := by
      rintro rfl
      simp [hv] at hpc
    rw [update_of_ne hne] at hpc
    exact h.complete t' hpc

theorem Accesses.reserve (h : Accesses slots order pc) (ht : (pc e.owner).index = none)
    (hi : e.index < slotCount) (hcoherent : Coherent slots (order ++ [e])) :
    Accesses slots (order ++ [e]) (update pc e.owner (pcOf e)) := by
  constructor
  · exact hcoherent
  · rw [List.map_append, List.nodup_append]
    constructor
    · exact h.owners
    constructor
    · simp
    · intro a ha b hb
      obtain ⟨e', he', rfl⟩ := List.mem_map.mp ha
      obtain rfl : b = e.owner := by simpa using hb
      exact h.owner_ne ht he'
  · intro e' he'
    obtain hold | rfl := List.mem_append.mp he' |>.imp_right List.mem_singleton.mp
    · rw [update_of_ne (h.owner_ne ht hold)]
      exact h.entries e' hold
    · rw [update_self]
      exact ⟨rfl, hi⟩
  · intro t' hpc
    by_cases he : t' = e.owner
    · exact ⟨e, by simp, he.symm⟩
    · rw [update_of_ne he] at hpc
      obtain ⟨e', he', howner⟩ := h.complete t' hpc
      exact ⟨e', List.mem_append_left _ he', howner⟩

theorem Accesses.first (h : Accesses slots order pc)
    (hturn : (order.find? fun e => e.index = i).map Entry.owner = some t) :
    ∃ before after a, order = before ++ ⟨i, t, a⟩ :: after ∧ order.filter (fun e => e.owner ≠ t) = before ++ after ∧
      (∀ e ∈ before, e.index ≠ i) ∧ pc t = pcOf ⟨i, t, a⟩ := by
  obtain ⟨e, he, howner⟩ := Option.map_eq_some_iff.mp hturn
  obtain ⟨hi, before, after, horder, hbefore⟩ := List.find?_eq_some_iff_append.mp he
  obtain ⟨index, owner, a⟩ := e
  simp only [decide_eq_true_eq] at hi howner
  subst hi howner
  have hentry := h.entries ⟨index, owner, a⟩ (by simp [horder])
  have howners := h.owners
  rw [horder] at howners
  exact ⟨before, after, a, horder, horder ▸ filter_owner_ne howners, by simpa using hbefore, hentry.1⟩

theorem Accesses.perform (h : Accesses slots (before ++ e :: after) pc)
    (hcoherent : Coherent slots' (before ++ after)) :
    Accesses slots' (before ++ after) (update pc e.owner .idle) := by
  have hne := owner_ne_of_nodup h.owners
  have hsub := (List.sublist_cons_self e after).append_left before
  constructor
  · exact hcoherent
  · exact h.owners.sublist (hsub.map Entry.owner)
  · intro e' he'
    rw [update_of_ne (hne e' he')]
    exact h.entries e' (hsub.subset he')
  · intro t hpc
    have ht : t ≠ e.owner := by
      rintro rfl
      simp [Pc.index] at hpc
    rw [update_of_ne ht] at hpc
    obtain ⟨e', he', rfl⟩ := h.complete t hpc
    have hmem : e' ∈ before ++ after := by
      rw [← filter_owner_ne h.owners]
      exact List.mem_filter.mpr ⟨he', by simpa using ht⟩
    exact ⟨e', hmem, rfl⟩

end

section

variable {pc : τ → Pc}

theorem Overshoot.goto (h : Overshoot c pc) (ht : pc t ≠ .overshot) (hv : v ≠ .overshot) :
    Overshoot c (update pc t v) := by
  obtain ⟨late, hn, hmem, hnone, hsome⟩ := h
  have hmem' : ∀ t', t' ∈ late ↔ update pc t v t' = .overshot := by
    intro t'
    by_cases he : t' = t
    · subst he
      simp [hmem, ht, hv]
    · simp [hmem, he]
  exact ⟨late, hn, hmem', hnone, hsome⟩

omit [DecidableEq τ] in
theorem Overshoot.late_nil (h : Overshoot c pc) (hc : c ≤ slotCount) (t : τ) : pc t ≠ .overshot := by
  obtain ⟨late, hn, hmem, hnone, hsome⟩ := h
  intro ht
  have hne : late ≠ [] := List.ne_nil_of_mem ((hmem t).mpr ht)
  have hpos := List.length_pos_of_ne_nil hne
  have hcount := hsome hne
  omega

omit [DecidableEq τ] in
theorem overshoot_of_le (hpc : ∀ t, pc t ≠ .overshot) (hc : c ≤ slotCount) : Overshoot c pc := by
  exact ⟨[], List.nodup_nil, by simp [hpc], fun _ => hc, fun hne => absurd rfl hne⟩

theorem Overshoot.within (h : Overshoot c pc) (hc : c ≤ slotCount) (hc' : c' ≤ slotCount) (hv : v ≠ .overshot) :
    Overshoot c' (update pc t v) := by
  apply overshoot_of_le _ hc'
  intro t'
  by_cases he : t' = t
  · rwa [he, update_self]
  · rw [update_of_ne he]
    exact h.late_nil hc t'

theorem Overshoot.enter (h : Overshoot c pc) (hc : slotCount ≤ c) (ht : pc t ≠ .overshot) :
    Overshoot (c + 1) (update pc t .overshot) := by
  obtain ⟨late, hn, hmem, hnone, hsome⟩ := h
  have hnot : t ∉ late := fun hin => ht ((hmem t).mp hin)
  have hmem' : ∀ t', t' ∈ t :: late ↔ update pc t .overshot t' = .overshot := by
    intro t'
    by_cases he : t' = t
    · subst he
      simp
    · simp [hmem, he]
  have hcount : c + 1 = slotCount + (t :: late).length := by
    rw [List.length_cons]
    by_cases hl : late = []
    · have := hnone hl
      simp only [hl, List.length_nil]
      omega
    · have := hsome hl
      omega
  exact ⟨t :: late, List.nodup_cons.mpr ⟨hnot, hn⟩, hmem', by simp, fun _ => hcount⟩

theorem Overshoot.leave (h : Overshoot c pc) (ht : pc t = .overshot) :
    slotCount < c ∧ Overshoot (c - 1) (update pc t .fromHeap) := by
  obtain ⟨late, hn, hmem, hnone, hsome⟩ := h
  have hin : t ∈ late := (hmem t).mpr ht
  have hcount := hsome (List.ne_nil_of_mem hin)
  have hlen := List.length_pos_of_mem hin
  have herase := List.length_erase_of_mem hin
  have hmem' : ∀ t', t' ∈ late.erase t ↔ update pc t .fromHeap t' = .overshot := by
    intro t'
    by_cases he : t' = t
    · subst he
      simp [hn.mem_erase_iff]
    · simp [hn.mem_erase_iff, hmem, he]
  constructor
  · omega
  · have hzero : late.erase t = [] → c - 1 ≤ slotCount := by
      intro hnil
      rw [hnil, List.length_nil] at herase
      omega
    exact ⟨late.erase t, hn.erase t, hmem', hzero, fun _ => by omega⟩

end

section

variable {s : State τ}

theorem contentFrom_of_lt (hc : c < slotCount) : contentFrom content c = content c :: contentFrom content (c + 1) := by
  have hsplit : slotCount - c = (slotCount - (c + 1)) + 1 := by omega
  rw [contentFrom, hsplit, List.range'_succ, List.map_cons, contentFrom]

theorem contentFrom_of_le (hc : slotCount ≤ c) : contentFrom content c = [] := by
  simp [contentFrom, Nat.sub_eq_zero_of_le hc]

theorem contentFrom_update (hi : i < c) (v : Nat) : contentFrom (update content i v) c = contentFrom content c := by
  apply List.map_congr_left
  intro j hj
  have hle : c ≤ j := (List.mem_range'_1.mp hj).1
  rw [update_of_ne (by omega)]

theorem notInBuffer_of_not_reserved (h : ¬ Reserved buffer ptr) : notInBuffer buffer ptr = true := by
  unfold Reserved reservedBytesCount at h
  unfold notInBuffer reservedBytesCount slotSize
  rw [decide_eq_true_eq]
  omega

omit [DecidableEq τ] in
theorem Inv.freeToHeap (h : Inv s) (hheld : ptr ∈ s.held) (hout : notInBuffer s.buffer ptr = true) :
    Inv (freeToHeap { s with held := s.held.erase ptr } ptr) := by
  have hheap : ptr ∈ s.heap := h.heap.mem_iff.mpr (List.mem_filter.mpr ⟨hheld, hout⟩)
  have hperm := List.perm_cons_erase hheld
  simp only [ExceptionAllocator.freeToHeap, if_pos hheap]
  constructor
  · exact h.accesses
  · exact h.overshoot
  · have hkeep := hperm.filter (inBuffer s.buffer)
    rw [List.filter_cons_of_neg (by simp [inBuffer, hout])] at hkeep
    exact (List.Perm.append_left _ hkeep.symm).trans h.slots
  · have hdrop := hperm.filter (notInBuffer s.buffer)
    rw [List.filter_cons_of_pos hout] at hdrop
    exact (List.perm_cons ptr).mp ((List.perm_cons_erase hheap).symm.trans (h.heap.trans hdrop))
  · exact h.fresh.erase ptr
  · exact h.frees

omit [DecidableEq τ] in
theorem Inv.currentSlot_pos (h : Inv s) (hheld : ptr ∈ s.held) (hin : inBuffer s.buffer ptr = true) :
    0 < s.currentSlot := by
  have hlen := h.slots.length_eq
  have hpos := List.length_pos_of_mem (List.mem_filter.mpr ⟨hheld, hin⟩)
  simp only [List.length_append, State.pool, contentFrom, List.length_map, List.length_range',
    slotAddresses, List.length_range] at hlen
  omega

theorem notInBuffer_eq_false (h : inBuffer buffer ptr = true) : notInBuffer buffer ptr = false := by
  simpa [inBuffer] using h

theorem inBuffer_of_mem (h : ptr ∈ slotAddresses buffer) : inBuffer buffer ptr = true := by
  obtain ⟨i, hi, rfl⟩ := List.mem_map.mp h
  have hlt : i < 8 := List.mem_range.mp hi
  unfold inBuffer notInBuffer reservedBytesCount slotSize
  rw [Bool.not_eq_true', decide_eq_false_iff_not]
  omega

theorem slotAddresses_nodup (buffer : Nat) : (slotAddresses buffer).Nodup := by
  apply List.Nodup.map _ List.nodup_range
  intro i j hij
  have hsum : buffer + 512 * i = buffer + 512 * j := hij
  omega

section

variable (h : Inv s)

include h

theorem Inv.tryGetSlot (ht : s.pc t = .idle) (hb : s.currentSlot + 1 < 2 ^ 32) : Inv (tryGetSlot s t) := by
  have hquiet : (s.pc t).index = none := by simp [ht, Pc.index]
  have hslots := h.slots
  simp only [ExceptionAllocator.tryGetSlot, increment_of_lt hb]
  split_ifs with hlt
  · constructor
    · exact h.accesses.reserve (e := ⟨s.currentSlot, t, .read (settled s.slots s.order s.currentSlot)⟩)
        hquiet hlt h.accesses.coherent.append_read
    · exact h.overshoot.within (Nat.le_of_lt hlt) hlt (by simp)
    · have hpool : s.pool = settled s.slots s.order s.currentSlot ::
          contentFrom (settled s.slots s.order) (s.currentSlot + 1) := contentFrom_of_lt hlt
      rw [hpool] at hslots
      apply List.Perm.trans _ hslots
      simpa [settled_append_read, List.filterMap_cons] using (List.perm_middle : List.Perm
          ((contentFrom (settled s.slots s.order) (s.currentSlot + 1) ++ s.inFlight) ++ _ :: _) _)
    · exact h.heap
    · exact h.fresh
    · exact h.frees
  · have hle := Nat.le_of_not_lt hlt
    constructor
    · exact h.accesses.goto hquiet rfl
    · exact h.overshoot.enter hle (by simp [ht])
    · have hpool : s.pool = [] := contentFrom_of_le hle
      have hpool' : contentFrom (settled s.slots s.order) (s.currentSlot + 1) = [] :=
        contentFrom_of_le (Nat.le_succ_of_le hle)
      rw [hpool, ← hpool'] at hslots
      exact hslots
    · exact h.heap
    · exact h.fresh
    · exact h.frees

theorem Inv.undoIncrement (ht : s.pc t = .overshot) :
    Inv ({ s with currentSlot := decrement s.currentSlot }.goto t .fromHeap) := by
  obtain ⟨hlt, hleave⟩ := h.overshoot.leave ht
  have hdec : decrement s.currentSlot = s.currentSlot - 1 := by
    simp [decrement, if_neg (Nat.ne_of_gt (Nat.zero_lt_of_lt hlt))]
  have hslots := h.slots
  rw [hdec]
  constructor
  · exact h.accesses.goto (by simp [ht, Pc.index]) rfl
  · exact hleave
  · have hpool : s.pool = [] := contentFrom_of_le (Nat.le_of_lt hlt)
    have hpool' : contentFrom (settled s.slots s.order) (s.currentSlot - 1) = [] :=
      contentFrom_of_le (Nat.le_sub_one_of_lt hlt)
    rw [hpool, ← hpool'] at hslots
    exact hslots
  · exact h.heap
  · exact h.fresh
  · exact h.frees

theorem Inv.allocateFromHeap (ht : s.pc t = .fromHeap) (hnew : ptr ∉ s.heap) (hout : ¬ Reserved s.buffer ptr) :
    Inv ({ s with held := ptr :: s.held, heap := ptr :: s.heap }.goto t .idle) := by
  have hnot := notInBuffer_of_not_reserved hout
  constructor
  · exact h.accesses.goto (by simp [ht, Pc.index]) rfl
  · exact h.overshoot.goto (by simp [ht]) (by simp)
  · simpa [inBuffer, hnot] using h.slots
  · simpa [hnot] using h.heap
  · exact List.nodup_cons.mpr ⟨hnew, h.fresh⟩
  · exact h.frees

theorem Inv.putSlot (ht : s.pc t = .idle) (hheld : ptr ∈ s.held) (hin : inBuffer s.buffer ptr = true)
    (hle : s.currentSlot ≤ slotCount) : Inv (putSlot { s with held := s.held.erase ptr } t ptr) := by
  obtain ⟨i, hi⟩ := Nat.exists_eq_add_one_of_ne_zero (Nat.ne_of_gt (h.currentSlot_pos hheld hin))
  have hquiet : (s.pc t).index = none := by simp [ht, Pc.index]
  have hlt : i < slotCount := by omega
  simp only [ExceptionAllocator.putSlot, hi, decrement_succ]
  constructor
  · exact h.accesses.reserve (e := ⟨i, t, .write ptr⟩) hquiet hlt (h.accesses.coherent.append_write ptr)
  · exact h.overshoot.within hle (Nat.le_of_lt hlt) (by simp)
  · have hkeep := (List.perm_cons_erase hheld).filter (inBuffer s.buffer)
    rw [List.filter_cons_of_pos hin] at hkeep
    have hpool : s.pool = contentFrom (settled s.slots s.order) (i + 1) := by rw [State.pool, hi]
    have hslots := h.slots
    rw [hpool] at hslots
    apply List.Perm.trans _ hslots
    apply List.Perm.trans _ (List.Perm.append_left _ hkeep.symm)
    simpa [settled_append_write, List.filterMap_cons, contentFrom_of_lt hlt, contentFrom_update (Nat.lt_succ_self i)]
      using (List.perm_middle :
        List.Perm ((contentFrom (settled s.slots s.order) (i + 1) ++ s.inFlight) ++ _ :: _) _).symm
  · have hkeep := (List.perm_cons_erase hheld).filter (notInBuffer s.buffer)
    rw [List.filter_cons_of_neg (by simpa [inBuffer] using hin)] at hkeep
    exact h.heap.trans hkeep
  · exact h.fresh
  · exact h.frees

theorem Inv.readSlot (ht : s.pc t = .reading i)
    (hturn : (s.order.find? fun e => e.index = i).map Entry.owner = some t) :
    Inv (({ s with held := s.slots i :: s.held }.goto t .idle).settle t) := by
  obtain ⟨before, after, a, horder, hdrop, hfirst, hpc⟩ := h.accesses.first hturn
  cases a with
  | write ptr =>
    rw [ht] at hpc
    cases hpc
  | read v =>
    have haccesses := h.accesses
    rw [horder] at haccesses
    obtain ⟨rfl, hcoherent⟩ := haccesses.coherent.perform_read hfirst

    have hslots := h.slots
    have hflight : s.slots i ∈ s.inFlight := by simp [horder]
    have hmem := hslots.subset (List.mem_append_left _ (List.mem_append_right _ hflight))
    have hin := inBuffer_of_mem hmem
    simp only [State.settle, State.goto, hdrop]
    constructor
    · exact haccesses.perform hcoherent
    · exact h.overshoot.goto (by simp [ht]) (by simp)
    · apply List.Perm.trans _ hslots
      simp only [State.pool, State.inFlight, horder]
      rw [settled_perform_read (t := t) (v := s.slots i) hfirst]
      simpa [List.filterMap_cons, hin] using (List.perm_middle.append_left _).append_left _
    · simpa [notInBuffer_eq_false hin] using h.heap
    · exact h.fresh
    · exact h.frees

theorem Inv.writeSlot (ht : s.pc t = .writing i ptr)
    (hturn : (s.order.find? fun e => e.index = i).map Entry.owner = some t) :
    Inv (({ s with slots := update s.slots i ptr }.goto t .idle).settle t) := by
  obtain ⟨before, after, a, horder, hdrop, hfirst, hpc⟩ := h.accesses.first hturn
  cases a with
  | read v =>
    rw [ht] at hpc
    cases hpc
  | write v =>
    obtain rfl : ptr = v := by
      rw [ht] at hpc
      simpa [pcOf] using hpc
    have haccesses := h.accesses
    rw [horder] at haccesses

    simp only [State.settle, State.goto, hdrop]
    constructor
    · exact haccesses.perform (haccesses.coherent.perform_write hfirst)
    · exact h.overshoot.goto (by simp [ht]) (by simp)
    · have hslots := h.slots
      simp only [State.pool, State.inFlight, horder] at hslots ⊢
      rw [settled_perform_write (t := t) hfirst]
      simpa [List.filterMap_cons] using hslots
    · exact h.heap
    · exact h.fresh
    · exact h.frees

/-- Every access in turn keeps the invariant. -/
theorem Inv.step (hok : InTurn s a) (hstep : step s a = some s') : Inv s' := by
  cases a with
  | allocate t bytesCount =>
    obtain ⟨ht, hstep⟩ := Option.ite_none_right_eq_some.mp hstep
    split at hstep
    · cases hstep
      exact h.tryGetSlot ht hok
    · cases hstep
      constructor
      · exact h.accesses.goto (by simp [ht, Pc.index]) rfl
      · exact h.overshoot.goto (by simp [ht]) (by simp)
      · exact h.slots
      · exact h.heap
      · exact h.fresh
      · exact h.frees
  | readSlot t =>
    simp only [ExceptionAllocator.step] at hstep
    split at hstep
    · rename_i i ht
      cases hstep
      exact h.readSlot ht (hok i (by simp [ht, Pc.index]))
    · cases hstep
  | undoIncrement t =>
    obtain ⟨ht, rfl⟩ := guarded hstep
    exact h.undoIncrement ht
  | allocateFromHeap t ptr =>
    obtain ⟨⟨ht, hnew, hout⟩, rfl⟩ := guarded hstep
    exact h.allocateFromHeap ht hnew hout
  | deallocate t ptr =>
    obtain ⟨⟨ht, hheld⟩, rfl⟩ := guarded hstep
    split_ifs with hout
    · exact h.freeToHeap hheld hout
    · have hin' : inBuffer s.buffer ptr = true := by simpa [inBuffer] using hout
      exact h.putSlot ht hheld hin' (hok (notInBuffer_eq_false hin'))
  | writeSlot t =>
    simp only [ExceptionAllocator.step] at hstep
    split at hstep
    · rename_i i ptr ht
      split at hstep
      · cases hstep
        exact h.writeSlot ht (hok i (by simp [ht, Pc.index]))
      · cases hstep
    · cases hstep

end

omit [DecidableEq τ] in
theorem initialized_inv (buffer : Nat) : Inv (initialized buffer : State τ) := by
  constructor
  · constructor
    · intro i
      exact trivial
    · exact List.nodup_nil
    · intro e he
      exact absurd he List.not_mem_nil
    · intro t ht
      exact absurd rfl ht
  · exact overshoot_of_le (fun t => by simp [initialized]) (Nat.zero_le _)
  · have hpool : (initialized buffer : State τ).pool = slotAddresses buffer := by
      simp [contentFrom, initialized, slotAddresses, List.range_eq_range', settled, accessesAt, replay]
    rw [hpool]
    simp [initialized]
  · exact List.Perm.refl _
  · exact List.nodup_nil
  · rfl

omit [DecidableEq τ] in
theorem Inv.held_nodup (h : Inv s) : s.held.Nodup := by
  have hslots := ((h.slots.nodup_iff.mpr (slotAddresses_nodup s.buffer)).of_append_right)
  have hheap := h.heap.nodup_iff.mp h.fresh
  have hsplit := List.filter_append_perm (notInBuffer s.buffer) s.held
  apply hsplit.nodup_iff.mp
  rw [List.nodup_append]
  constructor
  · exact hheap
  constructor
  · exact hslots
  · rintro a ha b hb rfl
    have hout := (List.mem_filter.mp ha).2
    rw [notInBuffer_eq_false (List.mem_filter.mp hb).2] at hout
    cases hout

omit [DecidableEq τ] in
theorem Inv.index_lt (h : Inv s) (ht : (s.pc t).index = some i) : i < slotCount := by
  obtain ⟨e, he, rfl⟩ := h.accesses.complete t (by simp [ht])
  obtain ⟨hpc, hlt⟩ := h.accesses.entries e he
  rw [hpc, index_pcOf, Option.some.injEq] at ht
  rwa [ht] at hlt

structure Safe (s : State τ) : Prop where
  /-- no address is held by two owners -/
  held : s.held.Nodup
  /-- every index used on `m_slots` is inside the array -/
  index : ∀ t i, (s.pc t).index = some i → i < slotCount
  /-- every slot is once in the pool, on its way to an owner or held -/
  slots : (s.pool ++ s.inFlight ++ s.held.filter (inBuffer s.buffer)).Perm (slotAddresses s.buffer)
  /-- the blocks of the heap are those that are held, and each is freed once -/
  heap : s.heap.Perm (s.held.filter (notInBuffer s.buffer)) ∧ s.invalidFrees = 0
  /-- between calls the pool is what `m_slots` holds from the counter on -/
  quiescent : (∀ t, s.pc t = .idle) → s.currentSlot ≤ slotCount ∧ s.inFlight = [] ∧
    s.pool = contentFrom s.slots s.currentSlot

omit [DecidableEq τ] in
theorem Inv.safe (h : Inv s) : Safe s := by
  constructor
  · exact h.held_nodup
  · intro t i ht
    exact h.index_lt ht
  · exact h.slots
  · exact ⟨h.heap, h.frees⟩
  · intro hidle
    have horder : s.order = [] := by
      apply List.eq_nil_iff_forall_not_mem.mpr
      intro e he
      exact h.accesses.owner_ne (t := e.owner) (by simp [hidle, Pc.index]) he rfl
    obtain ⟨late, _, hmem, hnone, _⟩ := h.overshoot
    have hlate : late = [] := by
      apply List.eq_nil_iff_forall_not_mem.mpr
      intro t ht
      simp [hmem, hidle] at ht
    constructor
    · exact hnone hlate
    constructor
    · simp [horder]
    · simp only [State.pool, horder]
      rfl

theorem safe_of_inTurn {buffer : Nat} {actions : List (Action τ)}
    (hrun : Run ExceptionAllocator.step InTurn (initialized buffer) actions s) : Safe s :=
  (hrun.invariant (fun _ _ _ h hok hst => h.step hok hst) (initialized_inv buffer)).safe

end

/-- Two threads take slots, one goes to the heap while the other puts its slot back. -/
def overlapping : List (Action Bool) :=
  [.allocate true 100, .allocate false 512, .readSlot false, .readSlot true, .deallocate true 4096,
    .allocate false 600, .allocateFromHeap false 100, .writeSlot true, .deallocate false 100]

theorem safe_of_inTurn_overlapping :
    ∃ s : State Bool, Run step InTurn (initialized 4096) overlapping s ∧ s.held = [4608] ∧ Safe s := by
  have hsome : (exec step InTurn (initialized 4096) overlapping).map State.held = some [4608] := by
    decide +kernel
  obtain ⟨s, hrun, hheld⟩ := run_of_exec_map hsome
  exact ⟨s, hrun, hheld, safe_of_inTurn hrun⟩

def readBeforeWrite : List (Action Bool) :=
  [.allocate true 100, .readSlot true, .allocate false 100, .readSlot false, .deallocate true 4096,
    .allocate false 100, .readSlot false]

def putBackWhileOvershot : List (Action Bool) :=
  (List.replicate slotCount [.allocate true 100, .readSlot true]).flatten ++
    [.allocate false 100, .deallocate true 4096]

theorem slot_races : (∃ s : State Bool, Run step (fun _ _ => True) (initialized 4096) readBeforeWrite s ∧
      s.held = [4608, 4608]) ∧
    ∃ s : State Bool, Run step (fun _ _ => True) (initialized 4096) putBackWhileOvershot s ∧
      (s.pc true).index = some slotCount := by
  have htwice : (exec step (fun _ _ => True) (initialized 4096) readBeforeWrite).map State.held =
      some [4608, 4608] := by
    decide +kernel
  have houtside : (exec step (fun _ _ => True) (initialized 4096) putBackWhileOvershot).map
      (fun s => (s.pc true).index) = some (some slotCount) := by
    decide +kernel
  exact ⟨run_of_exec_map htwice, run_of_exec_map houtside⟩

end Ktl.ExceptionAllocator
