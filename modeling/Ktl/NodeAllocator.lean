import Ktl.LinkedList
import Ktl.Runs
import Ktl.TaggedPointer

/-!
The lock-free node allocator: a free list of blocks whose top is one tagged word. Every
atomic operation is one step of one thread, and any number of threads interleave. A block's
link word overlaps the memory that its owner writes to.
-/
namespace Ktl.NodeAllocator

open TaggedPointer LinkedList Runs Function

/-- A loaded value of the free-list head, with counters that the code does not see. -/
structure Snapshot where
  value : CompressedPointer
  updates : Nat
  pops : Nat
  deriving DecidableEq

inductive Pc where
  | idle
  | allocLoop (oldTop : Snapshot)
  | allocCas (oldTop : Snapshot) (newTopPtr : Ptr)
  | deallocLoop (ptr : Ptr) (oldTop : Snapshot)
  | deallocCas (ptr : Ptr) (oldTop : Snapshot)
  deriving DecidableEq

structure State (τ : Type) where
  head : CompressedPointer
  /-- `memory_block_header::next` of every block -/
  next : Ptr → CompressedPointer
  /-- the blocks taken from the underlying allocator -/
  obtained : List Ptr
  /-- the blocks returned by `allocate` and not yet given to `deallocate` -/
  held : List Ptr
  /-- the blocks inside a running `deallocate` -/
  returning : List Ptr
  pc : τ → Pc
  result : τ → Option Ptr
  updates : Nat
  pops : Nat

inductive Action (τ : Type) where
  | callAllocate (t : τ)
  | createMemoryBlock (t : τ) (fresh : Ptr)
  | createFails (t : τ)
  | readNext (t : τ)
  | allocCas (t : τ)
  | callDeallocate (t : τ) (ptr : Ptr)
  | storeNext (t : τ)
  | deallocCas (t : τ)
  | write (ptr : Ptr) (word : CompressedPointer)
  deriving DecidableEq

variable {τ : Type}

def State.snapshot (s : State τ) : Snapshot := ⟨s.head, s.updates, s.pops⟩

section

variable [DecidableEq τ]

@[simp] def State.goto (s : State τ) (t : τ) (pc : Pc) : State τ :=
  { s with pc := update s.pc t pc }

def State.giveTo (s : State τ) (t : τ) (ptr : Ptr) : State τ :=
  { s.goto t .idle with held := ptr :: s.held, result := update s.result t (some ptr) }

def step (s : State τ) : Action τ → Option (State τ)
  | .callAllocate t =>
    match s.pc t with
    | .idle => some (s.goto t (.allocLoop s.snapshot))
    | _ => none
  | .createMemoryBlock t fresh =>
    match s.pc t with
    | .allocLoop oldTop =>
      -- the underlying allocator returns kernel memory that is not in use
      if isNull oldTop.value ∧ KernelAddress fresh ∧ fresh ∉ s.obtained then
        some { s.giveTo t fresh with obtained := fresh :: s.obtained }
      else none
    | _ => none
  | .createFails t =>
    match s.pc t with
    | .allocLoop oldTop =>
      if isNull oldTop.value then
        some { s.goto t .idle with result := update s.result t none }
      else none
    | _ => none
  | .readNext t =>
    match s.pc t with
    | .allocLoop oldTop =>
      if isNull oldTop.value then none
      else some (s.goto t (.allocCas oldTop (extractPtr (s.next (extractPtr oldTop.value)))))
    | _ => none
  | .allocCas t =>
    match s.pc t with
    | .allocCas oldTop newTopPtr =>
      if s.head = oldTop.value then
        some { s.giveTo t (extractPtr oldTop.value) with
          head := packPtr newTopPtr (getNextTag oldTop.value)
          updates := s.updates + 1
          pops := s.pops + 1 }
      else some (s.goto t (.allocLoop s.snapshot))
    | _ => none
  | .callDeallocate t ptr =>
    match s.pc t with
    | .idle =>
      if ptr ∈ s.held then
        some { s.goto t (.deallocLoop ptr s.snapshot) with
          held := s.held.erase ptr
          returning := ptr :: s.returning }
      else none
    | _ => none
  | .storeNext t =>
    match s.pc t with
    | .deallocLoop ptr oldTop =>
      let newTop := packPtr ptr oldTop.value.tag
      some { s.goto t (.deallocCas ptr oldTop) with
        next := update s.next (extractPtr newTop) oldTop.value }
    | _ => none
  | .deallocCas t =>
    match s.pc t with
    | .deallocCas ptr oldTop =>
      if s.head = oldTop.value then
        some { s.goto t .idle with
          head := packPtr ptr oldTop.value.tag
          returning := s.returning.erase ptr
          updates := s.updates + 1 }
      else some (s.goto t (.deallocLoop ptr s.snapshot))
    | _ => none
  | .write ptr word =>
    if ptr ∈ s.held then some { s with next := update s.next ptr word } else none

inductive Stepped (s : State τ) : Action τ → State τ → Prop
  | callAllocate {t} (hpc : s.pc t = .idle) : Stepped s (.callAllocate t) (s.goto t (.allocLoop s.snapshot))
  | createMemoryBlock {t fresh oldTop} (hpc : s.pc t = .allocLoop oldTop)
      (hc : isNull oldTop.value ∧ KernelAddress fresh ∧ fresh ∉ s.obtained) :
    Stepped s (.createMemoryBlock t fresh) { s.giveTo t fresh with obtained := fresh :: s.obtained }
  | createFails {t oldTop} (hpc : s.pc t = .allocLoop oldTop) :
    Stepped s (.createFails t) { s.goto t .idle with result := update s.result t none }
  | readNext {t oldTop} (hpc : s.pc t = .allocLoop oldTop) (hnull : ¬isNull oldTop.value = true) :
    Stepped s (.readNext t) (s.goto t (.allocCas oldTop (extractPtr (s.next (extractPtr oldTop.value)))))
  | taken {t oldTop newTopPtr} (hpc : s.pc t = .allocCas oldTop newTopPtr) (heq : s.head = oldTop.value) :
    Stepped s (.allocCas t) { s.giveTo t (extractPtr oldTop.value) with
      head := packPtr newTopPtr (getNextTag oldTop.value)
      updates := s.updates + 1
      pops := s.pops + 1 }
  | reloaded {t oldTop newTopPtr} (hpc : s.pc t = .allocCas oldTop newTopPtr) :
    Stepped s (.allocCas t) (s.goto t (.allocLoop s.snapshot))
  | callDeallocate {t ptr} (hpc : s.pc t = .idle) (hheld : ptr ∈ s.held) :
    Stepped s (.callDeallocate t ptr) { s.goto t (.deallocLoop ptr s.snapshot) with
      held := s.held.erase ptr
      returning := ptr :: s.returning }
  | storeNext {t ptr oldTop} (hpc : s.pc t = .deallocLoop ptr oldTop) :
    Stepped s (.storeNext t) { s.goto t (.deallocCas ptr oldTop) with
      next := update s.next (extractPtr (packPtr ptr oldTop.value.tag)) oldTop.value }
  | put {t ptr oldTop} (hpc : s.pc t = .deallocCas ptr oldTop) (heq : s.head = oldTop.value) :
    Stepped s (.deallocCas t) { s.goto t .idle with
      head := packPtr ptr oldTop.value.tag
      returning := s.returning.erase ptr
      updates := s.updates + 1 }
  | delayed {t ptr oldTop} (hpc : s.pc t = .deallocCas ptr oldTop) :
    Stepped s (.deallocCas t) (s.goto t (.deallocLoop ptr s.snapshot))
  | write {ptr word} (hheld : ptr ∈ s.held) : Stepped s (.write ptr word) { s with next := update s.next ptr word }

theorem stepped {s s' : State τ} (hs : step s a = some s') : Stepped s a s' := by
  cases a <;> simp only [step] at hs <;> (repeat' split at hs) <;> cases hs
  all_goals constructor <;> assumption

end

def expected (s : State τ) : Action τ → Option Snapshot
  | .allocCas t =>
    match s.pc t with
    | .allocCas oldTop _ => some oldTop
    | _ => none
  | .deallocCas t =>
    match s.pc t with
    | .deallocCas _ oldTop => some oldTop
    | _ => none
  | _ => none

/-- Fewer than `2 ^ 16` updates lie between a load of the head and the compare-exchange. -/
def Window (s : State τ) (a : Action τ) : Prop :=
  (expected s a).all (fun oldTop => s.updates - oldTop.updates < 2 ^ 16) = true
deriving Decidable

def pushUnsafe (s : State τ) (ptr : Ptr) : State τ :=
  let newTop := packPtr ptr s.head.tag
  { s with
    next := update s.next (extractPtr newTop) (packPtr (extractPtr s.head) 0#16)
    head := newTop
    obtained := ptr :: s.obtained }

/-- An allocator before any block was created; the link words are whatever the
memory holds. -/
def empty (next : Ptr → CompressedPointer) : State τ :=
  ⟨⟨0, 0⟩, next, [], [], [], fun _ => .idle, fun _ => none, 0, 0⟩

/-- The constructor with the blocks that the underlying allocator returned. -/
def construct (next : Ptr → CompressedPointer) (blocks : List Ptr) : State τ :=
  blocks.foldl pushUnsafe (empty next)

@[simp] def popUnsafeWithoutAllocation (next : Ptr → CompressedPointer) (head : CompressedPointer) :
    Option (Ptr × CompressedPointer) :=
  if isNull head then none
  else
    let newTopPtr := extractPtr (next (extractPtr head))
    some (extractPtr head, packPtr newTopPtr (getNextTag head))

/-- The loop of the destructor: the blocks given back, in order; `none` when `fuel` iterations do
not end it. -/
def destroyBlocks (next : Ptr → CompressedPointer) : Nat → CompressedPointer → Option (List Ptr)
  | 0, _ => none
  | fuel + 1, head =>
    match popUnsafeWithoutAllocation next head with
    | none => some []
    | some (ptr, newTop) => (destroyBlocks next fuel newTop).map (ptr :: ·)

@[simp] def Pc.returns : Pc → Option Ptr
  | .deallocLoop ptr _ => some ptr
  | .deallocCas ptr _ => some ptr
  | _ => none

/-- The tag counts the removals before the load, and removals are updates. -/
structure Loaded (s : State τ) (oldTop : Snapshot) : Prop where
  tag : oldTop.value.tag = BitVec.ofNat 16 oldTop.pops
  pops : oldTop.pops ≤ s.pops
  updates : s.pops + oldTop.updates ≤ s.updates + oldTop.pops

/-- While no block was removed since the load, the loaded top is in `L` and its link is as read. -/
def PcInv (s : State τ) (L : List Ptr) : Pc → Prop
  | .idle => True
  | .allocLoop oldTop => Loaded s oldTop ∧ (s.pops = oldTop.pops → ∀ p, target oldTop.value = some p → p ∈ L)
  | .allocCas oldTop newTopPtr => Loaded s oldTop ∧ isNull oldTop.value = false ∧
      (s.pops = oldTop.pops → extractPtr oldTop.value ∈ L ∧ newTopPtr = extractPtr (s.next (extractPtr oldTop.value)))
  | .deallocLoop ptr oldTop => Loaded s oldTop ∧ ptr ∈ s.returning
  | .deallocCas ptr oldTop => Loaded s oldTop ∧ ptr ∈ s.returning ∧ s.next ptr = oldTop.value

structure Inv (s : State τ) (L : List Ptr) : Prop where
  linked : Linked (fun p => target (s.next p)) (target s.head) L
  conserved : (L ++ (s.held ++ s.returning)).Perm s.obtained
  nodup : s.obtained.Nodup
  kernel : ∀ p ∈ s.obtained, KernelAddress p
  tag : s.head.tag = BitVec.ofNat 16 s.pops
  thread : ∀ t, PcInv s L (s.pc t)
  exclusive : ∀ t t' p, (s.pc t).returns = some p → (s.pc t').returns = some p → t = t'

structure Blocks (s : State τ) (L : List Ptr) : Prop where
  linked : Linked (fun p => target (s.next p)) (target s.head) L
  conserved : (L ++ (s.held ++ s.returning)).Perm s.obtained
  nodup : s.obtained.Nodup
  kernel : ∀ p ∈ s.obtained, KernelAddress p
  tag : s.head.tag = BitVec.ofNat 16 s.pops

section

variable {s : State τ}

theorem Inv.blocks (h : Inv s L) : Blocks s L :=
  ⟨h.linked, h.conserved, h.nodup, h.kernel, h.tag⟩

theorem Blocks.take (h : Blocks s (p :: L)) : Blocks { s with
      head := packPtr (extractPtr (s.next p)) (getNextTag s.head)
      held := p :: s.held
      updates := s.updates + 1
      pops := s.pops + 1 } L where
  linked := by
    rw [target_packPtr_extractPtr]
    exact (linked_cons.mp h.linked).2
  conserved := List.perm_middle.trans h.conserved
  nodup := h.nodup
  kernel := h.kernel
  tag := by rw [packPtr_tag, getNextTag_eq, h.tag, BitVec.ofNat_add]

section

variable (h : Blocks s L)

include h

theorem Blocks.parts_nodup : (L ++ (s.held ++ s.returning)).Nodup :=
  h.conserved.nodup_iff.mpr h.nodup
theorem Blocks.free_not_held (hp : p ∈ L) : p ∉ s.held :=
  fun hh => (List.nodup_append.mp h.parts_nodup).2.2 p hp p (by simp [hh]) rfl
theorem Blocks.kernel_of_held (hp : p ∈ s.held) : KernelAddress p :=
  h.kernel p (h.conserved.mem_iff.mp (by simp [hp]))

theorem Blocks.linked_write (hnot : p ∉ L) (word : CompressedPointer) :
    Linked (fun q => target (update s.next p word q)) (target s.head) L := by
  refine h.linked.frame fun q hq => ?_
  have hne : q ≠ p := fun he => hnot (he ▸ hq)
  rw [update_of_ne hne]

theorem Blocks.write (hp : p ∈ s.held) (word : CompressedPointer) : Blocks { s with next := update s.next p word } L :=
  ⟨h.linked_write (fun hfree => h.free_not_held hfree hp) word, h.conserved, h.nodup, h.kernel, h.tag⟩

theorem Blocks.create (hk : KernelAddress p) (hfresh : p ∉ s.obtained) :
    Blocks { s with held := p :: s.held, obtained := p :: s.obtained } L where
  linked := h.linked
  conserved := List.perm_middle.trans (h.conserved.cons p)
  nodup := List.nodup_cons.mpr ⟨hfresh, h.nodup⟩
  kernel := List.forall_mem_cons.mpr ⟨hk, h.kernel⟩
  tag := h.tag

theorem Blocks.put (hp : p ∈ s.held) : Blocks { s with
      next := update s.next p s.head
      head := packPtr p s.head.tag
      held := s.held.erase p
      updates := s.updates + 1 } (p :: L) where
  linked := by
    simp only [linked_cons, target_packPtr _ _ (h.kernel_of_held hp), update_self]
    exact ⟨trivial, (h.write hp _).linked⟩
  conserved := by
    refine List.Perm.trans ?_ h.conserved
    refine List.perm_middle.symm.trans (.append_left L ?_)
    exact (List.perm_cons_erase hp).symm.append_right s.returning
  nodup := h.nodup
  kernel := h.kernel
  tag := h.tag

end

end

section

variable {s s' : State τ}

theorem Loaded.mono (h : Loaded s oldTop) (hp : s.pops ≤ s'.pops)
    (hu : s'.pops + s.updates ≤ s'.updates + s.pops) : Loaded s' oldTop := by
  refine ⟨h.tag, h.pops.trans hp, ?_⟩
  have := h.updates
  omega

theorem PcInv.mono (h : PcInv s L pc) (hp : s.pops ≤ s'.pops) (hu : s'.pops + s.updates ≤ s'.updates + s.pops)
    (hfree : s'.pops = s.pops → ∀ p ∈ L, p ∈ L' ∧ s'.next p = s.next p)
    (hret : ∀ p, pc.returns = some p → p ∈ s.returning → p ∈ s'.returning ∧ s'.next p = s.next p) :
    PcInv s' L' pc := by
  cases pc with
  | idle => trivial
  | allocLoop oldTop =>
    obtain ⟨hl, hmem⟩ := h
    refine ⟨hl.mono hp hu, fun heq p htgt => ?_⟩
    have hpop := hl.pops
    exact (hfree (by omega) p (hmem (by omega) p htgt)).1
  | allocCas oldTop newTopPtr =>
    obtain ⟨hl, hnull, hmem⟩ := h
    refine ⟨hl.mono hp hu, hnull, fun heq => ?_⟩
    have hpop := hl.pops
    obtain ⟨hin, hnew⟩ := hmem (by omega)
    obtain ⟨hin', hnext⟩ := hfree (by omega) _ hin
    exact ⟨hin', by rw [hnext, hnew]⟩
  | deallocLoop ptr oldTop =>
    obtain ⟨hl, hin⟩ := h
    exact ⟨hl.mono hp hu, (hret ptr rfl hin).1⟩
  | deallocCas ptr oldTop =>
    obtain ⟨hl, hin, hnext⟩ := h
    obtain ⟨hin', heq⟩ := hret ptr rfl hin
    exact ⟨hl.mono hp hu, hin', by rw [heq, hnext]⟩

theorem PcInv.congr (h : PcInv s L pc) (hp : s'.pops = s.pops) (hu : s'.updates = s.updates)
    (hn : s'.next = s.next) (hr : s'.returning = s.returning) : PcInv s' L pc :=
  h.mono hp.symm.le (by omega) (fun _ p hin => ⟨hin, by rw [hn]⟩)
    (fun p _ hin => ⟨by rw [hr]; exact hin, by rw [hn]⟩)

section

variable (h : Inv s L)

include h

theorem Inv.parts_nodup : (L ++ (s.held ++ s.returning)).Nodup :=
  h.blocks.parts_nodup

theorem Inv.free_not_owned (hp : p ∈ L) : p ∉ s.held ∧ p ∉ s.returning := by
  have hd := (List.nodup_append.mp h.parts_nodup).2.2
  constructor
  · intro hh
    exact hd p hp p (by simp [hh]) rfl
  · intro hr
    exact hd p hp p (by simp [hr]) rfl

theorem Inv.held_not_returning (hp : p ∈ s.held) : p ∉ s.returning := by
  have hn := (List.nodup_append.mp h.parts_nodup).2.1
  intro hr
  exact (List.nodup_append.mp hn).2.2 p hp p hr rfl

theorem Inv.kernel_of_mem (hp : p ∈ L ++ (s.held ++ s.returning)) : KernelAddress p :=
  h.kernel p (h.conserved.mem_iff.mp hp)
theorem Inv.loaded_snapshot : Loaded s s.snapshot :=
  ⟨h.tag, le_rfl, by simp [State.snapshot, Nat.add_comm]⟩

theorem Inv.snapshot_mem (hp : target s.head = some p) : p ∈ L := by
  have hl := h.linked
  rw [hp] at hl
  cases L with
  | nil => simp at hl
  | cons q L =>
    obtain ⟨hq, -⟩ := linked_cons.mp hl
    cases hq
    simp

theorem Inv.cons_of_head {oldTop : Snapshot} (hnull : isNull oldTop.value = false) (heq : s.head = oldTop.value) :
    ∃ L', L = extractPtr oldTop.value :: L' := by
  have hlinked := h.linked
  rw [heq, target, hnull] at hlinked
  cases L with
  | nil => simp at hlinked
  | cons p L' =>
    obtain ⟨hp, -⟩ := linked_cons.mp hlinked
    exact ⟨L', by rw [Option.some.inj hp]⟩

theorem Inv.pops_eq (hl : Loaded s oldTop) (hwin : s.updates - oldTop.updates < 2 ^ 16)
    (heq : s.head = oldTop.value) : s.pops = oldTop.pops := by
  have htag : BitVec.ofNat 16 oldTop.pops = BitVec.ofNat 16 s.pops := by
    rw [← hl.tag, ← heq, h.tag]
  have hu := hl.updates
  exact (ofNat_tag_inj hl.pops (by omega) htag).symm

theorem Inv.returns_mem (hp : (s.pc t).returns = some p) : p ∈ s.returning := by
  have hown := h.thread t
  cases hpc : s.pc t with
  | deallocLoop q oldTop =>
    rw [hpc] at hown hp
    cases hp
    exact hown.2
  | deallocCas q oldTop =>
    rw [hpc] at hown hp
    cases hp
    exact hown.2.1
  | _ => simp [hpc] at hp

end

end

section

variable [DecidableEq τ] {t : τ}

theorem exclusive_update {f : τ → Pc} (h : ∀ t t' p, (f t).returns = some p → (f t').returns = some p → t = t')
    (hnew : ∀ p, pc.returns = some p → ∀ t', t' ≠ t → (f t').returns ≠ some p) :
    ∀ t₁ t₂ p, (update f t pc t₁).returns = some p → (update f t pc t₂).returns = some p → t₁ = t₂ := by
  intro t₁ t₂ p h₁ h₂
  by_cases e₁ : t₁ = t <;> by_cases e₂ : t₂ = t
  · rw [e₁, e₂]
  · subst e₁
    rw [update_self] at h₁
    rw [update_of_ne e₂] at h₂
    exact absurd h₂ (hnew p h₁ t₂ e₂)
  · subst e₂
    rw [update_self] at h₂
    rw [update_of_ne e₁] at h₁
    exact absurd h₁ (hnew p h₂ t₁ e₁)
  · rw [update_of_ne e₁] at h₁
    rw [update_of_ne e₂] at h₂
    exact h t₁ t₂ p h₁ h₂

theorem Inv.goto (h : Inv s L) (hpc : PcInv s L pc)
    (hret : ∀ p, pc.returns = some p → (s.pc t).returns = some p) : Inv (s.goto t pc) L where
  linked := h.linked
  conserved := h.conserved
  nodup := h.nodup
  kernel := h.kernel
  tag := h.tag
  thread := by
    exact (forall_update_iff s.pc fun _ x => PcInv (s.goto t pc) L x).mpr
      ⟨hpc.congr rfl rfl rfl rfl, fun t' _ => (h.thread t').congr rfl rfl rfl rfl⟩
  exclusive := exclusive_update h.exclusive fun p hp t' hne hp' =>
    hne (h.exclusive t' t p hp' (hret p hp))

theorem Inv.idle (h : Inv s L) (t : τ) : Inv (s.goto t .idle) L :=
  h.goto trivial (by simp)

theorem Inv.create (h : Inv s L) (hk : KernelAddress fresh) (hfresh : fresh ∉ s.obtained) :
    Inv { s.giveTo t fresh with obtained := fresh :: s.obtained } L := by
  have hblocks := h.blocks.create hk hfresh
  exact ⟨hblocks.linked, hblocks.conserved, hblocks.nodup, hblocks.kernel, hblocks.tag,
    fun t' => ((h.idle t).thread t').congr rfl rfl rfl rfl, (h.idle t).exclusive⟩

theorem Inv.createFails (h : Inv s L) : Inv { s.goto t .idle with result := update s.result t none } L :=
  ⟨h.linked, h.conserved, h.nodup, h.kernel, h.tag,
    fun t' => ((h.idle t).thread t').congr rfl rfl rfl rfl, (h.idle t).exclusive⟩

theorem Inv.load (h : Inv s L) : Inv (s.goto t (.allocLoop s.snapshot)) L :=
  h.goto ⟨h.loaded_snapshot, fun _ p hp => h.snapshot_mem hp⟩ (by simp)

theorem Inv.readNext (h : Inv s L) (hpc : s.pc t = .allocLoop oldTop) (hnull : isNull oldTop.value = false) :
    Inv (s.goto t (.allocCas oldTop (extractPtr (s.next (extractPtr oldTop.value))))) L := by
  have hown := h.thread t
  rw [hpc] at hown
  refine h.goto ⟨hown.1, hnull, fun he => ⟨hown.2 he _ ?_, rfl⟩⟩ (by simp)
  simp [target, hnull]

theorem Inv.allocCas (h : Inv s (extractPtr oldTop.value :: L)) (hpc : s.pc t = .allocCas oldTop newTopPtr)
    (hwin : s.updates - oldTop.updates < 2 ^ 16) (heq : s.head = oldTop.value) :
    Inv { s.giveTo t (extractPtr oldTop.value) with
      head := packPtr newTopPtr (getNextTag oldTop.value)
      updates := s.updates + 1
      pops := s.pops + 1 } L := by
  have hown := h.thread t
  rw [hpc] at hown
  obtain ⟨hl, -, hread⟩ := hown
  obtain ⟨-, hnew⟩ := hread (h.pops_eq hl hwin heq)
  have hblocks := h.blocks.take
  rw [heq, ← hnew] at hblocks
  refine ⟨hblocks.linked, hblocks.conserved, hblocks.nodup, hblocks.kernel, hblocks.tag, fun t' => ?_,
    (h.idle t).exclusive⟩
  refine ((h.idle t).thread t').mono (Nat.le_succ _) ?_ ?_ (fun p _ hp => ⟨hp, rfl⟩)
  · simp
    omega
  · intro hpops
    simp at hpops

theorem Inv.callDeallocate (h : Inv s L) {ptr : Ptr} (hheld : ptr ∈ s.held) :
    Inv { s.goto t (.deallocLoop ptr s.snapshot) with
      held := s.held.erase ptr
      returning := ptr :: s.returning } L where
  linked := h.linked
  conserved := by
    refine List.Perm.trans ?_ h.conserved
    refine List.Perm.append_left L ?_
    exact List.perm_middle.trans ((List.perm_cons_erase hheld).symm.append_right s.returning)
  nodup := h.nodup
  kernel := h.kernel
  tag := h.tag
  thread := by
    refine (forall_update_iff s.pc fun _ x => PcInv _ L x).mpr ⟨?_, fun t' _ => ?_⟩
    · exact ⟨⟨h.loaded_snapshot.tag, h.loaded_snapshot.pops, h.loaded_snapshot.updates⟩, by simp⟩
    · exact (h.thread t').mono le_rfl (by simp [Nat.add_comm])
        (fun _ p hp => ⟨hp, rfl⟩) (fun p _ hp => ⟨by simp [hp], rfl⟩)
  exclusive := by
    refine exclusive_update h.exclusive fun p hp t' _ hp' => ?_
    simp only [Pc.returns, Option.some.injEq] at hp
    subst hp
    -- a block inside another `deallocate` is not held any more
    exact h.held_not_returning hheld (h.returns_mem hp')

theorem Inv.storeNext (h : Inv s L) {ptr : Ptr} (hpc : s.pc t = .deallocLoop ptr oldTop) :
    Inv { s.goto t (.deallocCas ptr oldTop) with
      next := update s.next ptr oldTop.value } L := by
  have hown := h.thread t
  rw [hpc] at hown
  have hnot : ptr ∉ L := fun hin => (h.free_not_owned hin).2 hown.2
  refine ⟨h.blocks.linked_write hnot _, h.conserved, h.nodup, h.kernel, h.tag, ?_, ?_⟩
  · refine (forall_update_iff s.pc fun _ x => PcInv _ L x).mpr ⟨?_, fun t' hne => ?_⟩
    · exact ⟨⟨hown.1.tag, hown.1.pops, hown.1.updates⟩, hown.2, update_self ..⟩
    · refine (h.thread t').mono le_rfl (by simp [Nat.add_comm]) ?_ ?_
      · intro _ p hp
        have hp' : p ≠ ptr := fun he => hnot (he ▸ hp)
        exact ⟨hp, update_of_ne hp' _ _⟩
      · intro p hret hp
        -- only this thread gives back `ptr`
        have hp' : p ≠ ptr := fun he =>
          hne (h.exclusive t' t ptr (he ▸ hret) (by rw [hpc, Pc.returns]))
        exact ⟨hp, update_of_ne hp' _ _⟩
  · refine exclusive_update h.exclusive fun p hp t' hne hp' => ?_
    cases hp
    exact hne (h.exclusive t' t ptr hp' (by rw [hpc, Pc.returns]))

theorem Inv.deallocCas (h : Inv s L) (hpc : s.pc t = .deallocCas ptr oldTop) (heq : s.head = oldTop.value) :
    Inv { s.goto t .idle with
      head := packPtr ptr oldTop.value.tag
      returning := s.returning.erase ptr
      updates := s.updates + 1 } (ptr :: L) := by
  have hown := h.thread t
  rw [hpc] at hown
  obtain ⟨hl, hin, hnext⟩ := hown
  have hk : KernelAddress ptr := h.kernel_of_mem (by simp [hin])
  refine ⟨?_, ?_, h.nodup, h.kernel, ?_, ?_, (h.idle t).exclusive⟩
  · rw [linked_cons, target_packPtr _ _ hk]
    refine ⟨rfl, ?_⟩
    change Linked (fun p => target (s.next p)) (target (s.next ptr)) L
    rw [hnext, ← heq]
    exact h.linked
  · refine List.Perm.trans ?_ h.conserved
    rw [List.cons_append, ← List.append_assoc, ← List.append_assoc]
    exact List.perm_middle.symm.trans ((List.perm_cons_erase hin).symm.append_left _)
  · rw [packPtr_tag, ← heq]
    exact h.tag
  · refine (forall_update_iff s.pc fun _ x => PcInv _ _ x).mpr ⟨trivial, fun t' hne => ?_⟩
    refine (h.thread t').mono le_rfl (by simp; omega) ?_ ?_
    · intro _ p hp
      exact ⟨by simp [hp], rfl⟩
    · intro p hret hp
      have hp' : p ≠ ptr := fun he =>
        hne (h.exclusive t' t ptr (he ▸ hret) (by rw [hpc, Pc.returns]))
      exact ⟨(List.mem_erase_of_ne hp').mpr hp, rfl⟩

omit [DecidableEq τ] in
theorem Inv.write (h : Inv s L) (hheld : ptr ∈ s.held) (word : CompressedPointer) :
    Inv { s with next := update s.next ptr word } L := by
  have hnot : ptr ∉ L := fun hin => (h.free_not_owned hin).1 hheld
  refine ⟨(h.blocks.write hheld word).linked, h.conserved, h.nodup, h.kernel, h.tag, fun t => ?_, h.exclusive⟩
  refine (h.thread t).mono le_rfl (Nat.add_comm ..).le ?_ ?_
  · intro _ p hp
    have hp' : p ≠ ptr := fun he => hnot (he ▸ hp)
    exact ⟨hp, update_of_ne hp' _ _⟩
  · intro p _ hp
    have hp' : p ≠ ptr := fun he => h.held_not_returning hheld (he ▸ hp)
    exact ⟨hp, update_of_ne hp' _ _⟩

/-- Every step in the window keeps the invariant. -/
theorem Inv.step (h : Inv s L) {a : Action τ} (hw : Window s a) (hs : step s a = some s') : ∃ L', Inv s' L' := by
  cases stepped hs with
  | callAllocate | reloaded => exact ⟨L, h.load⟩
  | createMemoryBlock _ hc => exact ⟨L, h.create hc.2.1 hc.2.2⟩
  | createFails => exact ⟨L, h.createFails⟩
  | readNext hpc hnull => exact ⟨L, h.readNext hpc (by simpa using hnull)⟩
  | @taken t _ _ hpc heq =>
    have hown := h.thread t
    rw [hpc] at hown
    obtain ⟨L', rfl⟩ := h.cons_of_head hown.2.1 heq
    exact ⟨L', h.allocCas hpc (by simpa [Window, expected, hpc] using hw) heq⟩
  | callDeallocate _ hheld => exact ⟨L, h.callDeallocate hheld⟩
  | storeNext hpc =>
    have hin := h.returns_mem (by rw [hpc, Pc.returns])
    rw [extractPtr_packPtr _ _ (h.kernel_of_mem (by simp [hin]))]
    exact ⟨L, h.storeNext hpc⟩
  | put hpc heq => exact ⟨_, h.deallocCas hpc heq⟩
  | delayed hpc =>
    have hin := h.returns_mem (by rw [hpc, Pc.returns])
    exact ⟨L, h.goto ⟨h.loaded_snapshot, hin⟩ (by simp [hpc])⟩
  | write hheld => exact ⟨L, h.write hheld _⟩

section

omit [DecidableEq τ]

theorem Inv.pushUnsafe (h : Inv s L) (hk : KernelAddress ptr) (hfresh : ptr ∉ s.obtained)
    (hidle : ∀ t, s.pc t = .idle) : Inv (NodeAllocator.pushUnsafe s ptr) (ptr :: L) := by
  have hnot : ptr ∉ L := fun hin => hfresh (h.conserved.mem_iff.mp (by simp [hin]))
  refine ⟨?_, ?_, List.nodup_cons.mpr ⟨hfresh, h.nodup⟩, ?_, h.tag, fun t => ?_, h.exclusive⟩
  · simp only [NodeAllocator.pushUnsafe, linked_cons, target_packPtr _ _ hk,
      extractPtr_packPtr _ _ hk, update_self, target_packPtr_extractPtr]
    exact ⟨trivial, h.blocks.linked_write hnot _⟩
  · exact h.conserved.cons ptr
  · intro p hp
    rcases List.mem_cons.mp hp with rfl | hp
    · exact hk
    · exact h.kernel p hp
  · have hpc : (NodeAllocator.pushUnsafe s ptr).pc t = .idle := hidle t
    rw [hpc]
    trivial

theorem construct_inv (next : Ptr → CompressedPointer) (blocks : List Ptr)
    (hnodup : blocks.Nodup) (hkernel : ∀ p ∈ blocks, KernelAddress p) :
    ∃ L, Inv (construct next blocks : State τ) L := by
  suffices hgen : ∀ (bs : List Ptr) (s : State τ) (L : List Ptr), Inv s L → (∀ t, s.pc t = .idle) →
      bs.Nodup → (∀ p ∈ bs, KernelAddress p ∧ p ∉ s.obtained) →
      ∃ L', Inv (bs.foldl NodeAllocator.pushUnsafe s) L' by
    refine hgen blocks (empty next) [] ?_ (fun _ => rfl) hnodup fun p hp => ⟨hkernel p hp, by simp [empty]⟩
    refine ⟨?_, ?_, ?_, ?_, rfl, fun t => trivial, ?_⟩ <;> simp [empty, target, isNull]
  intro bs
  induction bs with
  | nil => exact fun s L h _ _ _ => ⟨L, h⟩
  | cons b bs ih =>
    intro s L h hidle hn hb
    obtain ⟨hnot, hn⟩ := List.nodup_cons.mp hn
    obtain ⟨hk, hfresh⟩ := hb b (by simp)
    refine ih _ _ (h.pushUnsafe hk hfresh hidle) hidle hn fun p hp => ⟨(hb p (by simp [hp])).1, ?_⟩
    have hne : p ≠ b := fun he => hnot (he ▸ hp)
    simp [NodeAllocator.pushUnsafe, hne, (hb p (by simp [hp])).2]

theorem construct_idle (next : Ptr → CompressedPointer) (blocks : List Ptr) (t : τ) :
    (construct next blocks : State τ).pc t = .idle := by
  suffices hgen : ∀ (bs : List Ptr) (s : State τ), s.pc t = .idle →
      (bs.foldl NodeAllocator.pushUnsafe s).pc t = .idle from hgen blocks (empty next) rfl
  intro bs
  induction bs with
  | nil => exact fun s hs => hs
  | cons b bs ih => exact fun s hs => ih (NodeAllocator.pushUnsafe s b) hs

theorem construct_held (next : Ptr → CompressedPointer) (blocks : List Ptr) :
    (construct next blocks : State τ).held = [] := by
  suffices hgen : ∀ (bs : List Ptr) (s : State τ), (bs.foldl NodeAllocator.pushUnsafe s).held = s.held
    from hgen blocks (empty next)
  intro bs
  induction bs with
  | nil => exact fun s => rfl
  | cons b bs ih => exact fun s => ih (NodeAllocator.pushUnsafe s b)

end

theorem destroyBlocks_linked (h : Linked (fun p => target (next p)) (target head) L) (hfuel : L.length < fuel) :
    destroyBlocks next fuel head = some L := by
  induction fuel generalizing L head with
  | zero => omega
  | succ fuel ih =>
    cases hnull : isNull head with
    | true =>
      rw [target, if_pos hnull, linked_none] at h
      simp [destroyBlocks, hnull, h]
    | false =>
      rw [target, if_neg (by simp [hnull])] at h
      cases L with
      | nil => simp at h
      | cons p L =>
        obtain ⟨hp, hrest⟩ := linked_cons.mp h
        rw [Option.some.injEq] at hp
        have hlen : L.length < fuel := by simpa using hfuel
        have hnext : destroyBlocks next fuel (packPtr (extractPtr (next p)) (getNextTag head)) =
            some L := ih (by simpa using hrest) hlen
        simp [destroyBlocks, hnull, hp, hnext]

/-- `L` is what the free list links, every obtained block is linked or owned but not both, nothing
is linked or owned twice, and the destructor would give back exactly the linked blocks. -/
structure Accounted (s : State τ) (L : List Ptr) : Prop where
  linked : Linked (fun p => target (s.next p)) (target s.head) L
  linkedOnce : L.Nodup
  ownedOnce : (s.held ++ s.returning).Nodup
  oneCaller : ∀ t t' p, (s.pc t).returns = some p → (s.pc t').returns = some p → t = t'
  either : ∀ p, p ∈ s.obtained ↔ (p ∈ L ∧ p ∉ s.held ++ s.returning) ∨ (p ∉ L ∧ p ∈ s.held ++ s.returning)
  obtainedOnce : s.obtained.Nodup
  destroyed : ∀ fuel, L.length < fuel → destroyBlocks s.next fuel s.head = some L

omit [DecidableEq τ] in
theorem Inv.accounted (h : Inv s L) : Accounted s L := by
  obtain ⟨hl, ho, hd⟩ := List.nodup_append.mp h.parts_nodup
  refine ⟨h.linked, hl, ho, h.exclusive, fun p => ?_, h.nodup, fun fuel => destroyBlocks_linked h.linked⟩
  rw [← h.conserved.mem_iff, List.mem_append]
  constructor
  · rintro (hp | hp)
    · exact .inl ⟨hp, fun hq => hd p hp p hq rfl⟩
    · exact .inr ⟨fun hq => hd p hq p hp rfl, hp⟩
  · rintro (hp | hp)
    · exact .inl hp.1
    · exact .inr hp.2

/-- Every interleaving of `allocate` and `deallocate` calls keeps all blocks accounted for. -/
theorem blocks_accounted (next : Ptr → CompressedPointer) (blocks : List Ptr)
    (hnodup : blocks.Nodup) (hkernel : ∀ p ∈ blocks, KernelAddress p)
    {actions : List (Action τ)} (h : Run step Window (construct next blocks) actions s) :
    ∃ L, Accounted s L := by
  have hinv : ∃ L, Inv s L := by
    refine h.invariant (I := fun s => ∃ L, Inv s L) ?_ (construct_inv next blocks hnodup hkernel)
    rintro s a s' ⟨L, hL⟩ hw hs
    exact hL.step hw hs
  obtain ⟨L, hL⟩ := hinv
  exact ⟨L, hL.accounted⟩

/-- Two threads race for one block; the loser creates another and both give
their blocks back. -/
def raceForBlock : List (Action Nat) :=
  [.callAllocate 0, .callAllocate 1, .readNext 0, .readNext 1, .allocCas 0, .allocCas 1,
    .createMemoryBlock 1 0xFFFF800000002000#64, .write 0xFFFF800000001000#64 ⟨7, 7⟩,
    .callDeallocate 0 0xFFFF800000001000#64, .storeNext 0, .deallocCas 0,
    .callDeallocate 1 0xFFFF800000002000#64, .storeNext 1, .deallocCas 1]

theorem blocks_accounted_race :
    ∃ s L, Run step Window (construct (fun _ => ⟨0, 0⟩) [0xFFFF800000001000#64]) raceForBlock s ∧
      Accounted s L := by
  have hsome : (exec step Window (construct (fun _ => ⟨0, 0⟩) [0xFFFF800000001000#64])
      raceForBlock).isSome = true := by decide +kernel
  have hkernel : ∀ p ∈ [0xFFFF800000001000#64], KernelAddress p := by
    intro p hp
    rw [List.mem_singleton] at hp
    subst hp
    exact ⟨by decide +kernel, by decide +kernel⟩
  obtain ⟨s, hrun⟩ := exists_run_of_exec hsome
  obtain ⟨L, hL⟩ := blocks_accounted _ _ (by simp) hkernel hrun
  exact ⟨s, L, hrun, hL⟩

end

end Ktl.NodeAllocator
