import Ktl.HashTableMap
import Mathlib.Algebra.BigOperators.Group.Finset.Piecewise

/-!
Several tables and one heap. The operations on the content keep the blocks and their owners
in step, and so do copies and moves into tables that own nothing. A table that owns blocks
cannot give them back: `destroy` forgets the size of the array, `reset` that of the chunks.
-/
namespace Ktl.HashTable

open Relation Runs Function List Option

variable {α β : Type*} {c : Config α} {source : Table α β}  {heap : Heap}

/-! ## Accounts -/

/-- The live blocks are those that are owned, and nothing was released wrongly. -/
structure Accounts (heap : Heap) (owned : Multiset Block) : Prop where
  wrong : heap.wrong = []
  live : (heap.live : Multiset Block) = owned
  ids : (owned.map Block.id).Nodup
  older : ∀ block ∈ owned, block.id < heap.next

namespace Accounts

theorem allocate (h : Accounts heap owned) (allocator bytes : Nat) :
    Accounts (heap.allocate allocator bytes) (⟨allocator, heap.next, bytes⟩ ::ₘ owned) := by
  constructor
  · exact h.wrong
  · rw [← h.live]
    rfl
  · rw [Multiset.map_cons, Multiset.nodup_cons]
    refine ⟨?_, h.ids⟩
    intro hmem
    obtain ⟨block, hblock, hid⟩ := Multiset.mem_map.mp hmem
    exact absurd hid (h.older block hblock).ne
  · intro block hblock
    rcases Multiset.mem_cons.mp hblock with rfl | hblock
    · exact Nat.lt_succ_self heap.next
    · exact (h.older block hblock).trans (Nat.lt_succ_self heap.next)

theorem deallocate (h : Accounts heap (block ::ₘ owned)) : Accounts (heap.deallocate block) owned := by
  have hmem : block ∈ heap.live := by
    rw [← Multiset.mem_coe, h.live]
    exact Multiset.mem_cons_self block owned
  have hids := h.ids
  rw [Multiset.map_cons, Multiset.nodup_cons] at hids
  rw [Heap.deallocate, if_pos hmem]
  constructor
  · exact h.wrong
  · rw [← Multiset.coe_erase, h.live, Multiset.erase_cons_head]
  · exact hids.2
  · intro other hother
    exact h.older other (Multiset.mem_cons_of_mem hother)

theorem deallocate_wrong (h : Accounts heap owned) (hblock : block ∈ owned) (hbytes : bytes ≠ block.bytes) :
    (heap.deallocate ⟨block.allocator, block.id, bytes⟩).wrong ≠ [] := by
  have hnot : (⟨block.allocator, block.id, bytes⟩ : Block) ∉ heap.live := by
    intro hmem
    rw [← Multiset.mem_coe, h.live] at hmem
    have hsame := Multiset.inj_on_of_nodup_map h.ids _ hmem _ hblock rfl
    exact hbytes (congrArg Block.bytes hsame)
  rw [Heap.deallocate, if_neg hnot]
  exact cons_ne_nil _ _

end Accounts

theorem Heap.deallocate_wrong_ne_nil (h : heap.wrong ≠ []) : (heap.deallocate block).wrong ≠ [] := by
  rw [Heap.deallocate]
  split
  · exact h
  · exact cons_ne_nil _ _

/-! ## What a table owns -/

def arrayBlocks (c : Config α) (t : Table α β) : Multiset Block :=
  if t.mask = 0 then 0 else {⟨t.pool.allocator, t.array, c.calcNumBytesTotal (slotCount c t)⟩}

/-- The array, and a block for each chunk, which has space for a cell and the list. -/
def Owns (c : Config α) (t : Table α β) (mine : Multiset Block) : Prop :=
  ∃ chunks : List Block, mine = arrayBlocks c t + (chunks : Multiset Block) ∧ chunks.map Block.id = t.pool.listForFree ∧
    ∀ block ∈ chunks, block.allocator = t.pool.allocator ∧ c.alignedSize < block.bytes

theorem owns_zero (hmask : t.mask = 0) (hchunks : t.pool.listForFree = []) : Owns c t mine ↔ mine = 0 := by
  have harray : arrayBlocks c t = 0 := if_pos hmask
  constructor
  · rintro ⟨chunks, rfl, hids, _⟩
    rw [hchunks, map_eq_nil_iff] at hids
    rw [harray, hids]
    rfl
  · rintro rfl
    refine ⟨[], ?_, hchunks.symm, fun _ hblock => absurd hblock not_mem_nil⟩
    rw [harray]
    rfl

theorem Owns.congr (hmask : t'.mask = t.mask) (harray : t.mask ≠ 0 → t'.array = t.array)
    (hallocator : t'.pool.allocator = t.pool.allocator) (hchunks : t'.pool.listForFree = t.pool.listForFree)
    (h : Owns c t mine) : Owns c t' mine := by
  obtain ⟨chunks, hmine, hids, hblocks⟩ := h
  have hblocks' : arrayBlocks c t' = arrayBlocks c t := by
    rw [arrayBlocks, arrayBlocks, slotCount, slotCount, hmask, hallocator]
    split_ifs with hne
    · rfl
    · rw [harray hne]
  refine ⟨chunks, by rw [hblocks', hmine], by rw [hchunks, hids], ?_⟩
  rw [hallocator]
  exact hblocks

theorem le_calcNumElementsToAlloc (chunks : List Nat) (numAllocs : Nat) :
    numAllocs ≤ calcNumElementsToAlloc chunks numAllocs := by
  induction chunks generalizing numAllocs with
  | nil => exact le_rfl
  | cons chunk rest ih =>
    rw [calcNumElementsToAlloc]
    split
    · exact (Nat.le_mul_of_pos_right numAllocs (by decide)).trans (ih (numAllocs * 2))
    · exact le_rfl

theorem Owns.poolAdd (h : Owns c s.toTable mine) (hbytes : c.alignedSize < bytes) (id : Nat) :
    Owns c (poolAdd c s id bytes).toTable (⟨s.pool.allocator, id, bytes⟩ ::ₘ mine) := by
  obtain ⟨chunks, rfl, hids, hblocks⟩ := h
  refine ⟨⟨s.pool.allocator, id, bytes⟩ :: chunks, ?_, ?_, ?_⟩
  · rw [← Multiset.cons_coe, Multiset.add_cons]
    rfl
  · rw [map_cons, hids]
    rfl
  · intro block hblock
    rcases mem_cons.mp hblock with rfl | hblock
    · exact ⟨rfl, hbytes⟩
    · exact hblocks block hblock

theorem StorageStep.owns (h : StorageStep c s s') (howns : Owns c s.toTable mine)
    (haccounts : Accounts s.heap (mine + others)) :
    ∃ mine', Owns c s'.toTable mine' ∧ Accounts s'.heap (mine' + others) := by
  cases h with
  | same h =>
    refine ⟨mine, howns.congr h.mask (fun _ => h.array) h.allocator h.chunks, ?_⟩
    rw [h.heap]
    exact haccounts
  | chunk =>
    have hcells := le_calcNumElementsToAlloc s.pool.listForFree 4
    have hbytes : c.alignedSize < c.alignment + c.alignedSize * calcNumElementsToAlloc s.pool.listForFree 4 := by
      have halignment := c.alignment_pos
      have := Nat.mul_le_mul_left c.alignedSize (Nat.le_trans (show 1 ≤ 4 by decide) hcells)
      omega
    refine ⟨_, Owns.poolAdd (s := { s with heap := _ }) howns hbytes s.heap.next, ?_⟩
    rw [Multiset.cons_add]
    exact haccounts.allocate _ _
  | @array new numBuckets hmask hpos hstorage =>
    obtain ⟨_, harray, hpool, hheap⟩ := hstorage
    obtain ⟨chunks, rfl, hids, hblocks⟩ := howns
    -- the new array
    have hnew : arrayBlocks c new.toTable = {⟨s.pool.allocator, s.heap.next,
        c.calcNumBytesTotal (c.calcNumElementsWithBuffer numBuckets)⟩} := by
      rw [arrayBlocks, if_neg hpos, slotCount, hmask, harray, hpool]
      rfl
    have howns' : Owns c new.toTable (arrayBlocks c new.toTable + (chunks : Multiset Block)) := by
      refine ⟨chunks, rfl, ?_, ?_⟩
      · rw [hpool]
        exact hids
      · rw [hpool]
        exact hblocks
    have haccounts' : Accounts new.heap
        (arrayBlocks c s.toTable + (arrayBlocks c new.toTable + (chunks : Multiset Block) + others)) := by
      have hallocate := haccounts.allocate s.pool.allocator
        (c.calcNumBytesTotal (c.calcNumElementsWithBuffer numBuckets))
      rw [hheap, hnew, Multiset.singleton_add, Multiset.cons_add, Multiset.add_cons, ← add_assoc]
      exact hallocate
    by_cases hzero : s.mask = 0
    · have hold : arrayBlocks c s.toTable = 0 := if_pos hzero
      rw [hold, zero_add] at haccounts'
      rw [dropArray, if_pos hzero]
      exact ⟨_, howns', haccounts'⟩
    -- the old one
    have hold : arrayBlocks c s.toTable
        = {⟨new.pool.allocator, s.array, c.calcNumBytesTotal (slotCount c s.toTable)⟩} := by
      rw [hpool]
      exact if_neg hzero
    rw [hold, Multiset.singleton_add] at haccounts'
    rw [dropArray, if_neg hzero, addOrFree]
    split_ifs with hlarge
    · exact ⟨_, howns', haccounts'.deallocate⟩
    · have halignment := c.alignment_pos
      refine ⟨_, howns'.poolAdd (by omega) s.array, ?_⟩
      rw [Multiset.cons_add]
      exact haccounts'

theorem owns_of_stored (h : Stored c s s') (howns : Owns c s.toTable mine)
    (haccounts : Accounts s.heap (mine + others)) :
    ∃ mine', Owns c s'.toTable mine' ∧ Accounts s'.heap (mine' + others) := by
  induction h with
  | refl => exact ⟨mine, howns, haccounts⟩
  | tail _ hstep ih =>
    obtain ⟨mine', howns', haccounts'⟩ := ih
    exact hstep.owns howns' haccounts'

/-! ## Lifetimes -/

def Held (c : Config α) : Option (Table α β) → Multiset Block → Prop
  | none, mine => mine = 0
  | some t, mine => Inv c t ∧ Owns c t mine

def OwnedBy (c : Config α) (t : Table α β) (block : Block) : Prop :=
  block.allocator = t.pool.allocator ∧
    (t.mask ≠ 0 ∧ block.id = t.array ∧ block.bytes = c.calcNumBytesTotal (slotCount c t) ∨
      block.id ∈ t.pool.listForFree)

theorem Held.ownedBy {t : Option (Table α β)} (h : Held c t mine) (hblock : block ∈ mine) :
    ∃ t', t = some t' ∧ OwnedBy c t' block := by
  cases t with
  | none =>
    obtain rfl : mine = 0 := h
    exact absurd hblock (Multiset.notMem_zero block)
  | some t =>
    obtain ⟨_, chunks, rfl, hids, hblocks⟩ := h
    refine ⟨t, rfl, ?_⟩
    rcases Multiset.mem_add.mp hblock with harray | hchunk
    · by_cases hmask : t.mask = 0
      · rw [arrayBlocks, if_pos hmask] at harray
        exact absurd harray (Multiset.notMem_zero block)
      · rw [arrayBlocks, if_neg hmask, Multiset.mem_singleton] at harray
        rw [harray]
        exact ⟨rfl, .inl ⟨hmask, rfl, rfl⟩⟩
    · rw [Multiset.mem_coe] at hchunk
      exact ⟨(hblocks block hchunk).1, .inr (hids ▸ mem_map_of_mem hchunk)⟩

theorem held_emptyTable (c : Config α) (hchunks : pool.listForFree = []) :
    Held c (some (emptyTable pool : Table α β)) 0 :=
  ⟨.inl ⟨rfl, rfl, rfl, rfl, rfl, rfl, rfl⟩, (owns_zero rfl hchunks).mpr rfl⟩

theorem cloneNodes_toTable (slots : List Nat) (s : State α β) :
    (cloneNodes c slots s).toTable = { s.toTable with pool := (cloneNodes c slots s).pool } := by
  induction slots generalizing s with
  | nil => rfl
  | cons idx rest ih =>
    rw [cloneNodes, ih]
    split
    · rw [newNode_toTable]
    · rfl

theorem cloneNodes_stored (slots : List Nat) (s : State α β) : Stored c s (cloneNodes c slots s) := by
  induction slots generalizing s with
  | nil => exact .refl
  | cons idx rest ih =>
    rw [cloneNodes]
    split
    · exact (newNode_stored c s).trans (ih _)
    · exact ih s

theorem cloneData_held (h : Layout c source) (howns : Owns c { source with array := s.array, pool := s.pool } mine)
    (haccounts : Accounts s.heap (mine + others)) :
    ∃ mine', Held c (some (cloneData c source s).toTable) mine' ∧
      Accounts (cloneData c source s).heap (mine' + others) := by
  obtain ⟨mine', howns', haccounts'⟩ := owns_of_stored (cloneNodes_stored (range (slotCount c source))
    { source with array := s.array, pool := s.pool, heap := s.heap }) howns haccounts
  refine ⟨mine', ⟨.inr ?_, howns'⟩, haccounts'⟩
  rw [cloneData, cloneNodes_toTable]
  exact h.withStorage _ _

theorem Owns.allocateArray (h : Owns c t mine) (hmask : t.mask = 0) (hsrc : source.mask ≠ 0)
    (hallocator : pool.allocator = t.pool.allocator) (hchunks : pool.listForFree = t.pool.listForFree) (id : Nat) :
    Owns c { source with array := id, pool := pool }
      (⟨pool.allocator, id, c.calcNumBytesTotal (slotCount c source)⟩ ::ₘ mine) := by
  obtain ⟨chunks, rfl, hids, hblocks⟩ := h
  have hold : arrayBlocks c t = 0 := if_pos hmask
  have hnew : arrayBlocks c { source with array := id, pool := pool }
      = {⟨pool.allocator, id, c.calcNumBytesTotal (slotCount c source)⟩} := if_neg hsrc
  refine ⟨chunks, ?_, by rw [hids]; exact hchunks.symm, ?_⟩
  · rw [hold, zero_add, hnew, Multiset.singleton_add]
  · intro block hblock
    rw [hallocator]
    exact hblocks block hblock

theorem copyConstruct_held (hinv : Inv c source) (defaultAllocator : Nat) (haccounts : Accounts heap others) :
    ∃ mine, Held c (some (copyConstruct c defaultAllocator source heap).toTable) mine ∧
      Accounts (copyConstruct c defaultAllocator source heap).heap (mine + others) := by
  obtain ⟨pool, hpool⟩ : ∃ pool : Pool,
      pool = ⟨if c.isFlat then source.pool.allocator else defaultAllocator, [], 0⟩ := ⟨_, rfl⟩
  have hempty : pool.listForFree = [] := by rw [hpool]
  rw [copyConstruct]
  dsimp only
  rw [← hpool]
  by_cases hzero : source.numElements = 0
  · rw [if_pos hzero]
    refine ⟨0, held_emptyTable c hempty, ?_⟩
    rw [zero_add]
    exact haccounts
  · rw [if_neg hzero]
    have h := hinv.resolve_left fun hfresh => hzero hfresh.numElements
    have hpos := h.mask_pos
    have howns : Owns c (emptyTable pool : Table α β) 0 := (owns_zero rfl hempty).mpr rfl
    refine cloneData_held h (howns.allocateArray rfl (by omega) rfl rfl heap.next) ?_
    rw [Multiset.cons_add, zero_add]
    exact haccounts.allocate _ _

/-- The target has no array or one of the same size, and keeps its allocator. -/
def CopyAssignable (c : Config α) (source target : Table α β) : Prop :=
  if source.numElements = 0 then target.mask = 0
  else (target.mask = source.mask ∨ target.mask = 0) ∧ (c.isFlat = true → target.pool.allocator = source.pool.allocator)

theorem copyAssign_held (hinv : Inv c source) (hok : CopyAssignable c source s.toTable)
    (hheld : Held c (some s.toTable) mine) (haccounts : Accounts s.heap (mine + others)) :
    ∃ mine', Held c (some (copyAssign c source s).toTable) mine' ∧
      Accounts (copyAssign c source s).heap (mine' + others) := by
  rw [CopyAssignable] at hok
  rw [copyAssign]
  by_cases hzero : source.numElements = 0
  · rw [if_pos hzero] at hok ⊢
    rw [if_pos hok]
    exact ⟨mine, hheld, haccounts⟩
  · rw [if_neg hzero] at hok ⊢
    obtain ⟨hmask, hallocator⟩ := hok
    have h := hinv.resolve_left fun hfresh => hzero hfresh.numElements
    have hpos := h.mask_pos
    obtain ⟨hown, hchunks⟩ := destroyNodes_pool c s.toTable
    have hpool : (assignPool c source.pool (destroyNodes c s.toTable).pool).allocator = s.pool.allocator ∧
        (assignPool c source.pool (destroyNodes c s.toTable).pool).listForFree = s.pool.listForFree := by
      rw [assignPool]
      split_ifs with hflat
      · exact ⟨(hallocator hflat).symm, hchunks⟩
      · exact ⟨hown, hchunks⟩
    dsimp only
    by_cases hsame : s.mask = source.mask
    · rw [if_pos (show (destroyNodes c s.toTable).mask = source.mask from hsame)]
      exact cloneData_held h (hheld.2.congr hsame.symm (fun _ => rfl) hpool.1 hpool.2) haccounts
    · have hnone := hmask.resolve_left hsame
      rw [if_neg (show (destroyNodes c s.toTable).mask ≠ source.mask from hsame),
        if_pos (show (destroyNodes c s.toTable).mask = 0 from hnone)]
      refine cloneData_held h (hheld.2.allocateArray hnone (by omega) hpool.1 hpool.2 s.heap.next) ?_
      rw [Multiset.cons_add, hpool.1, ← hown]
      exact haccounts.allocate _ _

theorem moveConstruct_held (hheld : Held c (some source) mine) :
    Held c (some (moveConstruct source).1) mine ∧ Held c (some (moveConstruct source).2) 0 := by
  obtain ⟨hinv, howns⟩ := hheld
  rw [moveConstruct]
  by_cases hmask : source.mask = 0
  · rw [if_pos hmask]
    refine ⟨⟨.inl ⟨rfl, rfl, rfl, rfl, rfl, rfl, rfl⟩, ?_⟩, hinv.withPool _, ?_⟩
    · exact howns.congr hmask.symm (fun hne => absurd hmask hne) rfl rfl
    · exact (owns_zero (t := { source with pool := source.pool.moved }) hmask rfl).mpr rfl
  · rw [if_neg hmask]
    exact ⟨⟨hinv, howns⟩, held_emptyTable c rfl⟩

def Bare (t : Table α β) : Prop := t.mask = 0 ∧ t.pool.listForFree = []

theorem Bare.destructor_eq (h : Bare s.toTable) : destructor c s = s.heap := by
  rw [destructor, destroy, if_pos h.1, resetPool]
  dsimp only
  rw [h.2]
  rfl

theorem Bare.eq_zero (h : Bare t) (hheld : Held c (some t) mine) : mine = 0 :=
  (owns_zero h.1 h.2).mp hheld.2

theorem foldl_deallocate_wrong (chunks : List Nat) (h : heap.wrong ≠ []) :
    (chunks.foldl (fun heap chunk => heap.deallocate ⟨allocator, chunk, bytes⟩) heap).wrong ≠ [] := by
  induction chunks generalizing heap with
  | nil => exact h
  | cons chunk rest ih => exact ih (Heap.deallocate_wrong_ne_nil h)

theorem destructor_wrong (hheld : Held c (some s.toTable) mine) (haccounts : Accounts s.heap (mine + others))
    (hbare : ¬ Bare s.toTable) : (destructor c s).wrong ≠ [] := by
  obtain ⟨hinv, chunks, rfl, hids, hblocks⟩ := hheld
  rw [destructor, resetPool]
  by_cases hmask : s.mask = 0
  · have hdestroy : destroy c s = s := if_pos hmask
    rw [hdestroy]
    cases chunks with
    | nil => exact absurd ⟨hmask, hids.symm⟩ hbare
    | cons block rest =>
      obtain ⟨hallocator, hbytes⟩ := hblocks block mem_cons_self
      have hmem : block ∈ arrayBlocks c s.toTable + ((block :: rest : List Block) : Multiset Block) + others :=
        Multiset.mem_add.mpr (.inl (Multiset.mem_add.mpr (.inr mem_cons_self)))
      have hwrong := haccounts.deallocate_wrong hmem hbytes.ne
      dsimp only
      rw [← hids, map_cons, foldl_cons, ← hallocator]
      exact foldl_deallocate_wrong _ hwrong
  · have h := hinv.resolve_left fun hfresh => hmask hfresh.mask
    obtain ⟨block, hblock⟩ : ∃ block : Block,
        block = ⟨s.pool.allocator, s.array, c.calcNumBytesTotal (slotCount c s.toTable)⟩ := ⟨_, rfl⟩
    have harray : arrayBlocks c s.toTable = {block} := by
      rw [hblock]
      exact if_neg hmask
    have hmem : block ∈ arrayBlocks c s.toTable + (chunks : Multiset Block) + others := by
      rw [harray]
      exact Multiset.mem_add.mpr (.inl (Multiset.mem_add.mpr (.inl (Multiset.mem_singleton_self block))))
    have hbytes : 0 ≠ block.bytes := by
      have htotal := Config.calcNumBytesTotal_eq h.room
      rw [hblock, slotCount]
      dsimp only
      omega
    have hwrong := haccounts.deallocate_wrong hmem hbytes
    have hdestroy : destroy c s = { s with
        numElements := 0
        heap := s.heap.deallocate ⟨s.pool.allocator, s.array, 0⟩ } := by
      rw [destroy, if_neg hmask]
      dsimp only
      rw [Nat.zero_mul, Nat.zero_mod]
    rw [hdestroy]
    rw [hblock] at hwrong
    exact foldl_deallocate_wrong _ hwrong

/-! ## Runs with several tables -/

structure World (α β : Type*) where
  tables : Nat → Option (Table α β)
  created : Nat
  heap : Heap

inductive Action (α β : Type*) where
  | create (allocator : Nat)
  | operate (i : Nat) (op : Op α β)
  | copyConstruct (source defaultAllocator : Nat)
  | moveConstruct (source : Nat)
  | copyAssign (i source : Nat)
  | moveAssign (i source : Nat)
  | destroy (i : Nat)
  deriving DecidableEq

namespace World

def initial : World α β := ⟨fun _ => none, 0, ⟨0, [], []⟩⟩

def put (w : World α β) (i : Nat) (t : Option (Table α β)) (heap : Heap) : World α β :=
  { w with tables := update w.tables i t, heap := heap }

@[simp]
theorem put_self (w : World α β) (i : Nat) (t : Option (Table α β)) (heap : Heap) :
    (w.put i t heap).tables i = t := update_self ..
theorem put_of_ne {w : World α β} (hk : k ≠ i) (t : Option (Table α β)) (heap : Heap) :
    (w.put i t heap).tables k = w.tables k := update_of_ne hk ..

theorem put_put (w : World α β) (i : Nat) (t t' : Option (Table α β)) (heap heap' heap'' : Heap) :
    ({ w.put i t heap with heap := heap' } : World α β).put i t' heap'' = w.put i t' heap'' := by
  rw [put, put, put]
  dsimp only
  rw [update_idem]

def more (w : World α β) : World α β := { w with created := w.created + 1 }

def step [Inhabited β] (c : Config α) (w : World α β) : Action α β → Option (World α β)
  | .create allocator => some (w.more.put w.created (some (emptyTable ⟨allocator, [], 0⟩)) w.heap)
  | .operate i op =>
    (w.tables i).bind fun t => (HashTable.step c { t with heap := w.heap } op).map fun s =>
      w.put i (some s.toTable) s.heap
  | .copyConstruct source defaultAllocator =>
    (w.tables source).map fun source =>
      let s := HashTable.copyConstruct c defaultAllocator source w.heap
      w.more.put w.created (some s.toTable) s.heap
  | .moveConstruct i =>
    (w.tables i).map fun source =>
      let (t, source) := HashTable.moveConstruct source
      (w.more.put i (some source) w.heap).put w.created (some t) w.heap
  | .copyAssign i j =>
    (w.tables i).bind fun t => (w.tables j).map fun source =>
      if i = j then w
      else
        let s := HashTable.copyAssign c source { t with heap := w.heap }
        w.put i (some s.toTable) s.heap
  | .moveAssign i j =>
    (w.tables i).bind fun t => (w.tables j).map fun source =>
      if i = j then w
      else
        let (s, source) := HashTable.moveAssign c source { t with heap := w.heap }
        (w.put j (some source) w.heap).put i (some s.toTable) s.heap
  | .destroy i => (w.tables i).map fun t => w.put i none (destructor c { t with heap := w.heap })

def Orderly (c : Config α) (w : World α β) : Action α β → Prop
  | .create _ | .copyConstruct _ _ | .moveConstruct _ => True
  | .operate i op => ∀ t, w.tables i = some t → Valid c t op ∧ Safe c t op
  | .copyAssign i j => i = j ∨ ∀ t source, w.tables i = some t → w.tables j = some source → CopyAssignable c source t
  | .moveAssign i j => i = j ∨ ∀ t source, w.tables i = some t → w.tables j = some source → source.mask = 0 ∨ Bare t
  | .destroy i => ∀ t, w.tables i = some t → Bare t

def Balanced (c : Config α) (w : World α β) (loose : Multiset Block) : Prop :=
  ∃ share : Nat → Multiset Block, (∀ i, Held c (w.tables i) (share i)) ∧
    Accounts w.heap (loose + ∑ i ∈ Finset.range w.created, share i) ∧
    ∀ i, w.created ≤ i → w.tables i = none

variable {w : World α β}

theorem sum_update (hi : i < n) (mine : Multiset Block) : ∑ k ∈ Finset.range n, update share i mine k
      = mine + ∑ k ∈ (Finset.range n).erase i, share k := by
  rw [Finset.sum_update_of_mem (Finset.mem_range.mpr hi), Finset.sdiff_singleton_eq_erase]

theorem put_held {t : Option (Table α β)} (hheld : ∀ k, Held c (w.tables k) (share k)) (ht : Held c t mine)
    (heap : Heap) (k : Nat) : Held c ((w.put i t heap).tables k) (update share i mine k) := by
  by_cases hk : k = i
  · rw [hk, put_self, update_self]
    exact ht
  · rw [put_of_ne hk, update_of_ne hk]
    exact hheld k

theorem put_none {t : Option (Table α β)} (hnone : ∀ k, w.created ≤ k → w.tables k = none) (hi : i < w.created)
    (heap : Heap) (k : Nat) (hk : w.created ≤ k) : (w.put i t heap).tables k = none := by
  rw [put_of_ne (by omega)]
  exact hnone k hk

namespace Balanced

theorem lt_created (h : Balanced c w loose) (ht : w.tables i = some t) : i < w.created := by
  obtain ⟨_, _, _, hnone⟩ := h
  by_contra hge
  rw [hnone i (by omega)] at ht
  cases ht

theorem take (h : Balanced c w loose) (hi : i < w.created) :
    ∃ mine, Held c (w.tables i) mine ∧ Balanced c (w.put i none w.heap) (mine + loose) := by
  obtain ⟨share, hheld, haccounts, hnone⟩ := h
  have hzero : Held c (none : Option (Table α β)) 0 := rfl
  refine ⟨share i, hheld i, update share i 0, put_held hheld hzero w.heap, ?_, put_none hnone hi w.heap⟩
  change Accounts w.heap (share i + loose + ∑ k ∈ Finset.range w.created, update share i 0 k)
  rw [← Finset.add_sum_erase _ _ (Finset.mem_range.mpr hi)] at haccounts
  rw [sum_update hi, zero_add, add_assoc, add_left_comm]
  exact haccounts

theorem give (h : Balanced c w (mine + loose)) (hi : i < w.created) (hfree : w.tables i = none)
    (ht : Held c t mine) : Balanced c (w.put i t w.heap) loose := by
  obtain ⟨share, hheld, haccounts, hnone⟩ := h
  refine ⟨update share i mine, put_held hheld ht w.heap, ?_, put_none hnone hi w.heap⟩
  have hzero : share i = 0 := by
    have hheldi := hheld i
    rw [hfree] at hheldi
    exact hheldi
  change Accounts w.heap (loose + ∑ k ∈ Finset.range w.created, update share i mine k)
  rw [← Finset.add_sum_erase _ _ (Finset.mem_range.mpr hi), hzero, zero_add] at haccounts
  rw [sum_update hi, add_left_comm, ← add_assoc]
  exact haccounts

theorem exchange (h : Balanced c w (mine + loose))
    (hstep : ∀ others, Accounts w.heap (mine + others) → ∃ mine', Held c t mine' ∧ Accounts heap (mine' + others)) :
    ∃ mine', Held c t mine' ∧ Balanced c { w with heap := heap } (mine' + loose) := by
  obtain ⟨share, hheld, haccounts, hnone⟩ := h
  rw [add_assoc] at haccounts
  obtain ⟨mine', ht, haccounts'⟩ := hstep _ haccounts
  exact ⟨mine', ht, share, hheld, by rw [add_assoc]; exact haccounts', hnone⟩

theorem more (h : Balanced c w loose) : Balanced c w.more loose := by
  obtain ⟨share, hheld, haccounts, hnone⟩ := h
  refine ⟨share, hheld, ?_, fun k hk => hnone k (Nat.le_of_succ_le hk)⟩
  have hzero : share w.created = 0 := by
    have hheldi := hheld w.created
    rw [hnone w.created le_rfl] at hheldi
    exact hheldi
  change Accounts w.heap (loose + ∑ k ∈ Finset.range (w.created + 1), share k)
  rw [Finset.sum_range_succ, hzero, add_zero]
  exact haccounts

theorem inv (h : Balanced c w loose) {t : Table α β} (ht : w.tables i = some t) : Inv c t := by
  obtain ⟨share, hheld, _⟩ := h
  have hheldi := hheld i
  rw [ht] at hheldi
  exact hheldi.1

theorem tables_created (h : Balanced c w loose) : w.tables w.created = none := by
  obtain ⟨_, _, _, hnone⟩ := h
  exact hnone w.created le_rfl

theorem put (h : Balanced c w 0) (hi : i < w.created)
    (hstep : ∀ mine others, Held c (w.tables i) mine → Accounts w.heap (mine + others) → ∃ mine', Held c t mine' ∧
      Accounts heap (mine' + others)) :
    Balanced c (w.put i t heap) 0 := by
  obtain ⟨mine, hheld, htaken⟩ := h.take hi
  obtain ⟨mine', ht, hexchanged⟩ := htaken.exchange fun others => hstep mine others hheld
  have hgiven := hexchanged.give hi (put_self w i none w.heap) ht
  rw [put_put] at hgiven
  exact hgiven

theorem hand (h : Balanced c w 0) (hi : i < w.created) (hj : j < w.created) (hij : i ≠ j)
    {t source : Option (Table α β)} (hempty : ∀ mine, Held c (w.tables i) mine → mine = 0)
    (hstep : ∀ mine, Held c (w.tables j) mine → Held c t mine ∧ Held c source 0) :
    Balanced c ((w.put j source w.heap).put i t w.heap) 0 := by
  obtain ⟨nothing, hheld, htaken⟩ := h.take hi
  obtain rfl := hempty nothing hheld
  obtain ⟨mine, hheld', htaken'⟩ := htaken.take hj
  rw [put_of_ne hij.symm] at hheld'
  obtain ⟨ht, hsrc⟩ := hstep mine hheld'
  rw [zero_add, ← zero_add (mine + 0)] at htaken'
  have hgiven := htaken'.give hj (put_self _ j none _) hsrc
  have hfree : (((w.put i none w.heap).put j none w.heap).put j source w.heap).tables i = none := by
    rw [put_of_ne hij, put_of_ne hij, put_self]
  have hgiven' := hgiven.give hi hfree ht
  dsimp only [World.put] at hgiven' ⊢
  rw [update_idem, update_comm hij, update_idem] at hgiven'
  exact hgiven'

theorem putNew (h : Balanced c w 0)
    (hstep : ∀ others, Accounts w.heap others → ∃ mine, Held c t mine ∧ Accounts heap (mine + others)) :
    Balanced c (w.more.put w.created t heap) 0 := by
  refine h.more.put (Nat.lt_succ_self w.created) fun mine others hheld haccounts => ?_
  rw [show w.more.tables w.created = none from h.tables_created] at hheld
  obtain rfl := hheld
  rw [zero_add] at haccounts
  exact hstep others haccounts

end Balanced

theorem step_balanced [Inhabited β] {action : Action α β} (h : Balanced c w 0) (hok : Orderly c w action)
    (hstep : step c w action = some w') : Balanced c w' 0 := by
  cases action with
  | create allocator =>
    cases hstep
    refine h.putNew fun others haccounts => ⟨0, held_emptyTable c rfl, ?_⟩
    rw [zero_add]
    exact haccounts
  | operate i op =>
    obtain ⟨t, ht, hstep⟩ := bind_eq_some_iff.mp hstep
    obtain ⟨s, hs, rfl⟩ := map_eq_some_iff.mp hstep
    refine h.put (h.lt_created ht) fun mine others hheld haccounts => ?_
    rw [ht] at hheld
    obtain ⟨hinv, hstored⟩ := step_inv hheld.1 (hok t ht) hs
    obtain ⟨mine', howns, haccounts'⟩ := owns_of_stored hstored hheld.2 haccounts
    exact ⟨mine', ⟨hinv, howns⟩, haccounts'⟩
  | copyConstruct j defaultAllocator =>
    obtain ⟨source, hsrc, rfl⟩ := map_eq_some_iff.mp hstep
    exact h.putNew fun others => copyConstruct_held (h.inv hsrc) defaultAllocator
  | moveConstruct j =>
    obtain ⟨source, hsrc, rfl⟩ := map_eq_some_iff.mp hstep
    have hlt := h.lt_created hsrc
    apply h.more.hand (Nat.lt_succ_self w.created) (Nat.lt_succ_of_lt hlt) hlt.ne'
    · intro mine hheld
      rw [show w.more.tables w.created = none from h.tables_created] at hheld
      exact hheld
    · intro mine hheld
      rw [show w.more.tables j = some source from hsrc] at hheld
      exact moveConstruct_held hheld
  | copyAssign i j =>
    obtain ⟨t, ht, hstep⟩ := bind_eq_some_iff.mp hstep
    obtain ⟨source, hsrc, rfl⟩ := map_eq_some_iff.mp hstep
    by_cases hij : i = j
    · rw [if_pos hij]
      exact h
    · rw [if_neg hij]
      refine h.put (h.lt_created ht) fun mine others hheld haccounts => ?_
      rw [ht] at hheld
      exact copyAssign_held (h.inv hsrc) (hok.resolve_left hij t source ht hsrc) hheld haccounts
  | moveAssign i j =>
    obtain ⟨t, ht, hstep⟩ := bind_eq_some_iff.mp hstep
    obtain ⟨source, hsrc, rfl⟩ := map_eq_some_iff.mp hstep
    by_cases hij : i = j
    · rw [if_pos hij]
      exact h
    rw [if_neg hij, moveAssign]
    by_cases hmask : source.mask = 0
    · rw [if_pos hmask]
      have hsame : w.put j (some source) w.heap = w := by
        rw [put, ← hsrc, update_eq_self]
      dsimp only
      rw [hsame]
      refine h.put (h.lt_created ht) fun mine others hheld haccounts => ?_
      rw [ht] at hheld
      obtain ⟨hinv, _, hstored⟩ := clear_behaves (s := { t with heap := w.heap }) hheld.1
      obtain ⟨mine', howns, haccounts'⟩ := owns_of_stored hstored hheld.2 haccounts
      exact ⟨mine', ⟨hinv, howns⟩, haccounts'⟩
    · have hbare := (hok.resolve_left hij t source ht hsrc).resolve_left hmask
      rw [if_neg hmask, Bare.destructor_eq hbare]
      apply h.hand (h.lt_created ht) (h.lt_created hsrc) hij
      · intro mine hheld
        rw [ht] at hheld
        exact hbare.eq_zero hheld
      · intro mine hheld
        rw [hsrc] at hheld
        exact ⟨hheld, held_emptyTable c rfl⟩
  | destroy i =>
    obtain ⟨t, ht, rfl⟩ := map_eq_some_iff.mp hstep
    have hbare := hok t ht
    rw [Bare.destructor_eq hbare]
    refine h.put (h.lt_created ht) fun mine others hheld haccounts => ?_
    rw [ht] at hheld
    obtain rfl := hbare.eq_zero hheld
    exact ⟨0, rfl, haccounts⟩

theorem initial_balanced (c : Config α) : Balanced c (initial : World α β) 0 := by
  refine ⟨fun _ => 0, fun _ => rfl, ?_, fun _ _ => rfl⟩
  exact ⟨rfl, rfl, Multiset.nodup_zero, fun _ hblock => absurd hblock (Multiset.notMem_zero _)⟩

/-- In every run of orderly actions, each block is released with the size and by the allocator it
came from, and each block in use belongs to a table. A table is destroyed in order only if it owns
nothing. -/
theorem releases_match [Inhabited β] {actions : List (Action α β)} (hrun : Run (step c) (Orderly c) initial actions w) :
    w.heap.wrong = [] ∧ (∀ block ∈ w.heap.live, ∃ i t, w.tables i = some t ∧ OwnedBy c t block) ∧
      ((∀ i, w.tables i = none) → w.heap.live = []) ∧
      ∀ i t, w.tables i = some t → ((destructor c { t with heap := w.heap }).wrong = [] ↔ Bare t) := by
  have hbalanced : Balanced c w 0 :=
    hrun.invariant (I := fun w => Balanced c w 0) (fun _ _ _ h hok hstep => step_balanced h hok hstep)
      (initial_balanced c)
  have hcreated : ∀ i t, w.tables i = some t → i < w.created := fun _ _ ht => hbalanced.lt_created ht
  obtain ⟨share, hheld, haccounts, _⟩ := hbalanced
  rw [zero_add] at haccounts
  have howner : ∀ block ∈ w.heap.live, ∃ i t, w.tables i = some t ∧ OwnedBy c t block := by
    intro block hblock
    rw [← Multiset.mem_coe, haccounts.live, Multiset.mem_sum] at hblock
    obtain ⟨i, _, hi⟩ := hblock
    exact ⟨i, (hheld i).ownedBy hi⟩
  refine ⟨haccounts.wrong, howner, fun hnone => ?_, fun i t ht => ⟨fun hright => ?_, fun hbare => ?_⟩⟩
  · rw [eq_nil_iff_forall_not_mem]
    intro block hblock
    obtain ⟨i, t, ht, _⟩ := howner block hblock
    rw [hnone i] at ht
    cases ht
  · have hheldi := hheld i
    rw [ht] at hheldi
    rw [← Finset.add_sum_erase _ _ (Finset.mem_range.mpr (hcreated i t ht))] at haccounts
    by_contra hbare
    exact destructor_wrong (s := { t with heap := w.heap }) hheldi haccounts hbare hright
  · rw [Bare.destructor_eq hbare]
    exact haccounts.wrong

theorem move_releases_match : ∃ w, Run (step spacedConfig) (Orderly spacedConfig) (initial : World Nat Unit)
      [.create 0, .operate 0 (.insert 1 ()), .moveConstruct 0, .destroy 0] w ∧
    w.heap.wrong = [] ∧ w.heap.live = [⟨0, 0, 246⟩] := by
  have hsafe : GrowthSafe spacedConfig (emptyTable ⟨0, [], 0⟩ : Table Nat Unit) := by
    have hmask : (emptyTable ⟨0, [], 0⟩ : Table Nat Unit).mask = 0 := rfl
    rw [GrowthSafe, if_pos hmask, Room, Room]
    decide
  have hrun : Run (step spacedConfig) (Orderly spacedConfig) (initial : World Nat Unit)
      [.create 0, .operate 0 (.insert 1 ()), .moveConstruct 0, .destroy 0] _ :=
    .cons trivial rfl <| .cons (fun t ht => by cases ht; exact ⟨trivial, fun _ => hsafe⟩) rfl <|
      .cons trivial rfl <| .cons (fun t ht => by cases ht; exact ⟨rfl, rfl⟩) rfl <| .nil _
  exact ⟨_, hrun, (releases_match hrun).1, by decide +kernel⟩

/-- The array is released as one of no bytes, and the chunk of 80 bytes as one of 16. -/
theorem destroy_releases_wrong : (exec (step spacedConfig) (fun _ _ => True) (initial : World Nat Unit)
      [.create 0, .operate 0 (.insert 1 ()), .destroy 0]).map (·.heap)
      = some ⟨1, [⟨0, 0, 246⟩], [⟨0, 0, 0⟩]⟩ ∧
    -- the same keys in nodes behind pointers
    (exec (step { spacedConfig with isFlat := false, nodeSize := 8, nodeSize_pos := by decide })
      (fun _ _ => True) (initial : World Nat Unit) [.create 0, .operate 0 (.insert 1 ()), .destroy 0]).map (·.heap)
      = some ⟨2, [⟨0, 1, 80⟩, ⟨0, 0, 134⟩], [⟨0, 1, 16⟩, ⟨0, 0, 0⟩]⟩ := by
  decide +kernel

end World

end Ktl.HashTable
