import Ktl.Loops
import Ktl.MpmcQueueFifo
import Ktl.MpmcQueuePushes

/-!
`unsynchronized_push`, `unsynchronized_pop` and the destructor of the `mpmc_queue`, called
while no other thread makes a step. Concurrent pushes before may have stopped between linking
their node and moving `m_tail`.
-/
namespace Ktl.MpmcQueue

open TaggedPointer LinkedList Runs Loops List

variable {τ α : Type}

/-! ## The node allocator -/

/-- The allocator's answer, the first bytes of a new node, and what the free blocks hold. -/
structure Memory (α : Type) where
  /-- the answer, given the blocks that are taken; none is an exception -/
  supply : List Ptr → Option Ptr
  fresh : ∀ obtained p, supply obtained = some p → KernelAddress p ∧ p ∉ obtained
  word : CompressedPointer
  bytes : Ptr → α

def createMemoryBlock (m : Memory α) (alc : NodeAllocator.State τ) : Option Ptr × NodeAllocator.State τ :=
  match m.supply alc.obtained with
  | none => (none, alc)
  | some fresh =>
    (some fresh, { alc with held := fresh :: alc.held, obtained := fresh :: alc.obtained })

/-- The loop of `allocate`. -/
def allocatePass (m : Memory α) (alc : NodeAllocator.State τ) (oldTopValue : CompressedPointer) :
    Pass CompressedPointer (Option Ptr × NodeAllocator.State τ) :=
  if isNull oldTopValue then .leave (createMemoryBlock m alc)
  else
    let oldTop := extractPtr oldTopValue
    let newPool := packPtr (extractPtr (alc.next oldTop)) (getNextTag oldTopValue)
    if alc.head = oldTopValue then
      .leave (some oldTop, { alc with
        head := newPool
        held := oldTop :: alc.held
        updates := alc.updates + 1
        pops := alc.pops + 1 })
    else .again alc.head

def allocate (m : Memory α) (n : Nat) (alc : NodeAllocator.State τ) : Option (Option Ptr × NodeAllocator.State τ) :=
  run (allocatePass m alc) n alc.head

/-- The loop of `deallocate`. -/
def deallocatePass (ptr : Ptr) (s : NodeAllocator.State τ × CompressedPointer) :
    Pass (NodeAllocator.State τ × CompressedPointer) (NodeAllocator.State τ) :=
  let newTop := packPtr ptr s.2.tag
  let alc := { s.1 with next := Function.update s.1.next (extractPtr newTop) s.2 }
  if alc.head = s.2 then
    .leave { alc with head := newTop, held := alc.held.erase ptr, updates := alc.updates + 1 }
  else .again (alc, alc.head)

def deallocate (ptr : Ptr) (n : Nat) (alc : NodeAllocator.State τ) : Option (NodeAllocator.State τ) :=
  run (deallocatePass ptr) n (alc, alc.head)

/-- The free list, as the destructor walks it. -/
def freeBlocks (alc : NodeAllocator.State τ) : List Ptr :=
  follow (fun p => target (alc.next p)) alc.obtained.length (target alc.head)

/-! ## The queue -/

@[simp] def State.constructNode (s : State τ α) (m : Memory α) (newNode : Ptr) (value : α) : State τ α :=
  let s := s.setNext newNode (fromNumber 0)
  let s := s.setNext newNode (packPtr 0 (getNextTag (s.next newNode)))
  { s with
    value := Function.update s.value newNode value
    alc := { s.alc with next := Function.update s.alc.next newNode m.word } }

def State.storeTail (s : State τ α) (word : CompressedPointer) : State τ α :=
  { s with tail := word, tailUpdates := s.tailUpdates + 1 }

def State.linkNode (s : State τ α) (newNode : Ptr) (value : α) : State τ α :=
  let next := s.next (extractPtr s.tail)
  { s.setNext (extractPtr s.tail) (packPtr newNode (getNextTag next)) with
    linked := s.linked ++ [value] }

def State.storeHead (s : State τ α) (nextPtr : Ptr) : State τ α :=
  { s with
    head := packPtr nextPtr (getNextTag s.head)
    headUpdates := s.headUpdates + 1
    popped := s.popped ++ [s.value nextPtr] }

def createDataNode (m : Memory α) (value : α) (n : Nat) (s : State τ α) : Option (Option Ptr × State τ α) :=
  (allocate m n s.alc).map fun (node, alc) =>
    match node with
    | none => (none, s.withMemory alc m.bytes)
    | some newNode => (some newNode, (s.withMemory alc m.bytes).constructNode m newNode value)

def destroyNode (m : Memory α) (target : Ptr) (n : Nat) (s : State τ α) : Option (State τ α) :=
  (deallocate target n s.alc).map fun alc => s.withMemory alc m.bytes

inductive Result (α : Type) where
  /-- the exception of the underlying allocator -/
  | threw
  | pushed
  | popped (value : α)
  /-- `unsynchronized_pop` returns false -/
  | empty
  deriving DecidableEq

/-- The loop of `unsynchronized_push_impl`. -/
def pushPass (newNode : Ptr) (value : α) (s : State τ α) : Pass (State τ α) (State τ α) :=
  let tail := s.tail
  let next := s.next (extractPtr tail)
  if isNull next then
    .leave ((s.linkNode newNode value).storeTail (packPtr newNode (getNextTag tail)))
  else .again (s.storeTail (packPtr (extractPtr next) (getNextTag tail)))

def unsynchronizedPushImpl (m : Memory α) (value : α) (n : Nat) (s : State τ α) : Option (Result α × State τ α) :=
  (createDataNode m value n s).bind fun
    | (none, s) => some (.threw, s)
    | (some newNode, s) => (run (pushPass newNode value) n s).map fun s => (.pushed, s)

/-- The loop of `unsynchronized_pop_impl`, which leaves with the value and the node to destroy. -/
def popPass (s : State τ α) : Pass (State τ α) (Option (α × Ptr) × State τ α) :=
  let head := s.head
  let next := s.next (extractPtr head)
  let tail := s.tail
  if samePointer head tail then
    if isNull next then .leave (none, s)
    else .again (s.storeTail (packPtr (extractPtr next) (getNextTag tail)))
  else if isNull next then .again s
  else
    let nextPtr := extractPtr next
    .leave (some (s.value nextPtr, extractPtr head), s.storeHead nextPtr)

def unsynchronizedPopImpl (m : Memory α) (n : Nat) (s : State τ α) : Option (Option (α × Ptr) × State τ α) :=
  (run popPass n s).bind fun
    | (none, s) => some (none, s)
    | (some (value, head), s) => (destroyNode m head n s).map fun s => (some (value, head), s)

/-- `~mpmc_queue`: the nodes that it destroys, in order. -/
def destroy (m : Memory α) : Nat → State τ α → Option (List Ptr × State τ α)
  | 0, _ => none
  | n + 1, s =>
    (unsynchronizedPopImpl m n s).bind fun
      | (none, s) => (destroyNode m (extractPtr s.head) n s).map fun t => ([extractPtr s.head], t)
      | (some (_, node), s) => (destroy m n s).map fun (nodes, t) => (node :: nodes, t)

inductive Op (α : Type) where
  | push (value : α) (m : Memory α)
  | pop (m : Memory α)

/-- One call, each of its loops with at most `n` passes. -/
def perform (n : Nat) (s : State τ α) : Op α → Option (Result α × State τ α)
  | .push value m => unsynchronizedPushImpl m value n s
  | .pop m =>
    (unsynchronizedPopImpl m n s).map fun (found, s) =>
      (found.elim .empty fun (value, _) => .popped value, s)

def performAll (n : Nat) : State τ α → List (Op α) → Option (List (Result α) × State τ α)
  | s, [] => some ([], s)
  | s, op :: ops =>
    (perform n s op).bind fun (result, s) =>
      (performAll n s ops).map fun (results, s) => (result :: results, s)

/-! ## Lists -/

/-- The values in the queue, the oldest first: all nodes but the dummy have one. -/
def State.contents (s : State τ α) : List α := s.nodes.tail.map s.value

/-- A call on a list of values. -/
inductive Behaves : List α → Op α → Result α → List α → Prop
  | pushed (values : List α) (value : α) (m : Memory α) : Behaves values (.push value m) .pushed (values ++ [value])
  | threw (values : List α) (value : α) (m : Memory α) {obtained : List Ptr}
    (hnone : m.supply obtained = none) : Behaves values (.push value m) .threw values
  | popped (value : α) (values : List α) (m : Memory α) : Behaves (value :: values) (.pop m) (.popped value) values
  | empty (m : Memory α) : Behaves [] (.pop m) .empty []

inductive BehavesAll : List α → List (Op α) → List (Result α) → List α → Prop
  | nil (values : List α) : BehavesAll values [] [] values
  | cons {values values' values'' : List α} {op : Op α} {ops : List (Op α)} {result : Result α}
    {results : List (Result α)} (hcall : Behaves values op result values')
    (hrest : BehavesAll values' ops results values'') :
    BehavesAll values (op :: ops) (result :: results) values''

/-- The queues that one thread may go on with: from a constructor, after concurrent pushes that
began while no call was running, after a call. -/
inductive Reachable [DecidableEq τ] : State τ α → Prop
  | constructed {next nextBlock : Ptr → CompressedPointer} {value : Ptr → α} {blocks : List Ptr}
    {t : τ} {fresh : Ptr} {s : State τ α} (hnodup : blocks.Nodup) (hkernel : ∀ p ∈ blocks, KernelAddress p)
    (hinit : initialState next value (NodeAllocator.construct nextBlock blocks) t fresh = some s) :
    Reachable s
  | pushes {s s' : State τ α} {actions : List (Action τ α)} (h : Reachable s)
    (hidle : ∀ t, s.pc t = .idle) (hrun : Run step (fun _ a => a.isPush = true) s actions s') :
    Reachable s'
  | call {s s' : State τ α} {op : Op α} {result : Result α} (h : Reachable s)
    (hcall : Gives (fun n => perform n s op) (result, s')) : Reachable s'

/-! ## The allocator answers -/

section

variable {alc : NodeAllocator.State τ}

structure Allocated (alc alc' : NodeAllocator.State τ) (p : Ptr) : Prop where
  held : alc'.held = p :: alc.held
  pc : alc'.pc = alc.pc
  blocks : ∃ F, NodeAllocator.Blocks alc' F

theorem Allocated.not_held (h : Allocated alc alc' p) : p ∉ alc.held := by
  obtain ⟨F, hF⟩ := h.blocks
  have hnodup := (nodup_append.mp (nodup_append.mp hF.parts_nodup).2.1).1
  rw [h.held] at hnodup
  exact (nodup_cons.mp hnodup).1

section
variable (h : NodeAllocator.Blocks alc F)
include h

theorem allocate_cases (m : Memory α) :
    (∃ p alc', Gives (fun n => allocate m n alc) (some p, alc') ∧ Allocated alc alc' p) ∨
      Gives (fun n => allocate m n alc) (none, alc) ∧ m.supply alc.obtained = none := by
  cases hnull : isNull alc.head with
  | true =>
    have hpass : allocatePass m alc alc.head = .leave (createMemoryBlock m alc) := by
      simp [allocatePass, hnull]
    have hends := ((ends_leave_iff hpass).mpr rfl).gives
    cases hsupply : m.supply alc.obtained with
    | none =>
      rw [createMemoryBlock, hsupply] at hends
      exact .inr ⟨hends, rfl⟩
    | some fresh =>
      rw [createMemoryBlock, hsupply] at hends
      obtain ⟨hk, hfresh⟩ := m.fresh _ _ hsupply
      exact .inl ⟨fresh, _, hends, rfl, rfl, F, h.create hk hfresh⟩
  | false =>
    have hlinked := h.linked
    rw [target, hnull] at hlinked
    cases F with
    | nil => simp at hlinked
    | cons p F =>
      obtain ⟨hp, -⟩ := linked_cons.mp hlinked
      cases hp
      have hpass : allocatePass m alc alc.head = .leave (some (extractPtr alc.head), { alc with
          head := packPtr (extractPtr (alc.next (extractPtr alc.head))) (getNextTag alc.head)
          held := extractPtr alc.head :: alc.held
          updates := alc.updates + 1
          pops := alc.pops + 1 }) := by
        simp [allocatePass, hnull]
      exact .inl ⟨_, _, ((ends_leave_iff hpass).mpr rfl).gives, rfl, rfl, F, h.take⟩

theorem deallocate_gives (hp : p ∈ alc.held) :
    ∃ alc', Gives (fun n => deallocate p n alc) alc' ∧ alc'.held = alc.held.erase p ∧
      alc'.pc = alc.pc ∧ NodeAllocator.Blocks alc' (p :: F) := by
  have hpass : deallocatePass p (alc, alc.head) = .leave { alc with
      next := Function.update alc.next p alc.head
      head := packPtr p alc.head.tag
      held := alc.held.erase p
      updates := alc.updates + 1 } := by
    simp [deallocatePass, extractPtr_packPtr _ _ (h.kernel_of_held hp)]
  exact ⟨_, ((ends_leave_iff hpass).mpr rfl).gives, rfl, rfl, h.put hp⟩

theorem freeBlocks_eq : freeBlocks alc = F := by
  refine follow_linked h.linked ?_
  have hlen := h.conserved.length_eq
  simp only [length_append] at hlen
  omega

end

end

/-! ## The calls -/

structure Sound (s : State τ α) (L F : List Ptr) : Prop where
  shape : Shape s L
  blocks : NodeAllocator.Blocks s.alc F
  placed : Placed s L
  agrees : ∀ t, Agrees (s.pc t) (s.alc.pc t)
  failed : ∀ sawEmpty ∈ s.failedPops, sawEmpty = true

structure SameMemory (s s' : State τ α) : Prop where
  alc : s'.alc = s.alc
  pc : s'.pc = s.pc
  value : s'.value = s.value
  failedPops : s'.failedPops = s.failedPops

section

variable {s : State τ α}

theorem isNull_of_target (h : target word = none) : isNull word = true := by
  cases hnull : isNull word with
  | true => rfl
  | false => simp [target, hnull] at h

theorem not_null_of_target (h : target word = some q) : isNull word = false := by
  cases hnull : isNull word with
  | true => simp [target, hnull] at h
  | false => rfl

theorem Shape.next_tail (h : Shape s L) (hsplit : L = A ++ extractPtr s.tail :: B) :
    Linked (fun p => target (s.next p)) (target (s.next (extractPtr s.tail))) B :=
  (hsplit ▸ h.chain).of_append

theorem pushPass_ends (h : Shape s L) (hsplit : L = A ++ extractPtr s.tail :: B)
    (hkernel : ∀ p ∈ s.alc.held, KernelAddress p) (hheld : newNode ∈ s.alc.held)
    (hnot : newNode ∉ L) (hfresh : Fresh s newNode value) :
    ∃ s', Ends (pushPass newNode value) s s' ∧ SameMemory s s' ∧ Shape s' (L ++ [newNode]) := by
  have hnext := h.next_tail hsplit
  induction B generalizing s A with
  | nil =>
    rw [linked_nil] at hnext
    have hpass : pushPass newNode value s =
        .leave ((s.linkNode newNode value).storeTail (packPtr newNode (getNextTag s.tail))) := by
      simp [pushPass, isNull_of_target hnext]
    have hword := target_packPtr newNode (getNextTag (s.next (extractPtr s.tail))) (hkernel _ hheld)
    have hlinked := h.link h.tail_mem hnext hheld hnot hfresh hword
    refine ⟨_, (ends_leave_iff hpass).mpr rfl, ⟨rfl, rfl, rfl, rfl⟩, hlinked.moveTail ?_ (hkernel _ hheld)⟩
    simpa [State.linkNode, State.setNext] using hword
  | cons b B ih =>
    obtain ⟨hb, hrest⟩ := linked_cons.mp hnext
    have hk := hkernel b (h.held b (by simp [hsplit]))
    have hmoved : Shape (s.storeTail (packPtr b (getNextTag s.tail))) L := h.moveTail hb hk
    have htail : extractPtr (s.storeTail (packPtr b (getNextTag s.tail))).tail = b :=
      extractPtr_packPtr _ _ hk
    have hpass : pushPass newNode value s = .again (s.storeTail (packPtr b (getNextTag s.tail))) := by
      simp [pushPass, not_null_of_target hb, extractPtr_of_target hb]
    obtain ⟨s', hends, hsame, hshape⟩ := ih hmoved (A := A ++ [extractPtr s.tail])
      (by rw [htail, hsplit]; simp) hkernel hheld hfresh (by rw [htail]; exact hrest)
    refine ⟨s', (ends_again_iff hpass).mpr hends, ?_, hshape⟩
    exact ⟨hsame.alc, hsame.pc, hsame.value, hsame.failedPops⟩

theorem popPass_past (h : Shape s L) (hkernel : ∀ p ∈ s.alc.held, KernelAddress p)
    (hpast : extractPtr s.tail ≠ extractPtr s.head) :
    ∃ q M, L = extractPtr s.head :: q :: M ∧ Shape (s.storeHead q) (q :: M) ∧
      popPass s = .leave (some (s.value q, extractPtr s.head), s.storeHead q) := by
  obtain ⟨M, rfl, hrest⟩ := h.cons
  have hmem := (mem_cons.mp h.tail_mem).resolve_left hpast
  cases M with
  | nil => simp at hmem
  | cons q M =>
    obtain ⟨hq, -⟩ := linked_cons.mp hrest
    refine ⟨q, M, rfl, h.unlink hq hpast (hkernel q (h.held q (by simp))), ?_⟩
    simp [popPass, samePointer, hpast.symm, not_null_of_target hq, extractPtr_of_target hq]

theorem popPass_ends (h : Shape s L) (hkernel : ∀ p ∈ s.alc.held, KernelAddress p) :
    (L = [extractPtr s.head] ∧ Ends popPass s (none, s)) ∨
      ∃ q M s', L = extractPtr s.head :: q :: M ∧ Shape s' (q :: M) ∧ SameMemory s s' ∧
        Ends popPass s (some (s.value q, extractPtr s.head), s') := by
  by_cases hsame : extractPtr s.tail = extractPtr s.head
  · obtain ⟨M, rfl, hrest⟩ := h.cons
    cases M with
    | nil =>
      rw [linked_nil] at hrest
      have hpass : popPass s = .leave (none, s) := by
        simp [popPass, samePointer, hsame, isNull_of_target hrest]
      exact .inl ⟨rfl, (ends_leave_iff hpass).mpr rfl⟩
    | cons q M =>
      obtain ⟨hq, -⟩ := linked_cons.mp hrest
      have hk := hkernel q (h.held q (by simp))
      have hmoved := h.moveTail (by rw [hsame]; exact hq) hk
      have hpass : popPass s = .again (s.storeTail (packPtr q (getNextTag s.tail))) := by
        simp [popPass, samePointer, hsame, not_null_of_target hq, extractPtr_of_target hq]
      have hne : extractPtr (s.storeTail (packPtr q (getNextTag s.tail))).tail ≠ extractPtr s.head := by
        rw [State.storeTail, extractPtr_packPtr _ _ hk]
        exact fun he => (nodup_cons.mp h.nodup).1 (by simp [he])
      obtain ⟨q', M', hL, hshape, hleave⟩ := popPass_past hmoved hkernel hne
      cases hL
      exact .inr ⟨q, M, _, rfl, hshape, ⟨rfl, rfl, rfl, rfl⟩,
        (ends_again_iff hpass).mpr ((ends_leave_iff hleave).mpr rfl)⟩
  · obtain ⟨q, M, hL, hshape, hleave⟩ := popPass_past h hkernel hsame
    exact .inr ⟨q, M, _, hL, hshape, ⟨rfl, rfl, rfl, rfl⟩, (ends_leave_iff hleave).mpr rfl⟩

theorem withMemory_value (hp : p ∈ alc.held) : (s.withMemory alc bytes).value p = s.value p :=
  if_pos (contains_iff_mem.mpr hp)
theorem Shape.withMemory (h : Shape s L) (hkept : ∀ p ∈ L, p ∈ alc.held) : Shape (s.withMemory alc bytes) L :=
  h.memory fun p hp => ⟨hkept p hp, withMemory_value (hkept p hp)⟩

theorem Shape.constructNode (h : Shape s L) (hnot : newNode ∉ L) : Shape (s.constructNode m newNode value) L := by
  have hwritten := (h.setNext hnot (fromNumber 0)).setNext hnot
    (packPtr 0 (getNextTag ((s.setNext newNode (fromNumber 0)).next newNode)))
  refine hwritten.memory fun p hp => ⟨h.held p hp, ?_⟩
  have hne : p ≠ newNode := fun he => hnot (he ▸ hp)
  rw [Function.update_of_ne hne]

theorem constructNode_value_of_ne (hne : p ≠ newNode) : (s.constructNode m newNode value).value p = s.value p :=
  Function.update_of_ne hne _ _
theorem Shape.ne_nil (h : Shape s L) : L ≠ [] := ne_nil_of_mem h.tail_mem
theorem fresh_constructNode : Fresh (s.constructNode m newNode value) newNode value := by
  simp [Fresh, State.setNext, target, isNull, packPtr]

def Served (s : State τ α) (op : Op α) : Prop :=
  ∃ result s' L' F', Gives (fun n => perform n s op) (result, s') ∧ Sound s' L' F' ∧
    Behaves s.contents op result s'.contents

theorem destroyNode_gives (hblocks : NodeAllocator.Blocks s.alc F) (hp : p ∈ s.alc.held) (m : Memory α) :
    ∃ alc, Gives (fun n => destroyNode m p n s) (s.withMemory alc m.bytes) ∧
      alc.held = s.alc.held.erase p ∧ alc.pc = s.alc.pc ∧ NodeAllocator.Blocks alc (p :: F) := by
  obtain ⟨alc, hgives, hheld, hpc, hblocks'⟩ := deallocate_gives hblocks hp
  exact ⟨alc, hgives.map _, hheld, hpc, hblocks'⟩

theorem Placed.erase (h : Placed s (p :: L)) (hheld : alc.held = s.alc.held.erase p) (hnodup : s.alc.held.Nodup) :
    Placed (s.withMemory alc bytes) L := by
  intro q hq
  have hq' := hheld ▸ hq
  rw [hnodup.mem_erase_iff] at hq'
  exact (h q hq'.2).imp (fun hmem => (mem_cons.mp hmem).resolve_left hq'.1) id

section
variable (h : Sound s L F)
include h

theorem Sound.kernel : ∀ p ∈ s.alc.held, KernelAddress p :=
  fun _ hp => h.blocks.kernel_of_held hp
theorem Sound.held_nodup : s.alc.held.Nodup :=
  (nodup_append.mp (nodup_append.mp h.blocks.parts_nodup).2.1).1
theorem Sound.nodes_eq : s.nodes = L := h.shape.nodes_eq h.blocks
theorem Sound.contents_eq : s.contents = L.tail.map s.value := by
  rw [State.contents, h.nodes_eq]

theorem Sound.push (value : α) (m : Memory α) : Served s (.push value m) := by
  rcases allocate_cases h.blocks m with ⟨p, alc, hgives, halc⟩ | ⟨hgives, hnone⟩
  · -- a node is constructed and linked
    have hnot : p ∉ L := fun hp => halc.not_held (h.shape.held p hp)
    have hheld : ∀ q ∈ s.alc.held, q ∈ alc.held := by simp +contextual [halc.held]
    have hshape : Shape ((s.withMemory alc m.bytes).constructNode m p value) L :=
      (h.shape.withMemory fun q hq => hheld q (h.shape.held q hq)).constructNode hnot
    obtain ⟨F', hF'⟩ := halc.blocks
    have hp : p ∈ alc.held := by simp [halc.held]
    obtain ⟨A, B, hsplit⟩ := append_of_mem hshape.tail_mem
    obtain ⟨s', hends, hsame, hshape'⟩ := pushPass_ends hshape hsplit
      (fun q hq => hF'.kernel_of_held hq) hp hnot fresh_constructNode
    have hsound : Sound s' (L ++ [p]) F' := by
      refine ⟨hshape', ?_, fun q hq => ?_, fun t => ?_, ?_⟩
      · rw [hsame.alc]
        exact hF'.write hp m.word
      · rw [hsame.alc] at hq
        rw [hsame.pc]
        rcases mem_cons.mp (halc.held ▸ hq : q ∈ p :: s.alc.held) with rfl | hq
        · simp
        · exact (h.placed q hq).imp (mem_append_left _) id
      · rw [hsame.alc, hsame.pc]
        have hagrees := h.agrees t
        rwa [← halc.pc] at hagrees
      · rw [hsame.failedPops]
        exact h.failed
    have hcontents : s'.contents = s.contents ++ [value] := by
      rw [hsound.contents_eq, h.contents_eq, tail_append_of_ne_nil h.shape.ne_nil, map_append, hsame.value]
      refine congr (congrArg _ (map_congr_left fun q hq => ?_)) ?_
      · have hmem := mem_of_mem_tail hq
        have hne : q ≠ p := fun he => hnot (he ▸ hmem)
        rw [constructNode_value_of_ne hne, withMemory_value (hheld q (h.shape.held q hmem))]
      · simp
    have hcall : Gives (fun n => perform n s (.push value m)) (.pushed, s') :=
      (hgives.map _).bind (hends.gives.map _)
    refine ⟨.pushed, s', L ++ [p], F', hcall, hsound, ?_⟩
    rw [hcontents]
    exact .pushed _ _ _
  · -- the exception leaves the queue as it is
    have hshape : Shape (s.withMemory s.alc m.bytes) L := h.shape.withMemory h.shape.held
    have hsound : Sound (s.withMemory s.alc m.bytes) L F :=
      ⟨hshape, h.blocks, h.placed, h.agrees, h.failed⟩
    have hcontents : (s.withMemory s.alc m.bytes).contents = s.contents := by
      rw [hsound.contents_eq, h.contents_eq]
      exact map_congr_left fun q hq => withMemory_value (h.shape.held q (mem_of_mem_tail hq))
    have hcall : Gives (fun n => perform n s (.push value m)) (.threw, s.withMemory s.alc m.bytes) :=
      (hgives.map _).bind (gives_some _)
    refine ⟨.threw, _, L, F, hcall, hsound, ?_⟩
    rw [hcontents]
    exact .threw _ _ _ hnone

theorem Sound.popImpl (m : Memory α) :
    (L = [extractPtr s.head] ∧ Gives (fun n => unsynchronizedPopImpl m n s) (none, s)) ∨
      ∃ q M s', L = extractPtr s.head :: q :: M ∧ Sound s' (q :: M) (extractPtr s.head :: F) ∧
        M.map s'.value = M.map s.value ∧ s'.pc = s.pc ∧
        Gives (fun n => unsynchronizedPopImpl m n s) (some (s.value q, extractPtr s.head), s') := by
  rcases popPass_ends h.shape h.kernel with ⟨hL, hends⟩ | ⟨q, M, s', rfl, hshape, hsame, hends⟩
  · exact .inl ⟨hL, hends.gives.bind (gives_some _)⟩
  · have hnot := (nodup_cons.mp h.shape.nodup).1
    have hheld : extractPtr s.head ∈ s'.alc.held := hsame.alc ▸ h.shape.held _ (by simp)
    obtain ⟨alc, hgives, herase, hpc, hblocks⟩ := destroyNode_gives (hsame.alc ▸ h.blocks) hheld m
    have hkept : ∀ p ∈ q :: M, p ∈ alc.held := by
      intro p hp
      have hne : p ≠ extractPtr s.head := fun he => hnot (he ▸ hp)
      rw [herase]
      exact (mem_erase_of_ne hne).mpr (hshape.held p hp)
    have hplaced : Placed s' (extractPtr s.head :: q :: M) := by
      intro p hp
      rw [hsame.alc] at hp
      rw [hsame.pc]
      exact h.placed p hp
    refine .inr ⟨q, M, _, rfl, ⟨hshape.withMemory hkept, hblocks,
      hplaced.erase herase (hsame.alc ▸ h.held_nodup), fun t => ?_, ?_⟩, ?_, hsame.pc,
      hends.gives.bind (hgives.map _)⟩
    · have hagrees := h.agrees t
      rwa [← hsame.pc, ← hsame.alc, ← hpc] at hagrees
    · exact hsame.failedPops ▸ h.failed
    · refine map_congr_left fun p hp => ?_
      rw [withMemory_value (hkept p (mem_cons_of_mem _ hp)), hsame.value]

theorem Sound.pop (m : Memory α) : Served s (.pop m) := by
  rcases h.popImpl m with ⟨hL, hgives⟩ | ⟨q, M, s', hL, hsound, hvalues, -, hgives⟩
  · refine ⟨.empty, s, L, F, hgives.map _, h, ?_⟩
    have hnil : s.contents = [] := by rw [h.contents_eq, hL]; rfl
    rw [hnil]
    exact .empty m
  · refine ⟨.popped (s.value q), s', q :: M, _, hgives.map _, hsound, ?_⟩
    rw [h.contents_eq, hL, hsound.contents_eq, tail_cons, tail_cons, map_cons, hvalues]
    exact .popped _ _ _

theorem Sound.served (op : Op α) : Served s op := by
  cases op with
  | push value m => exact h.push value m
  | pop m => exact h.pop m

theorem Sound.performAll (ops : List (Op α)) :
    ∃ results s' L' F', Gives (fun n => MpmcQueue.performAll n s ops) (results, s') ∧
      Sound s' L' F' ∧ BehavesAll s.contents ops results s'.contents := by
  induction ops generalizing s L F with
  | nil => exact ⟨[], s, L, F, gives_some _, h, .nil _⟩
  | cons op ops ih =>
    obtain ⟨result, s₁, L₁, F₁, hgives, hsound, hbehaves⟩ := h.served op
    obtain ⟨results, s₂, L₂, F₂, hgives', hsound', hbehaves'⟩ := ih hsound
    exact ⟨result :: results, s₂, L₂, F₂, hgives.bind (hgives'.map _), hsound', .cons hbehaves hbehaves'⟩

theorem Sound.destroy (m : Memory α) : ∃ s', Gives (fun n => MpmcQueue.destroy m n s) (L, s') ∧
      NodeAllocator.Blocks s'.alc (L.reverse ++ F) ∧
      ∀ p ∈ s'.alc.held, ∃ t, (s'.pc t).owned = some p := by
  induction L generalizing s F with
  | nil => exact absurd rfl h.shape.ne_nil
  | cons d L ih =>
    rcases h.popImpl m with ⟨hL, hgives⟩ | ⟨q, M, s', hL, hsound, -, -, hgives⟩
    · cases hL
      have hheld : extractPtr s.head ∈ s.alc.held := h.shape.held _ (by simp)
      obtain ⟨alc, hgives', herase, -, hblocks⟩ := destroyNode_gives h.blocks hheld m
      refine ⟨_, .succ (hgives.bind (hgives'.map _)), hblocks, fun p hp => ?_⟩
      exact (h.placed.erase herase h.held_nodup p hp).resolve_left (by simp)
    · cases hL
      obtain ⟨s'', hgives', hblocks, howned⟩ := ih hsound
      refine ⟨s'', .succ (hgives.bind (hgives'.map _)), ?_, howned⟩
      simpa using hblocks

end

end

/-! ## Reachable queues -/

section

variable [DecidableEq τ] {s : State τ α}

omit [DecidableEq τ] in
theorem Sound.inv (h : Sound s L F) (hidle : ∀ t, s.pc t = .idle) : Inv s L := by
  have halc : ∀ t, s.alc.pc t = .idle := fun t => by
    have hagrees := h.agrees t
    rwa [hidle t] at hagrees
  refine ⟨h.shape, ⟨F, h.blocks.linked, h.blocks.conserved, h.blocks.nodup, h.blocks.kernel, h.blocks.tag,
    fun t => ?_, ?_⟩, ?_, ?_, h.agrees, fun t => ?_, h.failed⟩
  · rw [halc t]
    trivial
  · simp [halc, NodeAllocator.Pc.returns]
  · simp [hidle, Pc.owned]
  · simp [hidle, Pc.owned]
  · rw [hidle t]
    trivial

omit [DecidableEq τ] in
theorem Pushing.sound (h : Pushing s L) : ∃ F, Sound s L F := by
  obtain ⟨F, hF⟩ := h.taking
  exact ⟨F, h.toShape, hF.inv.blocks, h.placed, h.agrees, h.failed⟩

theorem initialState_idle {next : Ptr → CompressedPointer} (hinit : initialState next value alc t fresh = some s)
    (t' : τ) : s.pc t' = .idle := by
  obtain ⟨alc', -, hinit⟩ := Option.bind_eq_some_iff.mp hinit
  obtain ⟨dummy, -, rfl⟩ := Option.map_eq_some_iff.mp hinit
  rfl

theorem Reachable.sound (h : Reachable s) : ∃ L F, Sound s L F := by
  induction h with
  | @constructed next nextBlock value blocks t fresh s hnodup hkernel hinit =>
    obtain ⟨F, hF⟩ := NodeAllocator.construct_inv (τ := τ) nextBlock blocks hnodup hkernel
    obtain ⟨dummy, hinv, hheld⟩ :=
      initialState_inv hF (NodeAllocator.construct_idle nextBlock blocks) hinit
    obtain ⟨F', hF'⟩ := hinv.alc
    refine ⟨[dummy], F', hinv.toShape, hF'.blocks, fun p hp => .inl ?_, hinv.agrees, hinv.failed⟩
    rwa [hheld, NodeAllocator.construct_held] at hp
  | pushes _ hidle hrun ih =>
    obtain ⟨L, F, hsound⟩ := ih
    obtain ⟨L', hpushing⟩ := ((hsound.inv hidle).pushing hidle hsound.placed).run hrun
    exact ⟨L', hpushing.sound⟩
  | @call s s' op result _ hcall ih =>
    obtain ⟨L, F, hsound⟩ := ih
    obtain ⟨result', s'', L', F', hgives, hsound', -⟩ := hsound.served op
    cases hcall.unique hgives
    exact ⟨L', F', hsound'⟩

/-- From every queue that can arise, with `m_tail` at any node: every sequence of calls by one
thread ends and behaves as on the list of values, and the destructor then gives every node back
once; only the blocks of threads that stopped before they linked their node stay in use. -/
theorem unsynchronized_calls_fifo (h : Reachable s) (ops : List (Op α)) (m : Memory α) :
    ∃ results s' s'', Gives (fun n => performAll n s ops) (results, s') ∧
      BehavesAll s.contents ops results s'.contents ∧
      Gives (fun n => destroy m n s') (s'.nodes, s'') ∧
      freeBlocks s''.alc = s'.nodes.reverse ++ freeBlocks s'.alc ∧ (freeBlocks s''.alc).Nodup ∧
      ∀ p ∈ s''.alc.held, ∃ t, (s''.pc t).owned = some p := by
  obtain ⟨L, F, hsound⟩ := h.sound
  obtain ⟨results, s', L', F', hgives, hsound', hbehaves⟩ := hsound.performAll ops
  obtain ⟨s'', hdestroy, hblocks, howned⟩ := hsound'.destroy m
  rw [← hsound'.nodes_eq] at hdestroy hblocks
  refine ⟨results, s', s'', hgives, hbehaves, hdestroy, ?_, ?_, howned⟩
  · rw [freeBlocks_eq hblocks, freeBlocks_eq hsound'.blocks]
  · rw [freeBlocks_eq hblocks]
    exact (nodup_append.mp hblocks.parts_nodup).1

def oneBlock : Memory Nat where
  supply obtained := if 0xFFFF800000003000#64 ∈ obtained then none else some 0xFFFF800000003000#64
  fresh := by
    intro obtained p hp
    split at hp <;> cases hp
    exact ⟨⟨by decide +kernel, by decide +kernel⟩, ‹_›⟩
  word := ⟨7, 7⟩
  bytes := fun _ => 0

def pushWithoutSwing : List (Action Nat Nat) := (pushFresh 0 5 0xFFFF800000002000#64).dropLast

def pushAndPops : List (Op Nat) := [.push 7 oneBlock, .pop oneBlock, .pop oneBlock, .pop oneBlock]

/-- `m_tail` still points to the dummy node; another thread pushes a value and pops three times. -/
theorem unsynchronized_calls_after_stopped_push :
    ∃ s : State Nat Nat, Reachable s ∧ samePointer s.head s.tail = true ∧ s.contents = [5] ∧
      (performAll 3 s pushAndPops).map Prod.fst = some [.pushed, .popped 5, .popped 7, .empty] ∧
      ∃ results s' s'', Gives (fun n => performAll n s pushAndPops) (results, s') ∧
        BehavesAll s.contents pushAndPops results s'.contents ∧
        Gives (fun n => destroy oneBlock n s') (s'.nodes, s'') ∧
        freeBlocks s''.alc = s'.nodes.reverse ++ freeBlocks s'.alc ∧ (freeBlocks s''.alc).Nodup ∧
        ∀ p ∈ s''.alc.held, ∃ t, (s''.pc t).owned = some p := by
  obtain ⟨s, hrun, hview⟩ : ∃ s, Run step (fun _ a => a.isPush = true) emptyQueue pushWithoutSwing s ∧
      (samePointer s.head s.tail, s.contents, (performAll 3 s pushAndPops).map Prod.fst) =
        (true, [5], some [.pushed, .popped 5, .popped 7, .empty]) :=
    run_of_exec_map (by decide +kernel)
  have hempty : Reachable emptyQueue :=
    .constructed nodup_nil (by simp) (Option.some_get _).symm
  have hidle : ∀ t, emptyQueue.pc t = .idle := initialState_idle (Option.some_get _).symm
  have hs : Reachable s := .pushes hempty hidle hrun
  simp only [Prod.mk.injEq] at hview
  exact ⟨s, hs, hview.1, hview.2.1, hview.2.2, unsynchronized_calls_fifo hs pushAndPops oneBlock⟩

/-- At every moment of a run without the two steps that break the queue: the linked values are the
popped ones and then those in the list of nodes, and a node of the list, or of a thread that has not
linked it yet or has unlinked it, is not free; no two threads have the same one. -/
theorem nodes_of_guarded (next nextBlock : Ptr → CompressedPointer) (value : Ptr → α) (blocks : List Ptr)
    (hnodup : blocks.Nodup) (hkernel : ∀ p ∈ blocks, KernelAddress p) {t : τ} {fresh : Ptr} {s₀ : State τ α}
    (hinit : initialState next value (NodeAllocator.construct nextBlock blocks) t fresh = some s₀)
    {actions : List (Action τ α)} (hrun : Run step (fun s a => Window s a ∧ Guarded s a) s₀ actions s) :
    s.linked = s.popped ++ s.contents ∧ s.nodes.Nodup ∧ (∀ p ∈ s.nodes, p ∉ freeBlocks s.alc) ∧
      ∀ t p, (s.pc t).owned = some p → p ∉ s.nodes ∧ p ∉ freeBlocks s.alc ∧
        ∀ t', (s.pc t').owned = some p → t' = t := by
  obtain ⟨F, hF⟩ := NodeAllocator.construct_inv (τ := τ) nextBlock blocks hnodup hkernel
  obtain ⟨dummy, hdummy, -⟩ := initialState_inv hF (NodeAllocator.construct_idle nextBlock blocks) hinit
  obtain ⟨L, h⟩ := hrun.invariant (I := fun s => ∃ L, Inv s L)
    (fun s a s' hL hok hs => hL.elim fun _ hL => hL.step hok.1 hok.2 hs) ⟨[dummy], hdummy⟩
  obtain ⟨F', hF'⟩ := h.alc
  have hfree (p) (hp : p ∈ s.alc.held) : p ∉ freeBlocks s.alc := by
    rw [freeBlocks_eq hF'.blocks]
    exact fun hmem => hF'.blocks.free_not_held hmem hp
  rw [State.contents, h.nodes_eq]
  refine ⟨h.content, h.nodup, fun p hp => hfree p (h.held p hp), fun t p hp => ?_⟩
  obtain ⟨hheld, hnot⟩ := h.owned t p hp
  exact ⟨hnot, hfree p hheld, fun t' hp' => h.exclusive t' t p hp' hp⟩

theorem nodes_of_pushPopPop :
    ∃ s, Run step (fun s a => Window s a ∧ Guarded s a) emptyQueue pushPopPop s ∧ s.popped = [5] ∧
      s.linked = s.popped ++ s.contents := by
  obtain ⟨s, hrun, hpopped⟩ : ∃ s, Run step (fun s a => Window s a ∧ Guarded s a) emptyQueue pushPopPop s ∧
      s.popped = [5] := run_of_exec_map (by decide +kernel)
  exact ⟨s, hrun, hpopped, (nodes_of_guarded _ _ _ [] nodup_nil (by simp) (Option.some_get _).symm hrun).1⟩

end

end Ktl.MpmcQueue
