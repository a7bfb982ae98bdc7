import Mathlib.Algebra.Group.Nat.Defs
import Mathlib.Logic.Function.Basic

/-!
The robin hood table behind `unordered_map` and `unordered_set`. A node has an info byte:
zero if the slot is empty, else the distance of the node from its home bucket, counted from
one in units of `mInfoInc`, plus some bits of the node's hash. A sentinel byte follows the
last slot, and seven bytes more so that the infos can be read eight at a time.

Sizes are `size_t`, reduced wherever the code could wrap. The array and the chunks of the
node pool are blocks of a heap that keeps account of how they were released.
-/
namespace Ktl.HashTable

open Function

/-! ## Storage -/

/-- What `allocate_bytes` of an allocator has returned, by a number of its own. -/
structure Block where
  allocator : Nat
  id : Nat
  bytes : Nat
  deriving DecidableEq

/-- The blocks in use, the next number, and the releases that did not fit a block in use. -/
structure Heap where
  next : Nat
  live : List Block
  wrong : List Block
  deriving DecidableEq

/-- `allocate_bytes` -/
def Heap.allocate (heap : Heap) (allocator bytes : Nat) : Heap :=
  { heap with next := heap.next + 1, live := ⟨allocator, heap.next, bytes⟩ :: heap.live }

/-- `deallocate_bytes` -/
def Heap.deallocate (heap : Heap) (block : Block) : Heap :=
  if block ∈ heap.live then { heap with live := heap.live.erase block }
  else { heap with wrong := block :: heap.wrong }

/-- `NodeAllocator`: the chunks of `mListForFree` and the number of cells behind `mHead`. -/
structure Pool where
  allocator : Nat
  listForFree : List Nat
  free : Nat
  deriving DecidableEq

/-! ## The table -/

/-- The parameters of `Table`. -/
structure Config (α : Type*) where
  isFlat : Bool
  hasher : α → BitVec 64
  /-- The additional mixing step of `keyToIdx`. -/
  mix : BitVec 64 → BitVec 64
  keyEqual : α → α → Bool
  maxLoadFactor100 : Nat
  /-- `sizeof(Node)`. -/
  nodeSize : Nat
  /-- `ALIGNMENT` and `ALIGNED_SIZE` of the pool. -/
  alignment : Nat
  alignedSize : Nat
  keyEqual_refl : ∀ x, keyEqual x x = true
  keyEqual_symm : ∀ x y, keyEqual x y = true → keyEqual y x = true
  keyEqual_trans : ∀ x y z, keyEqual x y = true → keyEqual y z = true → keyEqual x z = true
  hasher_eq : ∀ x y, keyEqual x y = true → hasher x = hasher y
  loadFactor_gt : 10 < maxLoadFactor100
  loadFactor_lt : maxLoadFactor100 < 100
  nodeSize_pos : 0 < nodeSize
  alignment_pos : 0 < alignment
  alignedSize_pos : 0 < alignedSize

/-- The nodes, by slot. `array` is the block of `mKeyVals`, of no meaning while `mMask` is zero. -/
structure Table (α β : Type*) where
  keyVals : Nat → Option (α × β)
  info : Nat → Nat
  numElements : Nat
  mask : Nat
  maxNumElementsAllowed : Nat
  infoInc : Nat
  infoHashShift : Nat
  array : Nat
  pool : Pool

structure State (α β : Type*) extends Table α β where
  heap : Heap

/-- A value, `overflow_error`, or a read or write outside of what was allocated. -/
inductive Call (σ α : Type*) where
  | returned (value : α) (state : σ)
  | overflowError (state : σ)
  | undefined

def Call.andThen {σ α β : Type*} (call : Call σ α) (f : α → σ → Call σ β) : Call σ β :=
  match call with
  | .returned value state => f value state
  | .overflowError state => .overflowError state
  | .undefined => .undefined

def Call.ofOption {σ α : Type*} (value : Option (α × σ)) : Call σ α :=
  match value with
  | some (value, state) => .returned value state
  | none => .undefined

def initialNumElements : Nat := 8
def initialInfoNumBits : Nat := 5
def initialInfoInc : Nat := 32
def infoMask : Nat := 31

variable {α β : Type*}

namespace Config

def calcMaxNumElementsAllowed (c : Config α) (maxElements : Nat) : Nat :=
  if maxElements ≤ (2 ^ 64 - 1) / 100 then maxElements * c.maxLoadFactor100 / 100
  else maxElements / 100 * c.maxLoadFactor100

def calcNumBytesInfo (numElements : Nat) : Nat := (numElements + 8) % 2 ^ 64

def calcNumElementsWithBuffer (c : Config α) (numElements : Nat) : Nat :=
  (numElements + min (c.calcMaxNumElementsAllowed numElements) 0xFF) % 2 ^ 64

def calcNumBytesTotal (c : Config α) (numElements : Nat) : Nat :=
  (numElements * c.nodeSize + calcNumBytesInfo numElements) % 2 ^ 64

end Config

def emptyTable (pool : Pool) : Table α β where
  keyVals _ := none
  info _ := 0
  numElements := 0
  mask := 0
  maxNumElementsAllowed := 0
  infoInc := initialInfoInc
  infoHashShift := 0
  array := 0
  pool := pool

section
variable (c : Config α)

def slotCount (t : Table α β) : Nat := c.calcNumElementsWithBuffer (t.mask + 1)

def infoBytes (t : Table α β) : Nat := Config.calcNumBytesInfo (slotCount c t)

/-- The index of `end()`. An empty table has its nodes and its infos in one place. -/
def endIdx (t : Table α β) : Nat := if t.mask = 0 then 0 else slotCount c t

def keyToIdx (t : Table α β) (key : α) : Nat × Nat :=
  let h := (c.mix (c.hasher key)).toNat
  (t.infoInc + (h &&& infoMask) >>> t.infoHashShift, (h >>> initialInfoNumBits) &&& t.mask)

def keyMatches (t : Table α β) (key : α) (idx : Nat) : Option Bool :=
  (t.keyVals idx).map fun node => c.keyEqual key node.1

/-! ## Walking the infos. The first argument counts the bytes that are left. -/

/-- The loops that call `next`. -/
def nextWhile (inc : Nat) (go : Nat → Nat → Bool) : Nat → Nat → Nat → Option (Nat × Nat)
  | 0, _, _ => none
  | left + 1, info, idx =>
    if go info idx then nextWhile inc go left (info + inc) (idx + 1) else some (info, idx)

def nextWhileLess (t : Table α β) : Nat → Nat → Nat → Option (Nat × Nat) :=
  nextWhile t.infoInc fun info idx => info < t.info idx

def nextWhileLessOrEqual (t : Table α β) : Nat → Nat → Nat → Option (Nat × Nat) :=
  nextWhile t.infoInc fun info idx => info ≤ t.info idx

def nextWhileFull (t : Table α β) : Nat → Nat → Nat → Option (Nat × Nat) :=
  nextWhile t.infoInc fun _ idx => t.info idx ≠ 0

inductive Probe where
  | found (idx : Nat)
  | absent (info idx : Nat)
  deriving DecidableEq

def probeEqual (t : Table α β) (key : α) : Nat → Nat → Nat → Option Probe
  | 0, _, _ => none
  | left + 1, info, idx =>
    if info = t.info idx then
      (keyMatches c t key idx).bind fun same =>
        if same then some (.found idx) else probeEqual t key left (info + t.infoInc) (idx + 1)
    else some (.absent info idx)

def probe (t : Table α β) (key : α) : Option Probe :=
  let (info, idx) := keyToIdx c t key
  (nextWhileLess t (infoBytes c t - idx) info idx).bind fun (info, idx) =>
    probeEqual c t key (infoBytes c t - idx) info idx

def hit (t : Table α β) (key : α) (info idx : Nat) : Option Bool :=
  if info = t.info idx then keyMatches c t key idx else some false

/-- The loop of `findIdx`. -/
def findLoop (t : Table α β) (key : α) : Nat → Nat → Nat → Option (Option Nat)
  | left + 3, info, idx =>
    (hit c t key info idx).bind fun first =>
      if first then some (some idx)
      else (hit c t key (info + t.infoInc) (idx + 1)).bind fun second =>
        if second then some (some (idx + 1))
        else if info + 2 * t.infoInc ≤ t.info (idx + 2) then
          findLoop t key (left + 1) (info + 2 * t.infoInc) (idx + 2)
        else some none
  | _, _, _ => none

def findIdx (t : Table α β) (key : α) : Option Nat :=
  let (info, idx) := keyToIdx c t key
  (findLoop c t key (infoBytes c t - idx) info idx).map fun found => found.getD (endIdx c t)

/-- The loop of `erase(key)`. -/
def eraseLoop (t : Table α β) (key : α) : Nat → Nat → Nat → Option (Option Nat)
  | left + 2, info, idx =>
    (hit c t key info idx).bind fun same =>
      if same then some (some idx)
      else if info + t.infoInc ≤ t.info (idx + 1) then
        eraseLoop t key (left + 1) (info + t.infoInc) (idx + 1)
      else some none
  | _, _, _ => none

/-! ## Moving nodes -/

/-- The loop of `shiftUp` over the nodes. -/
def shiftNodesUp (insertionIdx : Nat) : Nat → (Nat → Option (α × β)) → Nat → Option (α × β)
  | 0, keyVals => keyVals
  | count + 1, keyVals =>
    shiftNodesUp insertionIdx count (update keyVals (insertionIdx + count + 1) (keyVals (insertionIdx + count)))

/-- The loop of `shiftUp` over the infos. -/
def shiftInfosUp (insertionIdx : Nat) : Nat → Table α β → Table α β
  | 0, t => t
  | count + 1, t =>
    let info := (t.info (insertionIdx + count) + t.infoInc) % 256
    shiftInfosUp insertionIdx count { t with
        info := update t.info (insertionIdx + count + 1) info
        maxNumElementsAllowed := if 0xFF < info + t.infoInc then 0 else t.maxNumElementsAllowed }

def shiftUp (t : Table α β) (startIdx insertionIdx : Nat) : Table α β :=
  let count := startIdx - insertionIdx
  shiftInfosUp insertionIdx count { t with keyVals := shiftNodesUp insertionIdx count t.keyVals }

/-- `destroy` of a node: the cell of the pool is free again. -/
def destroyNode (t : Table α β) : Table α β :=
  if c.isFlat then t else { t with pool := { t.pool with free := t.pool.free + 1 } }

/-- The loop of `shiftDown`. -/
def shiftDownLoop : Nat → Table α β → Nat → Option (Table α β)
  | left + 2, t, idx =>
    if 2 * t.infoInc ≤ t.info (idx + 1) then
      shiftDownLoop (left + 1) { t with
          info := update t.info idx ((t.info (idx + 1) - t.infoInc) % 256)
          keyVals := update t.keyVals idx (t.keyVals (idx + 1)) }
        (idx + 1)
    else some { t with
        info := update t.info idx 0
        keyVals := update t.keyVals idx none }
  | _, _, _ => none

def shiftDown (t : Table α β) (idx : Nat) : Option (Table α β) :=
  shiftDownLoop (infoBytes c t - idx) (destroyNode c t) idx

/-- The end of every insertion: find an empty slot, make room and put the node. -/
def putNode (t : Table α β) (node : α × β) (insertionInfo insertionIdx : Nat) : Option (Table α β) :=
  let t := if 0xFF < insertionInfo + t.infoInc then { t with maxNumElementsAllowed := 0 } else t
  (nextWhileFull t (infoBytes c t - insertionIdx) insertionInfo insertionIdx).map fun (_, idx) =>
    let t := if idx = insertionIdx then t else shiftUp t idx insertionIdx
    { t with
      keyVals := update t.keyVals insertionIdx (some node)
      info := update t.info insertionIdx (insertionInfo % 256)
      numElements := t.numElements + 1 }

/-! ## Changing the infos -/

def loadWord (info : Nat → Nat) (idx : Nat) : Nat :=
  info idx + 2 ^ 8 * info (idx + 1) + 2 ^ 16 * info (idx + 2) + 2 ^ 24 * info (idx + 3)
    + 2 ^ 32 * info (idx + 4) + 2 ^ 40 * info (idx + 5) + 2 ^ 48 * info (idx + 6)
    + 2 ^ 56 * info (idx + 7)

def storeWord (info : Nat → Nat) (idx value : Nat) : Nat → Nat := fun i =>
  if idx ≤ i ∧ i < idx + 8 then value >>> (8 * (i - idx)) % 256 else info i

/-- The loop of `try_increase_info`. -/
def halveInfos : Nat → (Nat → Nat) → Nat → Nat → Nat
  | 0, info, _ => info
  | words + 1, info, idx =>
    let value := (loadWord info idx >>> 1) &&& 0x7f7f7f7f7f7f7f7f
    halveInfos words (storeWord info idx value) (idx + 8)

def tryIncreaseInfo (t : Table α β) : Option (Table α β) :=
  if t.infoInc ≤ 2 then none
  else
    let numElementsWithBuffer := slotCount c t
    let info := halveInfos ((numElementsWithBuffer + 7) / 8) t.info 0
    some { t with
        infoInc := t.infoInc >>> 1
        infoHashShift := t.infoHashShift + 1
        info := update info numElementsWithBuffer 1
        maxNumElementsAllowed := c.calcMaxNumElementsAllowed (t.mask + 1) }

/-! ## Growing -/

def insertMove (node : α × β) (s : State α β) : Call (State α β) Nat :=
  let ready := if s.maxNumElementsAllowed = 0 then tryIncreaseInfo c s.toTable else some s.toTable
  match ready with
  | none => .overflowError s
  | some t =>
    let (info, idx) := keyToIdx c t node.1
    .ofOption <| (nextWhileLessOrEqual t (infoBytes c t - idx) info idx).bind fun (info, idx) =>
      (putNode c t node (info % 256) idx).map fun t => (idx, { s with toTable := t })

def initData (maxElements : Nat) (s : State α β) : Call (State α β) Unit :=
  let numElementsWithBuffer := c.calcNumElementsWithBuffer maxElements
  let numBytesTotal := c.calcNumBytesTotal numElementsWithBuffer
  -- the sentinel is the byte behind the last info
  if numElementsWithBuffer * c.nodeSize + numElementsWithBuffer < numBytesTotal then
    .returned ()
      { keyVals := fun _ => none
        info := fun idx => if idx = numElementsWithBuffer then 1 else 0
        numElements := 0
        mask := maxElements - 1
        maxNumElementsAllowed := c.calcMaxNumElementsAllowed maxElements
        infoInc := initialInfoInc
        infoHashShift := 0
        array := s.heap.next
        pool := s.pool
        heap := s.heap.allocate s.pool.allocator numBytesTotal }
  else .undefined

/-- `BulkPoolAllocator::add` -/
def poolAdd (s : State α β) (block numBytes : Nat) : State α β :=
  { s with pool :=
      { s.pool with
        listForFree := block :: s.pool.listForFree
        free := s.pool.free + (numBytes - c.alignment) / c.alignedSize } }

def addOrFree (s : State α β) (block numBytes : Nat) : State α β :=
  if c.isFlat ∨ numBytes < c.alignment + c.alignedSize then
    { s with heap := s.heap.deallocate ⟨s.pool.allocator, block, numBytes⟩ }
  else poolAdd c s block numBytes

/-- The loop of `rehashPowerOfTwo`. -/
def moveNodes (old : Table α β) : List Nat → State α β → Call (State α β) Unit
  | [], s => .returned () s
  | idx :: rest, s =>
    if old.info idx ≠ 0 then
      match old.keyVals idx with
      | some node => (insertMove c node s).andThen fun _ s => moveNodes old rest s
      | none => .undefined
    else moveNodes old rest s

def rehashPowerOfTwo (numBuckets : Nat) (s : State α β) : Call (State α β) Unit :=
  let oldMaxElementsWithBuffer := slotCount c s.toTable
  (initData c numBuckets s).andThen fun _ new =>
    if 1 < oldMaxElementsWithBuffer then
      (moveNodes c s.toTable (List.range oldMaxElementsWithBuffer) new).andThen fun _ new =>
        .returned () (addOrFree c new s.array (c.calcNumBytesTotal oldMaxElementsWithBuffer))
    else .returned () new

def increaseSize (s : State α β) : Call (State α β) Unit :=
  if s.mask = 0 then initData c initialNumElements s
  else
    let maxNumElementsAllowed := c.calcMaxNumElementsAllowed (s.mask + 1)
    let increased :=
      if s.numElements < maxNumElementsAllowed then tryIncreaseInfo c s.toTable else none
    match increased with
    | some t => .returned () { s with toTable := t }
    | none =>
      if s.numElements * 2 % 2 ^ 64 < maxNumElementsAllowed then .overflowError s
      else rehashPowerOfTwo c ((s.mask + 1) * 2 % 2 ^ 64) s

def reserveSize (minElementsAllowed : Nat) : Nat → Nat → Nat
  | 0, newSize => newSize
  | doublings + 1, newSize =>
    if c.calcMaxNumElementsAllowed newSize < minElementsAllowed ∧ newSize ≠ 0 then
      reserveSize minElementsAllowed doublings (newSize * 2 % 2 ^ 64)
    else newSize

/-- The size that `reserve` decides on. It is a power of two until it wraps to zero, so sixty-four
doublings are enough. -/
def newSize (count : Nat) (t : Table α β) : Nat :=
  reserveSize c (max count t.numElements) 64 initialNumElements

def reserveOrRehash (count : Nat) (forceRehash : Bool) (s : State α β) : Call (State α β) Unit :=
  let size := newSize c count s.toTable
  if size = 0 then .overflowError s
  else if forceRehash ∨ s.mask + 1 < size then rehashPowerOfTwo c size s
  else .returned () s

def reserve (count : Nat) (s : State α β) : Call (State α β) Unit := reserveOrRehash c count false s

def rehash (count : Nat) (s : State α β) : Call (State α β) Unit := reserveOrRehash c count true s

/-! ## Nodes from the pool -/

def calcNumElementsToAlloc : List Nat → Nat → Nat
  | [], numAllocs => numAllocs
  | _ :: rest, numAllocs =>
    if numAllocs * 2 ≤ 16384 then calcNumElementsToAlloc rest (numAllocs * 2) else numAllocs

def performAllocation (s : State α β) : State α β :=
  let bytes := c.alignment + c.alignedSize * calcNumElementsToAlloc s.pool.listForFree 4
  poolAdd c { s with heap := s.heap.allocate s.pool.allocator bytes } s.heap.next bytes

def newNode (s : State α β) : State α β :=
  if c.isFlat then s
  else
    let s := if s.pool.free = 0 then performAllocation c s else s
    { s with pool := { s.pool with free := s.pool.free - 1 } }

/-! ## Operations -/

/-- `doInsert` and `doCreateByKey`: the slot of the node, and whether it is new. Each round but the
last halves `mInfoInc` or makes the array larger, so there are less than `rounds` of them. -/
def insertLoop (node : α × β) (construct : State α β → State α β) : Nat → State α β → Call (State α β) (Nat × Bool)
  | 0, _ => .undefined
  | rounds + 1, s =>
    match probe c s.toTable node.1 with
    | none => .undefined
    | some (.found idx) => .returned (idx, false) s
    | some (.absent info idx) =>
      if s.maxNumElementsAllowed ≤ s.numElements then
        (increaseSize c s).andThen fun _ s => insertLoop node construct rounds s
      else
        .ofOption <| (putNode c s.toTable node info idx).map fun t =>
          ((idx, true), construct { s with toTable := t })

def insertRounds : Nat := 320

def doInsert (node : α × β) (construct : State α β → State α β) (s : State α β) : Call (State α β) (Nat × Bool) :=
  insertLoop c node construct insertRounds s

def insert (key : α) (value : β) (s : State α β) : Call (State α β) (Nat × Bool) :=
  doInsert c (key, value) (newNode c) s

def emplace (key : α) (value : β) (s : State α β) : Call (State α β) (Nat × Bool) :=
  (doInsert c (key, value) id (newNode c s)).andThen fun (idx, inserted) s =>
    .returned (idx, inserted) (if inserted then s else { s with toTable := destroyNode c s.toTable })

def tryEmplace (key : α) (value : β) (s : State α β) : Call (State α β) (Nat × Bool) :=
  match findIdx c s.toTable key with
  | none => .undefined
  | some idx => if idx = endIdx c s.toTable then emplace c key value s else .returned (idx, false) s

def insertOrAssign (key : α) (value : β) (s : State α β) : Call (State α β) (Nat × Bool) :=
  match findIdx c s.toTable key with
  | none => .undefined
  | some idx =>
    if idx = endIdx c s.toTable then emplace c key value s
    else match s.keyVals idx with
      | none => .undefined
      | some node =>
        .returned (idx, false) { s with keyVals := update s.keyVals idx (some (node.1, value)) }

def doCreateByKey [Inhabited β] (key : α) (s : State α β) : Call (State α β) Nat :=
  (doInsert c (key, default) (newNode c) s).andThen fun (idx, _) s => .returned idx s

def find (key : α) (s : State α β) : Call (State α β) Nat :=
  .ofOption <| (findIdx c s.toTable key).map fun idx => (idx, s)

def count (key : α) (s : State α β) : Call (State α β) Nat :=
  .ofOption <| (findIdx c s.toTable key).map fun idx =>
    (if idx ≠ endIdx c s.toTable then 1 else 0, s)

/-- `erase(key)` -/
def eraseKey (key : α) (s : State α β) : Call (State α β) Nat :=
  let (info, idx) := keyToIdx c s.toTable key
  match eraseLoop c s.toTable key (infoBytes c s.toTable - idx) info idx with
  | none => .undefined
  | some none => .returned 0 s
  | some (some idx) =>
    .ofOption <| (shiftDown c s.toTable idx).map fun t =>
      (1, { s with toTable := { t with numElements := t.numElements - 1 } })

/-- `Destroyer::nodes` -/
def destroyNodes (t : Table α β) : Table α β :=
  let nodes := ((List.range (slotCount c t)).filter fun idx => t.info idx ≠ 0).length
  { t with
    numElements := 0
    keyVals := fun idx => if idx < slotCount c t then none else t.keyVals idx
    pool := if c.isFlat then t.pool else { t.pool with free := t.pool.free + nodes } }

def clear (s : State α β) : State α β :=
  if s.numElements = 0 then s
  else
    let t := destroyNodes c s.toTable
    let numElementsWithBuffer := slotCount c t
    { s with toTable :=
        { t with
          info := fun idx =>
            if idx = numElementsWithBuffer then 1
            else if idx < Config.calcNumBytesInfo numElementsWithBuffer then 0 else t.info idx
          infoInc := initialInfoInc
          infoHashShift := 0 } }

/-! ## Iteration -/

/-- `_BitScanForward64` -/
def countTrailingZeroes : Nat → Nat → Nat
  | 0, _ => 0
  | bits + 1, word => if word % 2 = 1 then 0 else countTrailingZeroes bits (word / 2) + 1

def fastForward (t : Table α β) : Nat → Nat → Option Nat
  | left + 8, idx =>
    let n := loadWord t.info idx
    if n = 0 then fastForward t left (idx + 8) else some (idx + countTrailingZeroes 64 n / 8)
  | _, _ => none

/-- `begin()` -/
def beginIdx (t : Table α β) : Option Nat :=
  if t.numElements = 0 then some (endIdx c t) else fastForward t (infoBytes c t) 0

/-- `Iter::operator++` -/
def nextIdx (t : Table α β) (idx : Nat) : Option Nat :=
  fastForward t (infoBytes c t - (idx + 1)) (idx + 1)

/-- The nodes from an iterator to `end()`, which is at most `left` slots away. -/
def visitFrom (t : Table α β) : Nat → Nat → Option (List (α × β))
  | 0, idx => if idx = endIdx c t then some [] else none
  | left + 1, idx =>
    if idx = endIdx c t then some []
    else (t.keyVals idx).bind fun node =>
      (nextIdx c t idx).bind fun idx => (visitFrom t left idx).map (node :: ·)

def visitAll (t : Table α β) : Option (List (α × β)) :=
  (beginIdx c t).bind fun idx => visitFrom c t (endIdx c t) idx

/-- `erase(pos)` -/
def eraseAt (idx : Nat) (s : State α β) : Call (State α β) Nat :=
  .ofOption <| (shiftDown c s.toTable idx).bind fun t =>
    let t := { t with numElements := t.numElements - 1 }
    let after := if t.info idx ≠ 0 then some idx else nextIdx c t idx
    after.map fun after => (after, { s with toTable := t })

/-! ## Lifetimes -/

/-- A pool that was moved from. -/
def Pool.moved (pool : Pool) : Pool := { pool with listForFree := [], free := 0 }

/-- `BulkPoolAllocator::reset` -/
def resetPool (s : State α β) : State α β :=
  { s with
    pool := s.pool.moved
    heap := s.pool.listForFree.foldl
      (fun heap chunk => heap.deallocate ⟨s.pool.allocator, chunk, c.alignedSize⟩) s.heap }

/-- The array is released when `nodesDoNotDeallocate` has set `mNumElements` to
zero. -/
def destroy (s : State α β) : State α β :=
  if s.mask = 0 then s
  else
    let s := { s with numElements := 0 }
    { s with
      heap := s.heap.deallocate ⟨s.pool.allocator, s.array, s.numElements * c.nodeSize % 2 ^ 64⟩ }

/-- `~Table` -/
def destructor (s : State α β) : Heap := (resetPool c (destroy c s)).heap

def allocateArray (source : Table α β) (s : State α β) : State α β :=
  { s with
    array := s.heap.next
    heap := s.heap.allocate s.pool.allocator (c.calcNumBytesTotal (slotCount c source)) }

/-- `Cloner` -/
def cloneNodes : List Nat → State α β → State α β
  | [], s => s
  | idx :: rest, s => cloneNodes rest (if s.info idx ≠ 0 then newNode c s else s)

def cloneData (source : Table α β) (s : State α β) : State α β :=
  cloneNodes c (List.range (slotCount c source)) { s with
      keyVals := source.keyVals
      info := source.info
      numElements := source.numElements
      mask := source.mask
      maxNumElementsAllowed := source.maxNumElementsAllowed
      infoInc := source.infoInc
      infoHashShift := source.infoHashShift }

def copyConstruct (defaultAllocator : Nat) (source : Table α β) (heap : Heap) : State α β :=
  let allocator := if c.isFlat then source.pool.allocator else defaultAllocator
  let s : State α β := { emptyTable ⟨allocator, [], 0⟩ with heap := heap }
  if source.numElements = 0 then s else cloneData c source (allocateArray c source s)

def assignPool (source pool : Pool) : Pool :=
  if c.isFlat then { pool with allocator := source.allocator } else pool

def copyAssign (source : Table α β) (s : State α β) : State α β :=
  if source.numElements = 0 then
    if s.mask = 0 then s
    else
      let s := destroy c s
      { emptyTable (assignPool c source.pool s.pool) with heap := s.heap }
  else
    let s := { s with toTable := destroyNodes c s.toTable }
    let s :=
      if s.mask = source.mask then s
      else
        let s :=
          if s.mask = 0 then s
          else
            { s with
              heap := s.heap.deallocate ⟨s.pool.allocator, s.array, s.numElements * c.nodeSize % 2 ^ 64⟩ }
        allocateArray c source s
    cloneData c source { s with pool := assignPool c source.pool s.pool }

def moveConstruct (source : Table α β) : Table α β × Table α β :=
  if source.mask = 0 then (emptyTable source.pool, { source with pool := source.pool.moved })
  else (source, emptyTable source.pool.moved)

def moveAssign (source : Table α β) (s : State α β) : State α β × Table α β :=
  if source.mask = 0 then (clear c s, source)
  -- `destroy`, and `reset` by the assignment of the pool
  else ({ source with heap := destructor c s }, emptyTable source.pool.moved)

end

end Ktl.HashTable
