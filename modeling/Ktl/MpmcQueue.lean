import Ktl.NodeAllocator

/-!
The lock-free `mpmc_queue`: a list of nodes from the dummy node of `m_head` on, with `m_tail`
at one of them. Every atomic operation of `push`, `pop` and of the node allocator inside
them is one step of one thread, and any number of threads interleave.
-/
namespace Ktl.MpmcQueue

open TaggedPointer LinkedList Runs

/-- A loaded tagged pointer; the code does not see the counter of updates. -/
structure Snapshot where
  value : CompressedPointer
  updates : Nat
  deriving DecidableEq

/-- Where a thread stands inside `push` or `pop`, by the operation it does next. -/
inductive Pc (α : Type) where
  | idle
  /-- `push`: inside `allocate_single_object` -/
  | allocate (value : α)
  /-- `push`: the constructor of `node` loads `next` and stores it with the next tag -/
  | construct (value : α) (newNode : Ptr)
  | constructLoad (value : α) (newNode : Ptr)
  | constructStore (value : α) (newNode : Ptr) (own : CompressedPointer)
  /-- `push`: the loop -/
  | pushTail (value : α) (newNode : Ptr)
  | pushNext (value : α) (newNode : Ptr) (tail : Snapshot)
  | pushCurrentTail (value : α) (newNode : Ptr) (tail next : Snapshot)
  | pushLink (value : α) (newNode : Ptr) (tail next : Snapshot)
  | pushSwing (newNode : Ptr) (tail : Snapshot)
  | pushHelp (value : α) (newNode : Ptr) (tail next : Snapshot)
  /-- `pop`: the loop -/
  | popHead
  | popTail (head : Snapshot)
  | popNext (head tail : Snapshot)
  | popCurrentHead (head tail : Snapshot) (next : CompressedPointer)
  | popHelp (tail : Snapshot) (next : CompressedPointer)
  | popValue (head : Snapshot) (next : CompressedPointer)
  | popUnlink (head : Snapshot) (next : CompressedPointer) (value : α)
  /-- `pop`: `destroy_node`, before and inside `deallocate_single_object` -/
  | destroyNode (target : Ptr)
  | deallocate
  deriving DecidableEq

structure State (τ α : Type) where
  /-- `m_head` and `m_tail` -/
  head : CompressedPointer
  tail : CompressedPointer
  /-- the members of every node -/
  next : Ptr → CompressedPointer
  value : Ptr → α
  /-- `m_alc` -/
  alc : NodeAllocator.State τ
  pc : τ → Pc α
  headUpdates : Nat
  tailUpdates : Nat
  nextUpdates : Ptr → Nat
  /-- the pushed values in the order in which their nodes were linked -/
  linked : List α
  /-- the values that successful pops returned, in order -/
  popped : List α
  /-- the queue was empty at some step of the running call -/
  sawEmpty : τ → Bool
  /-- for every `pop` that returned false, whether the queue was empty at some
  step of it -/
  failedPops : List Bool

inductive Action (τ α : Type) where
  | push (t : τ) (value : α)
  | pop (t : τ)
  /-- the next operation of `t` outside the allocator -/
  | advance (t : τ)
  /-- a weak compare-exchange of `t` fails spuriously -/
  | failWeak (t : τ)
  /-- the members of a new node are initialised; `word` is what its first bytes
  then hold -/
  | construct (t : τ) (word : CompressedPointer)
  /-- an operation inside the allocator; `bytes` is what its nodes hold -/
  | allocator (a : NodeAllocator.Action τ) (bytes : Ptr → α)

def inside {τ : Type} : NodeAllocator.Action τ → Option τ
  | .createMemoryBlock t _ => some t
  | .createFails t => some t
  | .readNext t => some t
  | .allocCas t => some t
  | .storeNext t => some t
  | .deallocCas t => some t
  | _ => none

variable {τ α : Type}

namespace State

def headSnapshot (s : State τ α) : Snapshot := ⟨s.head, s.headUpdates⟩

def tailSnapshot (s : State τ α) : Snapshot := ⟨s.tail, s.tailUpdates⟩

def nextSnapshot (s : State τ α) (node : Ptr) : Snapshot := ⟨s.next node, s.nextUpdates node⟩

def isEmpty (s : State τ α) : Bool := s.linked.length == s.popped.length

def observe (s : State τ α) : State τ α :=
  { s with sawEmpty := fun t => s.sawEmpty t || s.isEmpty }

def setNext (s : State τ α) (node : Ptr) (word : CompressedPointer) : State τ α :=
  { s with
    next := Function.update s.next node word
    nextUpdates := Function.update s.nextUpdates node (s.nextUpdates node + 1) }

/-- `cas_strong_helper` for `m_tail`. -/
def casTail (s : State τ α) (expected : CompressedPointer) (node : Ptr) : State τ α :=
  if s.tail = expected then
    { s with tail := packPtr node (getNextTag expected), tailUpdates := s.tailUpdates + 1 }
  else s

def nodes (s : State τ α) : List Ptr :=
  follow (fun p => target (s.next p)) s.alc.obtained.length (target s.head)

variable [DecidableEq τ]

def goto (s : State τ α) (t : τ) (pc : Pc α) : State τ α :=
  { s with pc := Function.update s.pc t pc }

/-- The allocator has made a step of thread `t`; a call that has returned goes
on in the queue. -/
def settle (s : State τ α) (t : τ) : State τ α :=
  match s.pc t, s.alc.pc t with
  | .allocate value, .idle =>
    match s.alc.result t with
    | some newNode => s.goto t (.construct value newNode)
    -- the exception of the allocator leaves `push`
    | none => s.goto t .idle
  | .deallocate, .idle => s.goto t .idle
  | _, _ => s

end State

variable [DecidableEq τ]

/-- The next operation of a thread inside `push` or `pop`. -/
def advance (s : State τ α) (t : τ) : Option (State τ α) :=
  match s.pc t with
  | .constructLoad value newNode => some (s.goto t (.constructStore value newNode (s.next newNode)))
  | .constructStore value newNode own =>
    some ((s.setNext newNode (packPtr 0 (getNextTag own))).goto t (.pushTail value newNode))
  | .pushTail value newNode => some (s.goto t (.pushNext value newNode s.tailSnapshot))
  | .pushNext value newNode tail =>
    let next := s.nextSnapshot (extractPtr tail.value)
    some (s.goto t (.pushCurrentTail value newNode tail next))
  | .pushCurrentTail value newNode tail next =>
    if samePointer tail.value s.tail then
      if isNull next.value then some (s.goto t (.pushLink value newNode tail next))
      else some (s.goto t (.pushHelp value newNode tail next))
    else some (s.goto t (.pushTail value newNode))
  | .pushLink value newNode tail next =>
    let tailPtr := extractPtr tail.value
    if s.next tailPtr = next.value then
      let linked := s.setNext tailPtr (packPtr newNode (getNextTag next.value))
      some { linked.goto t (.pushSwing newNode tail) with linked := s.linked ++ [value] }
    else some (s.goto t (.pushTail value newNode))
  | .pushSwing newNode tail => some ((s.casTail tail.value newNode).goto t .idle)
  | .pushHelp value newNode tail next =>
    some ((s.casTail tail.value (extractPtr next.value)).goto t (.pushTail value newNode))
  | .popHead => some (s.goto t (.popTail s.headSnapshot))
  | .popTail head => some (s.goto t (.popNext head s.tailSnapshot))
  | .popNext head tail => some (s.goto t (.popCurrentHead head tail (s.next (extractPtr head.value))))
  | .popCurrentHead head tail next =>
    if samePointer head.value s.head then
      if samePointer head.value tail.value then
        if isNull next then
          some { s.goto t .idle with failedPops := s.sawEmpty t :: s.failedPops }
        else some (s.goto t (.popHelp tail next))
      else if isNull next then some (s.goto t .popHead)
      else some (s.goto t (.popValue head next))
    else some (s.goto t .popHead)
  | .popHelp tail next => some ((s.casTail tail.value (extractPtr next)).goto t .popHead)
  | .popValue head next => some (s.goto t (.popUnlink head next (s.value (extractPtr next))))
  | .popUnlink head next value =>
    if s.head = head.value then
      some { s.goto t (.destroyNode (extractPtr head.value)) with
        head := packPtr (extractPtr next) (getNextTag head.value)
        headUpdates := s.headUpdates + 1
        popped := s.popped ++ [value] }
    else some (s.goto t .popHead)
  | .destroyNode target =>
    (NodeAllocator.step s.alc (.callDeallocate t target)).map fun alc =>
      { s.goto t .deallocate with alc := alc }
  | _ => none

/-- A spurious failure of `cas_weak_helper`. -/
def failWeak (s : State τ α) (t : τ) : Option (State τ α) :=
  match s.pc t with
  | .pushLink value newNode _ _ => some (s.goto t (.pushTail value newNode))
  | .popUnlink _ _ _ => some (s.goto t .popHead)
  | _ => none

/-- `node(const Ty&)` up to its body: the value, then `next{0}`. The value lies over the link word
of the free list. -/
def construct (s : State τ α) (t : τ) (word : CompressedPointer) : Option (State τ α) :=
  match s.pc t with
  | .construct value newNode =>
    (NodeAllocator.step s.alc (.write newNode word)).map fun alc =>
      { (s.setNext newNode (fromNumber 0)).goto t (.constructLoad value newNode) with
        value := Function.update s.value newNode value
        alc := alc }
  | _ => none

def act (s : State τ α) : Action τ α → Option (State τ α)
  | .push t value =>
    match s.pc t with
    | .idle =>
      (NodeAllocator.step s.alc (.callAllocate t)).map fun alc =>
        { s.goto t (.allocate value) with alc := alc }
    | _ => none
  | .pop t =>
    match s.pc t with
    | .idle => some { s.goto t .popHead with sawEmpty := Function.update s.sawEmpty t false }
    | _ => none
  | .advance t => advance s t
  | .failWeak t => failWeak s t
  | .construct t word => construct s t word
  | .allocator a bytes =>
    match inside a with
    | some t =>
      (NodeAllocator.step s.alc a).map fun alc =>
        let value := fun p => if alc.held.contains p then s.value p else bytes p
        { s with alc := alc, value := value }.settle t
    | none => none

def step (s : State τ α) (a : Action τ α) : Option (State τ α) := act s.observe a

/-- `create_empty_node`: a block of the free list, or `fresh` if it is empty. -/
def createEmptyNode (alc : NodeAllocator.State τ) (t : τ) (fresh : Ptr) : Option (NodeAllocator.State τ) :=
  exec NodeAllocator.step NodeAllocator.Window alc
    (if isNull alc.head then [.callAllocate t, .createMemoryBlock t fresh]
      else [.callAllocate t, .readNext t, .allocCas t])

/-- The state after a constructor of the queue: one node, at which both `m_head`
and `m_tail` point. -/
def initialState (next : Ptr → CompressedPointer) (value : Ptr → α) (alc : NodeAllocator.State τ)
    (t : τ) (fresh : Ptr) : Option (State τ α) :=
  (createEmptyNode alc t fresh).bind fun alc =>
    (alc.result t).map fun dummy =>
      { head := packPtr dummy 0
        tail := packPtr dummy 0
        next := Function.update next dummy (fromNumber 0)
        value := value
        alc := alc
        pc := fun _ => .idle
        headUpdates := 0
        tailUpdates := 0
        nextUpdates := fun _ => 0
        linked := []
        popped := []
        sawEmpty := fun _ => false
        failedPops := [] }

end Ktl.MpmcQueue
