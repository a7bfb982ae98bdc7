import Ktl.ObjectMemory
import Ktl.Outcome

/-!
`vector`: its buffer of objects, size and capacity, and the operations that
construct, move, assign and destroy the objects. No operation of the elements
throws; a request for memory may.
-/
namespace Ktl.Vector

open ObjectMemory

structure Element (α : Type) where
  /-- `sizeof(Ty)` -/
  size : Nat
  size_pos : 0 < size
  /-- what a value becomes when it is moved from -/
  moved : α → α
  /-- a default constructed element -/
  initial : α
  /-- objects are moved, not copied, to a new place -/
  movesOnTransfer : Bool
  /-- implicit conversions to and from `size_type` -/
  toCount : α → Nat
  ofCount : Nat → α
  /-- `fill_n` of the value is a `memset` of zeroes -/
  zeroedByMemset : α → Bool
  /-- a value whose first bytes are set to zero -/
  zeroFirst : Nat → α → α

structure Impl where
  buffer : Option Nat
  size : Nat
  capacity : Nat
  deriving DecidableEq

def Impl.empty : Impl := ⟨none, 0, 0⟩

structure State (α : Type) where
  memory : Memory α
  this : Impl

inductive Error where
  | lengthError
  | badAlloc
  deriving DecidableEq

abbrev Result (α : Type) := Outcome Error (State α)

/-- An argument of the element type: a value of the caller, or an element of
the vector itself. -/
inductive Source (α : Type) where
  | external (v : α)
  | element (i : Nat)
  deriving DecidableEq

variable {α : Type}

def Source.value (src : Source α) (m : Memory α) (buffer : Option Nat) : Option α :=
  match src with
  | .external v => some v
  | .element i => m.read buffer i

def Source.use (src : Source α) (m : Memory α) (buffer : Option Nat) (f : Memory α → α → Memory α) :
    Memory α :=
  match src.value m buffer with
  | some v => f m v
  | none => m.blame

def maxSize : Nat := 2 ^ 64 - 2

def calcGrowthUnchecked (oldCapacity : Nat) : Nat :=
  if oldCapacity = 0 then 1 else oldCapacity * 2 % 2 ^ 64

def calcGrowth (capacity : Nat) : Nat :=
  if capacity = maxSize then maxSize + 1 else min maxSize (calcGrowthUnchecked capacity)

def calcOptimalGrowth (capacity required : Nat) : Nat := max (calcGrowth capacity) required

namespace State

variable (e : Element α) (s : State α)

def setSize (n : Nat) : State α := { s with this := { s.this with size := n } }

def withMemory (m : Memory α) : State α := { s with memory := m }

def destroyAndDeallocate : Memory α :=
  (s.memory.destroyN s.this.buffer 0 s.this.size).deallocate s.this.buffer s.this.capacity

/-- `construct` fills a part of the new buffer and `transfer` takes the old elements over;
`adjustment` is what the construction handler returns. -/
def growUnchecked (adjustSize : Bool) (newCapacity : Nat) (adjustment : Nat)
    (construct transfer : Memory α → Option Nat → Memory α) : Result α :=
  match s.memory.allocate newCapacity e.size with
  | (m, none) => .threw .badAlloc (s.withMemory m)
  | (m, some p) =>
    let m := transfer (construct m (some p)) (some p)
    .returned ⟨(s.withMemory m).destroyAndDeallocate,
      ⟨some p, if adjustSize then (s.this.size + adjustment) % 2 ^ 64 else s.this.size, newCapacity⟩⟩

theorem growUnchecked_of_fails (h : s.memory.fails s.memory.next = true) :
    s.growUnchecked e adjustSize newCapacity adjustment construct transfer =
      .threw .badAlloc (s.withMemory { s.memory with next := s.memory.next + 1 }) := by
  simp [growUnchecked, Memory.allocate, h]

theorem growUnchecked_of_not_fails (adjustSize : Bool) (newCapacity adjustment : Nat)
    (construct transfer : Memory α → Option Nat → Memory α) (h : s.memory.fails s.memory.next = false) :
    s.growUnchecked e adjustSize newCapacity adjustment construct transfer =
      .returned ⟨(s.withMemory (transfer (construct (s.memory.allocated newCapacity e.size)
          (some s.memory.next)) (some s.memory.next))).destroyAndDeallocate,
        ⟨some s.memory.next, if adjustSize then (s.this.size + adjustment) % 2 ^ 64 else s.this.size,
          newCapacity⟩⟩ := by
  simp [growUnchecked, Memory.allocate, h]

theorem eq_of_growUnchecked
    (h : s.growUnchecked e adjustSize newCapacity adjustment construct transfer = .returned s') :
    s' = ⟨(s.withMemory (transfer (construct (s.memory.allocated newCapacity e.size)
        (some s.memory.next)) (some s.memory.next))).destroyAndDeallocate,
      ⟨some s.memory.next, if adjustSize then (s.this.size + adjustment) % 2 ^ 64 else s.this.size, newCapacity⟩⟩ := by
  cases hfail : s.memory.fails s.memory.next with
  | true =>
    rw [growUnchecked_of_fails e s hfail] at h
    cases h
  | false =>
    rw [growUnchecked_of_not_fails e s _ _ _ _ _ hfail] at h
    cases h
    rfl

def grow (adjustSize : Bool) (newCapacity : Nat) (adjustment : Nat)
    (construct transfer : Memory α → Option Nat → Memory α) : Result α :=
  if newCapacity ≤ maxSize then s.growUnchecked e adjustSize newCapacity adjustment construct transfer
  else .threw .lengthError s

def left : α → α := if e.movesOnTransfer then e.moved else id

def transferWithoutShift (m : Memory α) (p : Option Nat) : Memory α :=
  m.transferN (left e) s.this.buffer 0 p 0 s.this.size

def transferWithShiftRight (l r : Nat) (m : Memory α) (p : Option Nat) : Memory α :=
  (m.transferN (left e) s.this.buffer 0 p 0 l).transferN (left e) s.this.buffer l p r (s.this.size - l)

def constructAt (pos : Nat) (src : Source α) (m : Memory α) (p : Option Nat) : Memory α :=
  src.use m s.this.buffer fun m v => m.construct p pos v

/-- `make_construct_fill_helper` -/
def constructFill (pos count : Nat) (src : Source α) (m : Memory α) (p : Option Nat) : Memory α :=
  src.use m s.this.buffer fun m v => m.constructList p pos (List.replicate count v)

/-- `make_dummy_transfer` -/
def keep (m : Memory α) (_ : Option Nat) : Memory α := m

def shiftLeft (m : Memory α) (p : Option Nat) (first last offset : Nat) : Memory α :=
  if offset = 0 ∨ last - first < offset then m
  else m.moveN e.moved p (first + offset) first (last - first - offset)

def shiftRight (m : Memory α) (p : Option Nat) (first last offset : Nat) : Memory α :=
  if offset = 0 ∨ last - first < offset then m
  else m.moveBackwardN e.moved p first (first + offset) (last - first - offset)

def emplaceBack (src : Source α) : Result α :=
  if s.this.size = s.this.capacity then
    s.grow e true (calcGrowth s.this.capacity) 1 (s.constructAt s.this.size src) (s.transferWithoutShift e)
  else
    .returned ((s.withMemory (s.constructAt s.this.size src s.memory s.this.buffer)).setSize (s.this.size + 1))

def popBack : State α :=
  (s.withMemory (s.memory.destroy s.this.buffer (s.this.size - 1))).setSize (s.this.size - 1)

def emplace (offset : Nat) (src : Source α) : Result α :=
  if offset = s.this.size then s.emplaceBack e src
  else if s.this.size = s.this.capacity then
    s.grow e true (calcGrowth s.this.capacity) 1 (s.constructAt offset src)
      (s.transferWithShiftRight e offset (offset + 1))
  else
    let p := s.this.buffer
    let m := src.use s.memory p fun m tmp =>
      let m := m.take p (s.this.size - 1) (left e) fun m v => m.construct p s.this.size v
      (shiftRight e m p offset s.this.size 1).assign p offset tmp
    .returned ((s.withMemory m).setSize (s.this.size + 1))

/-- `fill_n`; a `memset` is told the number of elements instead of that of bytes. -/
def fillN (m : Memory α) (p : Option Nat) (first count : Nat) (v : α) : Memory α :=
  if e.zeroedByMemset v then
    let m := m.assignList p first (List.replicate (count / e.size) v)
    if count % e.size = 0 then m
    else m.take p (first + count / e.size) (e.zeroFirst (count % e.size)) fun m _ => m
  else m.assignList p first (List.replicate count v)

def insertNWithoutGrow (offset count : Nat) (v : α) (m : Memory α) : Memory α :=
  let p := s.this.buffer
  let residue := s.this.size - offset
  if count ≤ residue then
    let m := m.transferN (left e) p (offset + (residue - count)) p s.this.size count
    fillN e (shiftRight e m p offset s.this.size count) p offset count v
  else
    let inRawMemory := count - residue
    let m := m.constructList p s.this.size (List.replicate inRawMemory v)
    let m := m.transferN (left e) p offset p (s.this.size + inRawMemory) residue
    fillN e m p offset residue v

def insertWithoutGrow (offset : Nat) (vs : List α) (m : Memory α) : Memory α :=
  let p := s.this.buffer
  let residue := s.this.size - offset
  if vs.length ≤ residue then
    let m := m.transferN (left e) p (offset + (residue - vs.length)) p s.this.size vs.length
    (shiftRight e m p offset s.this.size vs.length).assignList p offset vs
  else
    let inRawMemory := vs.length - residue
    let m := m.constructList p s.this.size (vs.drop residue)
    let m := m.transferN (left e) p offset p (s.this.size + inRawMemory) residue
    m.assignList p offset (vs.take residue)

/-- `append_n_without_grow(value, count)`, which takes them in the other order. -/
def appendNSwapped (count : Nat) (v : α) : State α :=
  let m := s.memory.constructList s.this.buffer s.this.size (List.replicate (e.toCount v) (e.ofCount count))
  (s.withMemory m).setSize ((s.this.size + e.toCount v) % 2 ^ 64)

/-- `insert(pos, count, value)` -/
def insertN (offset count : Nat) (src : Source α) : Result α :=
  let required := (s.this.size + count) % 2 ^ 64
  if s.this.capacity < required then
    s.grow e true (calcOptimalGrowth s.this.capacity required) count (s.constructFill offset count src)
      (s.transferWithShiftRight e offset (offset + count))
  else if offset = s.this.size then
    match src.value s.memory s.this.buffer with
    | some v => .returned (s.appendNSwapped e count v)
    | none => .returned (s.withMemory s.memory.blame)
  else
    let m := src.use s.memory s.this.buffer fun m tmp => s.insertNWithoutGrow e offset count tmp m
    .returned ((s.withMemory m).setSize required)

/-- `insert_range` of forward iterators. -/
def insertForward (offset : Nat) (vs : List α) : Result α :=
  let required := (s.this.size + vs.length) % 2 ^ 64
  if s.this.capacity < required then
    s.grow e true (calcOptimalGrowth s.this.capacity required) vs.length
      (fun m p => m.constructList p offset vs) (s.transferWithShiftRight e offset (offset + vs.length))
  else if offset = s.this.size then
    .returned ((s.withMemory (s.memory.constructList s.this.buffer s.this.size vs)).setSize required)
  else
    .returned ((s.withMemory (s.insertWithoutGrow e offset vs s.memory)).setSize required)

end State

def appendEach (e : Element α) (s : State α) : List α → Result α
  | [] => .returned s
  | v :: vs => (s.emplaceBack e (.external v)).andThen fun s => appendEach e s vs

def rotate (m : Memory α) (p : Option Nat) (first newFirst last : Nat) : Memory α :=
  if first = newFirst ∨ newFirst = last then m
  else
    let m := m.reverse p first (newFirst - first)
    let m := m.reverse p newFirst (last - newFirst)
    m.reverse p first (last - first)

namespace State

variable (e : Element α) (s : State α)

/-- `insert` of input iterators: the old iterator is meaningless once the buffer has changed. -/
def insertInput (offset : Nat) (vs : List α) : Result α :=
  (appendEach e s vs).map fun s' =>
    if s'.this.buffer = s.this.buffer then
      s'.withMemory (rotate s'.memory s'.this.buffer offset (offset + vs.length) s'.this.size)
    else s'.withMemory s'.memory.blame

def eraseImpl (offset count : Nat) : State α :=
  (s.withMemory (shiftLeft e s.memory s.this.buffer offset s.this.size count)).setSize (s.this.size - count)

def resizeImpl (count : Nat) (construct : Memory α → Option Nat → Memory α) : Result α :=
  if count < s.this.size then
    .returned ((s.withMemory (s.memory.destroyN s.this.buffer count (s.this.size - count))).setSize count)
  else if s.this.size < count then
    if count ≤ s.this.capacity then
      .returned ((s.withMemory (construct s.memory s.this.buffer)).setSize count)
    else
      (s.grow e false count (count - s.this.size) construct (s.transferWithoutShift e)).map fun s => s.setSize count
  else .returned (s.setSize count)

/-- `resize(count)`, and `resize(count, value)` with a value. -/
def resize (count : Nat) (value : Option (Source α)) : Result α :=
  s.resizeImpl e count (s.constructFill s.this.size (count - s.this.size) (value.getD (.external e.initial)))

def reserve (newCapacity : Nat) : Result α :=
  if s.this.capacity < newCapacity then
    s.grow e false newCapacity s.this.size keep (s.transferWithoutShift e)
  else .returned s

def shrinkToFit : Result α :=
  if s.this.size < s.this.capacity then
    s.grow e false s.this.size s.this.size keep (s.transferWithoutShift e)
  else .returned s

def clear : State α := (s.withMemory (s.memory.destroyN s.this.buffer 0 s.this.size)).setSize 0

/-- `vector(n, value)` -/
def constructCount (count : Nat) (v : α) : Result α :=
  s.grow e true count count (fun m p => m.constructList p 0 (List.replicate count v)) keep

/-- `vector(first, last)` -/
def constructMeasured (vs : List α) : Result α :=
  s.grow e true vs.length vs.length (fun m p => m.constructList p 0 vs) keep

/-- The copy constructor. -/
def clone (other : Impl) : Result α :=
  s.growUnchecked e true other.size other.size (fun m p => m.copyN other.buffer 0 p 0 other.size) keep

/-- `assign_range` of a range that is measured first, without a length check. -/
def assignRange (vs : List α) : Result α :=
  if s.this.capacity < vs.length then
    s.clear.growUnchecked e true vs.length vs.length (fun m p => m.constructList p 0 vs) keep
  else if vs.length ≤ s.this.size then
    let m := s.memory.assignList s.this.buffer 0 vs
    let m := m.destroyN s.this.buffer vs.length (s.this.size - vs.length)
    .returned ((s.withMemory m).setSize vs.length)
  else
    -- the two ends of the range that is copied over the old elements are
    -- exchanged: unless it is empty the loop runs out of both buffers
    let m := if s.this.size = 0 then s.memory else s.memory.blame
    let m := m.constructList s.this.buffer s.this.size (vs.take (vs.length - s.this.size))
    .returned ((s.withMemory m).setSize vs.length)

/-- `copy_assignment_impl` with equal allocators. -/
def copyAssign (other : Impl) : Result α :=
  let (m, vs) := s.memory.readN other.buffer 0 other.size
  (s.withMemory m).assignRange e vs

/-- `copy_assignment_impl` when the allocator is replaced by a different one. -/
def copyAssignUnequal (other : Impl) : Result α :=
  State.clone e ⟨s.destroyAndDeallocate, .empty⟩ other

end State

end Ktl.Vector
