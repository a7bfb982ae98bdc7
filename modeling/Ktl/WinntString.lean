import Ktl.Outcome
import Ktl.TextMemory

/-!
`basic_winnt_string`: characters in a buffer inside the object or in a block,
described by a native string whose two lengths are byte counts of 16 bits.
Counts of characters are of the same type, so that sums of them wrap.
-/
namespace Ktl.WinntString

open TextMemory

/-- `native_string_traits` -/
structure Format where
  /-- `sizeof(CharT)` -/
  charSize : Nat
  /-- `SSO_BUFFER_CH_COUNT` -/
  sso : Nat
  charSize_eq : charSize = 1 ∨ charSize = 2
  sso_lt : sso < 2 ^ 16

theorem wideChar_size : 2 = 1 ∨ 2 = 2 := .inr rfl
theorem narrowChar_size : 1 = 1 ∨ 1 = 2 := .inl rfl

namespace Format

variable (f : Format)

/-- `bytes_count_to_ch` -/
def toChars (bytes : Nat) : Nat := bytes / f.charSize

/-- `ch_count_to_bytes` -/
def toBytes (chars : Nat) : Nat := chars * f.charSize % 2 ^ 16

def maxSize : Nat := f.toChars (2 ^ 16 - 1 - 1)

end Format

def npos : Nat := 2 ^ 16 - 1

structure Native where
  buffer : Place
  length : Nat
  maximumLength : Nat
  deriving DecidableEq

namespace Native

variable (f : Format) (v : Native)

def size : Nat := f.toChars v.length

def capacity : Nat := f.toChars v.maximumLength

def setSize (n : Nat) : Native := { v with length := f.toBytes n }

def increaseSize (n : Nat) : Native := { v with length := (v.length + f.toBytes n) % 2 ^ 16 }

def decreaseSize (n : Nat) : Native := { v with length := (v.length + 2 ^ 16 - f.toBytes n) % 2 ^ 16 }

/-- `become_small` -/
def small (home size : Nat) : Native := ⟨.inside home, f.toBytes size, f.toBytes f.sso⟩

end Native

structure State (α : Type) where
  memory : Memory α
  /-- which string it is; its internal buffer has the same number -/
  home : Nat
  str : Native

inductive Error where
  | lengthError
  | outOfRange
  | badAlloc
  deriving DecidableEq

variable {α : Type}

abbrev Result (α : Type) := Outcome Error (State α)

/-- What moves the old characters, and says how many there are afterwards. -/
abbrev Transfer (α : Type) := Memory α → Place → Nat → Place → Memory α × Nat

/-- What writes new characters, given the buffer, the first index and the count. -/
abbrev Handler (α : Type) := Memory α → Place → Nat → Nat → Memory α

inductive Source (α : Type) where
  | external (vs : List α)
  | pointer (p : Place) (offset : Nat)

def copyHelper (src : Source α) : Handler α := fun m dst i count =>
  match src with
  | .external vs => m.write dst i ((vs.take count).map some)
  | .pointer p offset => m.copy dst i p offset count

def moveHelper (src : Source α) : Handler α := fun m dst i count =>
  match src with
  | .external vs => m.write dst i ((vs.take count).map some)
  | .pointer p offset => m.move dst i p offset count

def fillHelper (ch : α) : Handler α := fun m dst i count =>
  m.write dst i (List.replicate count (some ch))

def transferWithoutShift : Transfer α := fun m dst count src => (m.copy dst 0 src 0 count, count)

/-- `make_dummy_transfer` -/
def dummyTransfer : Transfer α := fun m _ count _ => (m, count)

/-- `make_shifter` -/
def shifter (index count : Nat) : Transfer α := fun m dst size src =>
  ((m.copy dst 0 src 0 index).copy dst count src index (size - index), (size + count - index) % 2 ^ 16)

section

variable (f : Format)

def calcGrowthUnchecked (oldCapacity : Nat) : Nat := oldCapacity * 2 % 2 ^ 16

def calcGrowth (capacity : Nat) : Nat :=
  if capacity = f.maxSize then npos else min f.maxSize (calcGrowthUnchecked capacity)

def calcOptimalGrowth (capacity required : Nat) : Nat := max (calcGrowth f capacity) required

end

namespace State

variable (f : Format) (s : State α)

def size : Nat := s.str.size f

def capacity : Nat := s.str.capacity f

def withMemory (m : Memory α) : State α := { s with memory := m }

def withStr (v : Native) : State α := { s with str := v }

def content : List (Option α) := s.memory.load s.str.buffer 0 (s.size f)

/-- `allocate_buffer` -/
def newBuffer (newCapacity : Nat) : Memory α × Option Place :=
  if newCapacity ≤ f.sso then (s.memory, some (.inside s.home))
  else
    match s.memory.allocate newCapacity with
    | (m, q) => (m, q.map Place.heap)

def growUnchecked (newCapacity : Nat) (transfer : Transfer α) : Result α :=
  match s.newBuffer f newCapacity with
  | (m, none) => .threw .badAlloc (s.withMemory m)
  | (m, some p) =>
    let (m, newSize) := transfer m p (s.size f) s.str.buffer
    let m := if s.capacity f ≤ f.sso then m else m.deallocate s.str.buffer (s.capacity f)
    .returned ⟨m, s.home, ⟨p, f.toBytes newSize, f.toBytes newCapacity⟩⟩

def grow (newCapacity : Nat) (transfer : Transfer α) : Result α :=
  if newCapacity ≤ f.maxSize then s.growUnchecked f newCapacity transfer
  else .threw .lengthError s

def growIfNeeded (newCapacity : Nat) (transfer : Transfer α) : Result α :=
  if s.capacity f < newCapacity then s.grow f newCapacity transfer else .returned s

def reserve (newCapacity : Nat) : Result α := s.growIfNeeded f newCapacity transferWithoutShift

def destroy : Memory α :=
  if s.capacity f ≤ f.sso then s.memory else s.memory.deallocate s.str.buffer (s.capacity f)

def clear : State α := s.withStr (s.str.setSize f 0)

/-- The characters are written behind the old ones, wherever these are by then. -/
def concatImpl (reallocator : State α → Nat → Result α) (handler : Handler α) (count : Nat) :
    Result α :=
  let oldSize := s.size f
  (reallocator s ((oldSize + count) % 2 ^ 16)).map fun s =>
    (s.withMemory (handler s.memory s.str.buffer oldSize count)).withStr (s.str.increaseSize f count)

def growOptimally (required : Nat) : Result α :=
  if s.capacity f < required then
    s.grow f (calcOptimalGrowth f (s.capacity f) required) transferWithoutShift
  else .returned s

def concatWithOptimalGrowth (handler : Handler α) (count : Nat) : Result α :=
  s.concatImpl f (fun s required => s.growOptimally f required) handler count

def concat (handler : Handler α) (count : Nat) : Result α :=
  s.concatImpl f (fun s required => s.reserve f required) handler count

def concatWithoutTransferOldData (handler : Handler α) (count : Nat) : Result α :=
  s.concatImpl f (fun s required => s.growIfNeeded f required dummyTransfer) handler count

/-- `append` of a count, a range of pointers or a null-terminated string of any length. -/
def append (src : Source α) (length : Nat) : Result α :=
  s.concatWithOptimalGrowth f (copyHelper src) (length % 2 ^ 16)

def pushBack (ch : α) : Result α :=
  let oldSize := s.size f
  let grown :=
    if s.capacity f = oldSize then s.grow f (calcGrowth f (s.capacity f)) transferWithoutShift
    else .returned s
  grown.map fun s =>
    (s.withMemory (s.memory.write s.str.buffer oldSize [some ch])).withStr (s.str.increaseSize f 1)

def resize (newSize : Nat) (ch : α) : Result α :=
  (s.reserve f newSize).map fun s =>
    let m :=
      if s.size f < newSize then fillHelper ch s.memory s.str.buffer (s.size f) (newSize - s.size f)
      else s.memory
    (s.withMemory m).withStr (s.str.setSize f newSize)

/-- `append(count, ch)` -/
def appendFill (count : Nat) (ch : α) : Result α := s.resize f ((s.size f + count) % 2 ^ 16) ch

/-- `assign(count, ch)` -/
def assignFill (count : Nat) (ch : α) : Result α := (s.clear f).resize f count ch

/-- `assign` of a native string. -/
def assignNative (src : Source α) (length : Nat) : Result α :=
  (s.clear f).concatWithoutTransferOldData f (copyHelper src) (length % 2 ^ 16)

/-- `assign(str, count)` -/
def assignChars (src : Source α) (length : Nat) : Result α :=
  (s.clear f).concatWithoutTransferOldData f (moveHelper src) (length % 2 ^ 16)

/-- `assign` of a range of pointers. -/
def assignRange (src : Source α) (length : Nat) : Result α :=
  (s.clear f).concat f (copyHelper src) (length % 2 ^ 16)

/-- `append_by_pos_and_count`: what `use` does with a part of another string. -/
def withPart (other : Native) (pos count : Nat) (use : Source α → Nat → Result α) : Result α :=
  if other.size f < pos then .threw .outOfRange s
  else use (.pointer other.buffer pos) (min (other.size f - pos) count)

/-- `append(str, pos, count)` -/
def appendPart (other : Native) (pos count : Nat) : Result α :=
  s.withPart f other pos count fun src length => s.append f src length

/-- `assign(str, pos, count)`; a string that is assigned to itself is empty by then. -/
def assignPart (other : Native) (pos count : Nat) : Result α :=
  (s.clear f).withPart f other pos count fun src length =>
    (s.clear f).concatWithoutTransferOldData f (copyHelper src) length

/-- `operator=(ch)` -/
def assignChar (ch : α) : State α :=
  (s.withMemory (s.memory.write s.str.buffer 0 [some ch])).withStr (s.str.setSize f 1)

def insertImpl (index : Nat) (handler : Handler α) (count : Nat) : Result α :=
  let required := (s.size f + count) % 2 ^ 16
  let opened :=
    if s.capacity f < required then
      s.grow f (calcOptimalGrowth f (s.capacity f) required) (shifter index count)
    else
      let m := s.memory.move s.str.buffer (index + count) s.str.buffer index (s.size f - index)
      .returned ((s.withMemory m).withStr (s.str.increaseSize f count))
  opened.map fun s => s.withMemory (handler s.memory s.str.buffer index count)

/-- `insert(index, str, count)` and the forms that call it. -/
def insert (index : Nat) (src : Source α) (length : Nat) : Result α :=
  if s.size f < index then .threw .outOfRange s
  else if index = s.size f then s.append f src length
  else s.insertImpl f index (copyHelper src) (length % 2 ^ 16)

/-- The rest of an `insert` at an iterator after the call `appended`, which it makes first if the
iterator was `end()`. The iterator is meaningless if the buffer has changed. -/
def thenInsert (appended : Result α) (insertion : State α → Result α) : Result α :=
  appended.andThen fun t =>
    if t.str.buffer = s.str.buffer then insertion t else .returned (t.withMemory t.memory.blame)

/-- `insert_range_by_random_access_iterators` -/
def insertPointers (index : Nat) (src : Source α) (length : Nat) : Result α :=
  let insertion := fun s : State α => s.insertImpl f index (copyHelper src) (length % 2 ^ 16)
  if index = s.size f then s.thenInsert (s.append f src length) insertion else insertion s

def eraseUnchecked (index count : Nat) : State α :=
  let m := s.memory.move s.str.buffer index s.str.buffer (index + count) (s.size f - (index + count))
  (s.withMemory m).withStr (s.str.decreaseSize f count)

def erase (index count : Nat) : Result α :=
  if s.size f < index then .threw .outOfRange s
  else .returned (s.eraseUnchecked f index (min count (s.size f - index)))

end State

/-- `append_range_impl` -/
def pushEach (f : Format) (s : State α) : List α → Result α
  | [] => .returned s
  | ch :: vs => (s.pushBack f ch).andThen fun s => pushEach f s vs

namespace State

variable (f : Format) (s : State α)

/-- `assign` of other iterators. -/
def assignEach (vs : List α) : Result α := pushEach f (s.clear f) vs

def copyAssign (propagate : Bool) (other : Native) : Result α :=
  let s := if propagate then ⟨s.destroy f, s.home, .small f s.home 0⟩ else s.clear f
  s.concatWithoutTransferOldData f (copyHelper (.pointer other.buffer 0)) (other.size f)

def moveAssign (j : Nat) (other : Native) : State α × Native :=
  let m := s.destroy f
  if other.capacity f ≤ f.sso then
    let this := Native.small f s.home (other.size f)
    (⟨m.copy this.buffer 0 other.buffer 0 (other.size f), s.home, this⟩, .small f j 0)
  else (⟨m, s.home, other⟩, .small f j 0)

end State

/-- The default constructor. -/
def blank (f : Format) (m : Memory α) (i : Nat) : State α := ⟨m, i, .small f i 0⟩

def moveConstruct (f : Format) (m : Memory α) (i j : Nat) (other : Native) : State α × Native :=
  if other.capacity f ≤ f.sso then
    (⟨m.copy (.inside i) 0 other.buffer 0 (other.size f), i, { other with buffer := .inside i }⟩, .small f j 0)
  else (⟨m, i, other⟩, .small f j 0)

end Ktl.WinntString
