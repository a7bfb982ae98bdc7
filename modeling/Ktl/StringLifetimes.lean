import Ktl.Runs
import Ktl.StringBuffers

/-!
The buffers of several UNICODE strings that share a heap, over whole runs of
their operations. Requests for memory may be refused, and no result is longer
than a string may be.
-/
namespace Ktl.StringLifetimes

open TextMemory Ownership Runs WinntString StringOwnership StringBuffers Function Option

structure World (α : Type) where
  memory : Memory α
  string : Nat → Option Native

namespace World

variable {α : Type} (f : Format)

def empty (fails : Nat → Bool) : World α := ⟨.empty f.sso fails, fun _ => none⟩

def set (w : World α) (i : Nat) (s : State α) : World α :=
  ⟨s.memory, update w.string i (some s.str)⟩

def remove (w : World α) (i : Nat) (m : Memory α) : World α :=
  ⟨m, update w.string i none⟩

def native (w : World α) (i : Nat) : Native := (w.string i).getD (.small f i 0)

def block (w : World α) (i : Nat) : Option Nat := (w.string i).bind held

theorem block_of_string {w : World α} (hi : w.string i = some v) : w.block i = held v := by
  simp [block, hi]

end World

variable {α : Type}

/-- Characters that are passed by pointers: outside of all strings, or in the
string number `j`. -/
inductive Text (α : Type) where
  | outside (vs : List α)
  | part (j offset count : Nat)

namespace Text

def length : Text α → Nat
  | .outside vs => vs.length
  | .part _ _ count => count

def source (f : Format) (w : World α) : Text α → Source α
  | .outside vs => .external vs
  | .part j offset _ => .pointer (w.native f j).buffer offset

def Valid (f : Format) (w : World α) : Text α → Prop
  | .outside _ => True
  | .part j offset count => ∃ v ∈ w.string j, offset + count ≤ v.size f

def Own (i : Nat) (P : Nat → Prop) : Text α → Prop
  | .outside _ => True
  | .part j offset _ => j = i → P offset

instance {f : Format} {w : World α} : (a : Text α) → Decidable (a.Valid f w)
  | .outside _ => .isTrue trivial
  | .part .. => inferInstanceAs (Decidable (∃ v ∈ _, _))

instance {i : Nat} {P : Nat → Prop} [DecidablePred P] : (a : Text α) → Decidable (a.Own i P)
  | .outside _ => .isTrue trivial
  | .part .. => inferInstanceAs (Decidable (_ → _))

end Text

inductive Change (α : Type) where
  | assignFill (count : Nat) (ch : α)
  /-- `assign` of a native string, a string or a view -/
  | assignNative (a : Text α)
  /-- `assign` of characters with a count or up to a null character -/
  | assignChars (a : Text α)
  /-- `assign` of a range of pointers, and of a range of other iterators -/
  | assignRange (a : Text α)
  | assignEach (vs : List α)
  | assignPart (j pos count : Nat)
  /-- `operator=(ch)` -/
  | assignChar (ch : α)
  /-- copy assignment, with or without the allocator -/
  | copyAssign (propagate : Bool) (j : Nat)
  | append (a : Text α)
  | appendFill (count : Nat) (ch : α)
  | appendEach (vs : List α)
  | appendPart (j pos count : Nat)
  | pushBack (ch : α)
  /-- `insert` at an index -/
  | insert (index : Nat) (a : Text α)
  /-- `insert` of a range of pointers at an iterator -/
  | insertPointers (index : Nat) (a : Text α)
  | erase (index count : Nat)
  | resize (newSize : Nat) (ch : α)
  | reserve (newCapacity : Nat)
  | clear

namespace Change

variable (f : Format) (w : World α)

def apply (s : State α) : Change α → Result α
  | .assignFill count ch => s.assignFill f count ch
  | .assignNative a => s.assignNative f (a.source f w) a.length
  | .assignChars a => s.assignChars f (a.source f w) a.length
  | .assignRange a => s.assignRange f (a.source f w) a.length
  | .assignEach vs => s.assignEach f vs
  | .assignPart j pos count =>
    s.assignPart f (if j = s.home then (s.clear f).str else w.native f j) pos count
  | .assignChar ch => .returned (s.assignChar f ch)
  | .copyAssign propagate j =>
    if j = s.home then .returned s else s.copyAssign f propagate (w.native f j)
  | .append a => s.append f (a.source f w) a.length
  | .appendFill count ch => s.appendFill f count ch
  | .appendEach vs => pushEach f s vs
  | .appendPart j pos count => s.appendPart f (w.native f j) pos count
  | .pushBack ch => s.pushBack f ch
  | .insert index a => s.insert f index (a.source f w) a.length
  | .insertPointers index a => s.insertPointers f index (a.source f w) a.length
  | .erase index count => s.erase f index count
  | .resize newSize ch => s.resize f newSize ch
  | .reserve newCapacity => s.reserve f newCapacity
  | .clear => .returned (s.clear f)

def partLength (j pos count : Nat) : Nat := min ((w.native f j).size f - pos) count

/-- The length that the result should have. -/
def newSize (v : Native) : Change α → Nat
  | .assignFill count _ => count
  | .assignNative a | .assignChars a | .assignRange a => a.length
  | .assignEach vs => vs.length
  | .assignPart j pos count => partLength f w j pos count
  | .assignChar _ => 1
  | .copyAssign _ j => (w.native f j).size f
  | .append a | .insert _ a | .insertPointers _ a => v.size f + a.length
  | .appendFill count _ => v.size f + count
  | .appendEach vs => v.size f + vs.length
  | .appendPart j pos count => v.size f + partLength f w j pos count
  | .pushBack _ => v.size f + 1
  | .erase index count => v.size f - min count (v.size f - index)
  | .resize newSize _ => newSize
  | .reserve _ => v.size f
  | .clear => 0

/-- What the caller has to see to: pointers and iterators are into strings. -/
def Valid (v : Native) : Change α → Prop
  | .assignNative a | .assignChars a | .assignRange a | .append a | .insert _ a => a.Valid f w
  | .insertPointers index a => index ≤ v.size f ∧ a.Valid f w
  | .assignPart j _ _ | .appendPart j _ _ | .copyAssign _ j => w.string j ≠ none
  | .assignFill _ _ | .assignEach _ | .assignChar _ | .appendFill _ _ | .appendEach _ | .pushBack _
  | .erase _ _ | .resize _ _ | .reserve _ | .clear => True

/-- The size when a range is inserted at an iterator: at the end it has been appended before. -/
def laterSize (v : Native) (index n : Nat) : Nat :=
  if index = v.size f then v.size f + n else v.size f

/-- An insertion at the end finds room, so that the iterator stays valid. -/
def StaysValid (v : Native) (index n : Nat) : Prop :=
  index = v.size f → v.size f + n ≤ v.capacity f
deriving Decidable

def Supported (i : Nat) (v : Native) : Change α → Prop
  | .assignNative a | .assignRange a => a.Own i fun offset => offset = 0 ∨ a.length ≤ offset
  | .assignEach vs | .appendEach vs => vs = [] ∨ 0 < v.capacity f
  | .assignChar _ | .pushBack _ => 0 < v.capacity f
  | .append a => a.Own i fun _ => v.size f + a.length ≤ v.capacity f ∨ v.capacity f ≤ f.sso
  | .appendPart j pos count => j = i → v.size f + partLength f w j pos count ≤ v.capacity f ∨ v.capacity f ≤ f.sso
  | .insert index a =>
    Shiftable f (v.capacity f) (v.size f) index a.length ∧
      a.Own i (InsertsOwn f (v.size f) (v.capacity f) index a.length)
  | .insertPointers index a =>
    StaysValid f v index a.length ∧ Shiftable f (v.capacity f) (laterSize f v index a.length) index a.length ∧
      a.Own i (InsertsOwn f (laterSize f v index a.length) (v.capacity f) index a.length)
  | .assignFill _ _ | .assignChars _ | .assignPart _ _ _ | .copyAssign _ _ | .appendFill _ _ | .erase _ _
  | .resize _ _ | .reserve _ | .clear => True

variable {f w}

instance : (c : Change α) → Decidable (c.Valid f w v)
  | .assignNative a | .assignChars a | .assignRange a | .append a | .insert _ a =>
    inferInstanceAs (Decidable (a.Valid f w))
  | .insertPointers .. => inferInstanceAs (Decidable (_ ∧ _))
  | .assignPart .. | .appendPart .. | .copyAssign .. => inferInstanceAs (Decidable (_ ≠ _))
  | .assignFill .. | .assignEach _ | .assignChar _ | .appendFill .. | .appendEach _ | .pushBack _
  | .erase .. | .resize .. | .reserve _ | .clear => .isTrue trivial

instance {i : Nat} : (c : Change α) → Decidable (c.Supported f w i v)
  | .assignNative _ | .assignRange _ | .append _ => inferInstanceAs (Decidable (Text.Own _ (fun _ => _ ∨ _) _))
  | .assignEach [] | .appendEach [] => .isTrue (.inl rfl)
  | .assignEach (_ :: _) | .appendEach (_ :: _) => decidable_of_iff (0 < v.capacity f) (by simp [Supported])
  | .assignChar _ | .pushBack _ => inferInstanceAs (Decidable (_ < _))
  | .appendPart .. => inferInstanceAs (Decidable (_ → _))
  | .insert .. => inferInstanceAs (Decidable (_ ∧ Text.Own _ (InsertsOwn _ _ _ _ _) _))
  | .insertPointers .. => inferInstanceAs (Decidable (_ ∧ _ ∧ Text.Own _ (InsertsOwn _ _ _ _ _) _))
  | .assignFill .. | .assignChars _ | .assignPart .. | .copyAssign .. | .appendFill ..
  | .erase .. | .resize .. | .reserve _ | .clear => .isTrue trivial

end Change

inductive Construction (α : Type) where
  | default
  | fill (count : Nat) (ch : α)
  /-- characters with a count or up to a null character, a native string, a view, and a copy -/
  | copy (a : Text α)
  /-- a range of pointers, and a range of other iterators -/
  | range (a : Text α)
  | each (vs : List α)
  | part (j pos count : Nat)

/-- A string made one by one: its capacity can be doubled, and no request is refused once it has a
block, since its destructor would not run. -/
def EachServed (f : Format) (m : Memory α) (n : Nat) : Prop :=
  (n = 0 ∨ 0 < smallCapacity f) ∧
    (m.fails m.next = true ∨ ∀ k < requests f 0 (smallCapacity f) n, m.fails (m.next + k) = false)

instance {f : Format} {m : Memory α} {n : Nat} : Decidable (EachServed f m n) :=
  inferInstanceAs (Decidable (_ ∧ (_ ∨ ∀ k < _, _)))

namespace Construction

variable (f : Format) (w : World α)

def run (s : State α) : Construction α → Result α
  | .default => .returned s
  | .fill count ch => s.concatWithoutTransferOldData f (fillHelper ch) count
  | .copy a => s.concatWithoutTransferOldData f (copyHelper (a.source f w)) (a.length % 2 ^ 16)
  | .range a => s.concat f (copyHelper (a.source f w)) (a.length % 2 ^ 16)
  | .each vs => pushEach f s vs
  | .part j pos count => s.withPart f (w.native f j) pos count fun src length =>
      s.concatWithoutTransferOldData f (copyHelper src) length

def newSize : Construction α → Nat
  | .default => 0
  | .fill count _ => count
  | .copy a | .range a => a.length
  | .each vs => vs.length
  | .part j pos count => Change.partLength f w j pos count

def Valid : Construction α → Prop
  | .copy a | .range a => a.Valid f w
  | .part j _ _ => w.string j ≠ none
  | .default | .fill _ _ | .each _ => True

def Supported : Construction α → Prop
  | .each vs => EachServed f w.memory vs.length
  | .default | .fill _ _ | .copy _ | .range _ | .part _ _ _ => True

variable {f w}

instance : (c : Construction α) → Decidable (c.Valid f w)
  | .copy a | .range a => inferInstanceAs (Decidable (a.Valid f w))
  | .part j _ _ => inferInstanceAs (Decidable (w.string j ≠ none))
  | .default | .fill _ _ | .each _ => .isTrue trivial

instance : (c : Construction α) → Decidable (c.Supported f w)
  | .each _ => inferInstanceAs (Decidable (EachServed ..))
  | .default | .fill .. | .copy _ | .range _ | .part .. => .isTrue trivial

end Construction

inductive Operation (α : Type) where
  | construct (i : Nat) (c : Construction α)
  | moveConstruct (i j : Nat)
  | change (i : Nat) (c : Change α)
  | moveAssign (i j : Nat)
  /-- move assignment between allocators that are not equal -/
  | moveAssignUnequal (i j : Nat)
  /-- `insert` at an iterator of a range that is taken one by one; `k` is the
  temporary string -/
  | insertEach (i k index : Nat) (vs : List α)
  | destruct (i : Nat)

section

variable (f : Format) (w : World α)

def finishConstruct (i : Nat) : Result α → World α
  | .returned s => w.set i s
  | .threw _ s => { w with memory := s.memory }

/-- `move_assignment_impl` for unequal allocators. -/
def moveAssignUnequal (i j : Nat) (this other : Native) : World α :=
  match State.copyAssign f ⟨w.memory, i, this⟩ false other with
  | .threw _ s => w.set i s
  | .returned s => (w.set i s).set j ⟨State.destroy f ⟨s.memory, j, other⟩, j, .small f j 0⟩

/-- `insert_range_impl`: the range is put into a temporary string. -/
def insertProxy (i k index : Nat) (vs : List α) (this : Native) : World α :=
  let w := finishConstruct w k (pushEach f (blank f w.memory k) vs)
  match w.string k with
  | none => w
  | some proxy =>
    let r := State.insert f ⟨w.memory, i, this⟩ index (.pointer proxy.buffer 0) (proxy.size f)
    (w.set i r.state).remove k (State.destroy f ⟨r.state.memory, k, proxy⟩)

def insertEach (i k index : Nat) (vs : List α) (this : Native) : World α :=
  if index = this.size f then
    match pushEach f ⟨w.memory, i, this⟩ vs with
    | .threw _ s => w.set i s
    | .returned s =>
      if s.str.buffer = this.buffer then insertProxy f (w.set i s) i k index vs s.str
      else w.set i (s.withMemory s.memory.blame)
  else insertProxy f w i k index vs this

def step : Operation α → Option (World α)
  | .construct i c =>
    if w.string i = none ∧ c.Valid f w ∧ c.newSize f w ≤ f.maxSize then
      some (finishConstruct w i (c.run f w (blank f w.memory i)))
    else none
  | .moveConstruct i j => do
    let other ← w.string j
    if w.string i = none then
      let (s, rest) := moveConstruct f w.memory i j other
      some ((w.set j ⟨s.memory, j, rest⟩).set i s)
    else none
  | .change i c => do
    let this ← w.string i
    if c.Valid f w this ∧ c.newSize f w this ≤ f.maxSize then
      some (w.set i (c.apply f w ⟨w.memory, i, this⟩).state)
    else none
  | .moveAssign i j => do
    let this ← w.string i
    let other ← w.string j
    if i = j then some w
    else
      let (s, rest) := State.moveAssign f ⟨w.memory, i, this⟩ j other
      some ((w.set j ⟨s.memory, j, rest⟩).set i s)
  | .moveAssignUnequal i j => do
    let this ← w.string i
    let other ← w.string j
    if i = j then some w else some (moveAssignUnequal f w i j this other)
  | .insertEach i k index vs => do
    let this ← w.string i
    if w.string k = none ∧ index ≤ this.size f ∧ this.size f + vs.length ≤ f.maxSize then
      some (insertEach f w i k index vs this)
    else none
  | .destruct i => do
    let this ← w.string i
    some (w.remove i (State.destroy f ⟨w.memory, i, this⟩))

end

def Supported (f : Format) (w : World α) : Operation α → Prop
  | .construct _ c => c.Supported f w
  | .change i c => ∀ this ∈ w.string i, c.Supported f w i this
  -- the capacity becomes that of the internal buffer
  | .moveAssign i j => i = j ∨ ∀ other ∈ w.string j, other.capacity f ≤ f.sso → other.size f ≤ smallCapacity f
  | .insertEach i _ index vs => EachServed f w.memory vs.length ∧ ∀ this ∈ w.string i,
      Change.StaysValid f this index vs.length ∧
      Shiftable f (this.capacity f) (Change.laterSize f this index vs.length) index vs.length
  | .moveConstruct _ _ | .moveAssignUnequal _ _ | .destruct _ => True

instance {f : Format} {w : World α} : (op : Operation α) → Decidable (Supported f w op)
  | .construct .. => inferInstanceAs (Decidable (Construction.Supported ..))
  | .change .. => inferInstanceAs (Decidable (∀ _ ∈ _, _))
  | .moveAssign .. => inferInstanceAs (Decidable (_ ∨ ∀ _ ∈ _, _))
  | .insertEach .. => inferInstanceAs (Decidable (_ ∧ ∀ _ ∈ _, _ ∧ _))
  | .moveConstruct .. | .moveAssignUnequal .. | .destruct _ => .isTrue trivial

/-- Every string is in its buffer; the blocks are those of the strings, each of one string; no block
was given back twice or with a wrong count, and no buffer was left. -/
structure Sound (f : Format) (w : World α) : Prop where
  owns : ∀ i v, w.string i = some v → Owns f w.memory i v
  tidy : Tidy w.block fun q => w.memory.block q ≠ none
  small : w.memory.small = f.sso
  misuse : w.memory.misuse = 0
  fresh : Fresh w.memory

section

variable {w : World α}

theorem empty_sound (fails : Nat → Bool) : Sound f (World.empty f fails : World α) := by
  constructor
  · intro i v hv
    cases hv
  · apply tidy_empty
    · intro i
      rfl
    · intro q
      exact not_not_intro rfl
  · rfl
  · rfl
  · intro q _
    rfl

theorem Sound.housed (h : Sound f w) : Housed held (Owns f w.memory) w.string fun q => w.memory.block q ≠ none :=
  ⟨h.owns, h.tidy⟩

theorem Sound.appear (h : Sound f w) (hi : w.string i = none) : Sound f (w.set i (blank f w.memory i)) := by
  obtain ⟨howns, htidy⟩ := h.housed.replace (x := some (.small f i 0)) (by rw [hi]; rfl)
    (by rintro _ ⟨⟩; exact owns_small h.small (Nat.zero_le _))
  exact ⟨howns, htidy, h.small, h.misuse, h.fresh⟩

section
variable (h : Sound f w) (hi : w.string i = some v)
include h hi

theorem Sound.evolve (hev : Evolves f i w.memory v s'.memory s'.str) : Sound f (w.set i s') := by
  obtain ⟨howns, htidy⟩ := h.housed.evolve hi hev.exchange hev.owns
    fun k u hu hq => hu.of_count hev.small fun q hb => hev.others q (hq q hb).1 (hq q hb).2
  exact ⟨howns, htidy, hev.small.trans h.small, hev.misuse.trans h.misuse, hev.fresh⟩

theorem Sound.keeps (hk : Keeps f ⟨w.memory, i, v⟩ r) : Sound f (w.set i r.state) := h.evolve hi hk.2

theorem Sound.disappear (hv : held v = none) : Sound f (w.remove i w.memory) := by
  obtain ⟨howns, htidy⟩ := h.housed.replace (x := none) (by rw [hi]; exact hv.symm) nofun
  exact ⟨howns, htidy, h.small, h.misuse, h.fresh⟩

theorem Sound.handOver (hv : held v = none) (hj : w.string j = some other) (hne : i ≠ j)
    (hlarge : f.sso < other.capacity f) :
    Sound f ((w.set j ⟨w.memory, j, .small f j 0⟩).set i ⟨w.memory, i, other⟩) := by
  have hother := h.owns j other hj
  have hself : Owns f w.memory i other := by
    have hplaced := hother.placed
    rw [Placed, if_neg hlarge.not_ge] at hplaced
    exact { hother with placed := (if_neg hlarge.not_ge).mpr hplaced }
  obtain ⟨howns, htidy⟩ := h.housed.handOver (by rw [hi]; exact hv) hj hne rfl hself
    (owns_small h.small (Nat.zero_le _))
  exact ⟨howns, htidy, h.small, h.misuse, h.fresh⟩

end

theorem Sound.construct (h : Sound f w) (hi : w.string i = none) (hkeeps : Keeps f (blank f w.memory i) r)
    (hthrown : LeavesNone r) : Sound f (finishConstruct w i r) := by
  have hself : (w.set i (blank f w.memory i)).string i = some (.small f i 0) := by
    simp [World.set, blank]
  have hnew := (h.appear hi).evolve hself hkeeps.2
  cases r with
  | returned s => simpa [finishConstruct, World.set] using hnew
  | threw err s =>
    have hgone := hnew.disappear (i := i) (v := s.str) (by simp [World.set]) (hthrown err s rfl)
    have hback : update w.string i none = w.string := by
      rw [← hi, update_eq_self]
    simpa [finishConstruct, World.set, World.remove, hback] using hgone

theorem set_set_set (hne : i ≠ j) : ((w.set i a).set j b).set i c = (w.set j b).set i c := by
  simp only [World.set, World.mk.injEq, true_and]
  rw [update_comm hne.symm, update_idem, update_comm hne]

theorem set_comm (hne : i ≠ j) : (w.set j ⟨m, j, b⟩).set i ⟨m, i, a⟩ = (w.set i ⟨m, i, a⟩).set j ⟨m, j, b⟩ := by
  simp only [World.set, World.mk.injEq, true_and]
  exact update_comm hne.symm _ _ _

theorem Sound.foreign (h : Sound f w) (hi : w.string i = some v) (hj : w.string j = some other) (hne : j ≠ i) :
    Foreign (⟨w.memory, i, v⟩ : State α) other.buffer ∧ other.size f ≤ w.memory.room other.buffer := by
  have hother := h.owns j other hj
  refine ⟨?_, hother.size_le.trans hother.capacity_le_room⟩
  by_cases hsmall : other.capacity f ≤ f.sso
  · rw [placed_small hother.placed hsmall]
    exact hne
  · obtain ⟨q, hq, _⟩ := placed_heap hother.placed (not_le.mp hsmall)
    rw [hq]
    refine ⟨hother.block_ne (held_heap hq), fun hv => hne ?_⟩
    exact h.tidy.alone j i q ((World.block_of_string hj).trans (held_heap hq)) ((World.block_of_string hi).trans hv)

theorem native_of_string (hj : w.string j = some other) : w.native f j = other := by
  simp [World.native, hj]

theorem Sound.readable {a : Text α} (h : Sound f w) (hi : w.string i = some v) (ha : a.Valid f w)
    (hown : a.Own i P) : Readable f ⟨w.memory, i, v⟩ a.length P (a.source f w) := by
  cases a with
  | outside vs => exact le_rfl
  | part j offset count =>
    obtain ⟨other, hj, hsize⟩ := ha
    simp only [Text.source, native_of_string hj]
    by_cases hne : j = i
    · subst hne
      obtain rfl : v = other := by simpa [hi] using hj
      exact .inr ⟨rfl, hsize, hown rfl⟩
    · obtain ⟨hforeign, hroom⟩ := h.foreign hi hj hne
      exact .inl ⟨hforeign, hsize.trans hroom⟩

end

section

variable {w : World α}

theorem Sound.size_le_max (h : Sound f w) (hwide : f.charSize = 2) (hi : w.string i = some this) :
    this.size f ≤ f.maxSize :=
  (h.owns i this hi).size_le.trans (Owns.capacity_le_max (h.owns i this hi) hwide)

theorem Sound.readable_part {pos count : Nat} (h : Sound f w) (hi : w.string i = some this)
    (hj : w.string j = some other) (hpos : pos ≤ other.size f) (hown : j = i → P pos) :
    Readable f ⟨w.memory, i, this⟩ (min (other.size f - pos) count) P (.pointer other.buffer pos) := by
  have hread := h.readable (a := .part j pos (min (other.size f - pos) count)) (P := P) hi ⟨other, hj, by omega⟩ hown
  simpa only [Text.length, Text.source, native_of_string hj] using hread

theorem size_blank : (blank f m i).size f = 0 := (fits_smallCapacity.le (Nat.zero_le _)).toChars

section

variable (hwide : f.charSize = 2) (h : Sound f w)

include hwide h

theorem Change.keeps {c : Change α} (hi : w.string i = some this) (hvalid : c.Valid f w this)
    (hmax : c.newSize f w this ≤ f.maxSize) (hok : c.Supported f w i this) :
    Keeps f ⟨w.memory, i, this⟩ (c.apply f w ⟨w.memory, i, this⟩) := by
  have hown := h.owns i this hi
  have hf := h.fresh
  cases c with
  | assignFill count ch => exact assignFill_keeps hown hf hwide
  | assignNative a => exact assignNative_keeps hown hf hmax (h.readable hi hvalid hok)
  | assignChars a =>
    refine assignChars_keeps hown hf (fun _ => True) hmax (h.readable hi hvalid ?_)
    cases a <;> simp [Text.Own]
  | assignRange a => exact assignRange_keeps hown hf hmax (h.readable hi hvalid hok)
  | assignEach vs => exact assignEach_keeps hown hf hwide hmax hok
  | assignPart j pos count =>
    obtain ⟨other, hj⟩ := ne_none_iff_exists'.mp hvalid
    simp only [Change.apply, native_of_string hj]
    by_cases hne : j = i
    · -- the string has been cleared, so that there is nothing to copy
      simp only [if_pos hne]
      have hzero : ((State.clear f ⟨w.memory, i, this⟩ : State α).str).size f = 0 := size_clear
      apply assignPart_keeps hown hf
      · rw [hzero, Nat.zero_sub, Nat.zero_min]
        exact Nat.zero_le _
      · intro hpos
        rw [hzero] at hpos
        obtain rfl : pos = 0 := Nat.le_zero.mp hpos
        rw [hzero, Nat.zero_sub, Nat.zero_min]
        exact .inr ⟨rfl, Nat.zero_le _, .inl rfl⟩
    · simp only [if_neg hne]
      simp only [Change.newSize, Change.partLength, native_of_string hj] at hmax
      exact assignPart_keeps hown hf hmax fun hpos =>
        h.readable_part hi hj hpos fun heq => absurd heq hne
  | assignChar ch => exact assignChar_keeps hown hf hok
  | copyAssign propagate j =>
    obtain ⟨other, hj⟩ := ne_none_iff_exists'.mp hvalid
    simp only [Change.apply, native_of_string hj]
    split_ifs with hne
    · exact keeps_self hown hf rfl
    · obtain ⟨hforeign, hroom⟩ := h.foreign hi hj hne
      exact copyAssign_keeps hown hf propagate hforeign (h.size_le_max hwide hj) hroom
  | append a => exact append_keeps hown hf hmax (h.readable hi hvalid hok)
  | appendFill count ch => exact appendFill_keeps hown hf hwide
  | appendEach vs => exact pushEach_keeps ⟨hown, hf, hwide, hmax, hok⟩
  | appendPart j pos count =>
    obtain ⟨other, hj⟩ := ne_none_iff_exists'.mp hvalid
    simp only [Change.newSize, Change.partLength, native_of_string hj] at hmax
    simp only [Change.Supported, Change.partLength, native_of_string hj] at hok
    simp only [Change.apply, native_of_string hj]
    exact appendPart_keeps hown hf hmax fun hpos => h.readable_part hi hj hpos hok
  | pushBack ch => exact pushBack_keeps hown hf hwide hmax hok
  | insert index a =>
    have hn := Nat.le_of_add_left_le hmax
    exact insert_keeps hown hf hn (hmax.trans_lt maxSize_lt) (fun _ => hmax) hok.1
      (h.readable hi hvalid hok.2)
  | insertPointers index a =>
    exact insertPointers_keeps hown hf hwide hvalid.1 hmax hok.1 rfl hok.2.1 (h.readable hi hvalid.2 hok.2.2)
  | erase index count => exact erase_keeps hown hf
  | resize newSize ch => exact resize_keeps hown hf hwide
  | reserve newCapacity => exact reserve_keeps hown hf
  | clear => exact keeps_becomes (clear_becomes hown hf)

theorem Sound.pushable (hmax : vs.length ≤ f.maxSize) (hok : EachServed f w.memory vs.length) :
    Pushable f (blank f w.memory i) vs :=
  ⟨owns_small h.small (Nat.zero_le _), h.fresh, hwide, by rwa [size_blank, Nat.zero_add],
    hok.1.imp List.length_eq_zero_iff.mp id⟩

theorem Sound.each (hi : w.string i = none) (hmax : vs.length ≤ f.maxSize) (hok : EachServed f w.memory vs.length) :
    Sound f (finishConstruct w i (pushEach f (blank f w.memory i) vs)) := by
  have hpushable := h.pushable hwide hmax hok (i := i)
  apply h.construct hi (pushEach_keeps hpushable)
  apply pushEach_leavesNone hpushable smallCapacity_le
  rw [size_blank]
  exact hok.2

end

section

variable (h : Sound f w)

include h

theorem Sound.readable_blank {a : Text α} (hi : w.string i = none) (ha : a.Valid f w) :
    Readable f (blank f w.memory i) a.length (fun _ => False) (a.source f w) := by
  have hself : (w.set i (blank f w.memory i)).string i = some (.small f i 0) := by
    simp [World.set, blank]
  cases a with
  | outside vs => exact le_rfl
  | part j offset count =>
    obtain ⟨other, hj, hsize⟩ := ha
    have hne : j ≠ i := (ne_of_none hi hj).symm
    have hj' : (w.set i (blank f w.memory i)).string j = some other := by
      simpa [World.set, hne] using hj
    obtain ⟨hforeign, hroom⟩ := (h.appear hi).foreign hself hj' hne
    simp only [Text.source, native_of_string hj]
    exact .inl ⟨hforeign, hsize.trans hroom⟩

theorem Sound.copied {a : Text α} (hi : w.string i = none) (ha : a.Valid f w) (hmax : a.length ≤ f.maxSize)
    (hre : Clears f (blank f w.memory i) reallocator) :
    Sound f (finishConstruct w i ((blank f w.memory i).concatImpl f reallocator
      (copyHelper (a.source f w)) a.length)) := by
  have hown : Owns f w.memory i (.small f i 0) := owns_small h.small (Nat.zero_le _)
  have hends := concatEmpty_ends reallocator (copyHelper (a.source f w)) size_blank (hre a.length hmax) hmax (by
    intro t ht
    apply (h.readable_blank hi ha).puts_copy hown (keeps_becomes ht.becomes) (Prepared.capacity_le ht)
    · rw [Nat.zero_add]
      exact ht.room_le le_rfl
    · exact fun _ hnot => hnot.elim)
  exact h.construct hi (keeps_of_ends hown h.fresh hends fun _ hk => hk) (leavesNone_of_ends hends rfl)

theorem Sound.moveSmall (hi : w.string i = some v) (hj : w.string j = some other) (hne : i ≠ j)
    (hcap : other.capacity f ≤ f.sso) (hev : Evolves f i w.memory v m' v') :
    Sound f ((w.set j ⟨m', j, .small f j 0⟩).set i ⟨m', i, v'⟩) := by
  have hmoved : Sound f (w.set i ⟨m', i, v'⟩) := h.evolve hi hev
  have hj' : (w.set i ⟨m', i, v'⟩).string j = some other := by
    simpa [World.set, hne.symm] using hj
  rw [set_comm hne]
  apply hmoved.evolve hj'
  exact .of_writes (owns_small hmoved.small (Nat.zero_le _)) hmoved.fresh (Writes.refl (.inside j) _)
    (held_inside (placed_small (h.owns j other hj).placed hcap)).symm

theorem Sound.moveConstruct (hi : w.string i = none) (hj : w.string j = some other) :
    Sound f ((w.set j ⟨(moveConstruct f w.memory i j other).1.memory, j,
      (moveConstruct f w.memory i j other).2⟩).set i (moveConstruct f w.memory i j other).1) := by
  have hne : i ≠ j := ne_of_none hi hj
  have hself : (w.set i (blank f w.memory i)).string i = some (.small f i 0) := by
    simp [World.set, blank]
  have hj' : (w.set i (blank f w.memory i)).string j = some other := by
    simpa [World.set, hne.symm] using hj
  have happear := h.appear hi
  unfold WinntString.moveConstruct
  split_ifs with hcap
  · have hev : Evolves f i w.memory (.small f i 0) _ { other with buffer := .inside i } :=
      moveConstruct_small rfl h.fresh h.small (h.owns j other hj) hcap
    have hmoved := happear.moveSmall hself hj' hne hcap hev
    rwa [set_set_set hne] at hmoved
  · have hmoved := happear.handOver hself rfl hj' hne (not_le.mp hcap)
    rwa [set_set_set hne] at hmoved

theorem Sound.moveAssign (hi : w.string i = some this) (hj : w.string j = some other) (hne : i ≠ j)
    (hok : other.capacity f ≤ f.sso → other.size f ≤ smallCapacity f) :
    Sound f ((w.set j ⟨(State.moveAssign f ⟨w.memory, i, this⟩ j other).1.memory, j,
      (State.moveAssign f ⟨w.memory, i, this⟩ j other).2⟩).set i
        (State.moveAssign f ⟨w.memory, i, this⟩ j other).1) := by
  have hkeeps := destroy_keeps (s := ⟨w.memory, i, this⟩) (h.owns i this hi) h.fresh
  have hreleased := h.keeps hi hkeeps
  simp only [Outcome.state_returned] at hreleased
  unfold State.moveAssign
  generalize State.destroy f ⟨w.memory, i, this⟩ = m at hreleased
  have hself : (w.set i ⟨m, i, .small f i 0⟩).string i = some (.small f i 0) := by simp [World.set]
  have hj' : (w.set i ⟨m, i, .small f i 0⟩).string j = some other := by
    simpa [World.set, hne.symm] using hj
  split_ifs with hcap
  · have hev : Evolves f i m (.small f i 0) _ (.small f i (other.size f)) :=
      moveAssign_small rfl hreleased.fresh hreleased.small (hreleased.owns j other hj') hcap (hok hcap)
    have hmoved := hreleased.moveSmall hself hj' hne hcap hev
    rwa [set_set_set hne] at hmoved
  · have hmoved := hreleased.handOver hself rfl hj' hne (not_le.mp hcap)
    rwa [set_set_set hne] at hmoved

theorem Sound.destruct (hi : w.string i = some this) : Sound f (w.remove i (State.destroy f ⟨w.memory, i, this⟩)) := by
  have hreleased := h.keeps hi (destroy_keeps (s := ⟨w.memory, i, this⟩) (h.owns i this hi) h.fresh)
  have hgone := hreleased.disappear (i := i) (v := .small f i 0) (by simp [World.set]) rfl
  simpa [World.set, World.remove] using hgone

end

section
variable (hwide : f.charSize = 2) (h : Sound f w)
include hwide h

theorem Construction.sound {c : Construction α} (hi : w.string i = none) (hvalid : c.Valid f w)
    (hmax : c.newSize f w ≤ f.maxSize) (hok : c.Supported f w) :
    Sound f (finishConstruct w i (c.run f w (blank f w.memory i))) := by
  have hown : Owns f w.memory i (.small f i 0) := owns_small h.small (Nat.zero_le _)
  have hf := h.fresh
  have hself : ∀ r : Result α, r.state = blank f w.memory i → Sound f (finishConstruct w i r) := by
    intro r hr
    apply h.construct hi (keeps_self hown hf hr)
    rintro err t rfl
    rw [show t = blank f w.memory i from hr]
    rfl
  cases c with
  | default => exact hself _ rfl
  | fill count ch =>
    have hends := concatEmpty_ends (n := count) (fun s required => s.growIfNeeded f required dummyTransfer)
      (fillHelper ch) size_blank (clears_dummy (s := blank f w.memory i) hown hf count hmax) hmax (by
      intro t ht
      exact ⟨_, puts_fill (by rw [Nat.zero_add]; exact ht.room_le le_rfl)⟩)
    exact h.construct hi (keeps_of_ends hown hf hends fun _ hk => hk) (leavesNone_of_ends hends rfl)
  | copy a =>
    have hmax' : a.length ≤ f.maxSize := hmax
    rw [Construction.run, mod_of_le hmax']
    exact h.copied hi hvalid hmax (clears_dummy hown hf)
  | range a =>
    have hmax' : a.length ≤ f.maxSize := hmax
    rw [Construction.run, mod_of_le hmax']
    exact h.copied hi hvalid hmax (clears_reserve hown hf)
  | each vs => exact h.each hwide hi hmax hok
  | part j pos count =>
    obtain ⟨other, hj⟩ := ne_none_iff_exists'.mp hvalid
    simp only [Construction.newSize, Change.partLength, native_of_string hj] at hmax
    simp only [Construction.run, State.withPart, native_of_string hj]
    split_ifs with hpos
    · exact hself _ rfl
    · have hcopied := h.copied (a := .part j pos (min (other.size f - pos) count)) hi
        ⟨other, hj, by omega⟩ hmax (clears_dummy hown hf)
      rw [Text.source, native_of_string hj] at hcopied
      exact hcopied

theorem Sound.moveAssignUnequal (hi : w.string i = some this) (hj : w.string j = some other) (hne : i ≠ j) :
    Sound f (moveAssignUnequal f w i j this other) := by
  obtain ⟨hforeign, hroom⟩ := h.foreign hi hj hne.symm
  have hassigned := h.keeps hi (copyAssign_keeps (s := ⟨w.memory, i, this⟩) (h.owns i this hi) h.fresh false
    hforeign (h.size_le_max hwide hj) hroom)
  unfold StringLifetimes.moveAssignUnequal
  cases hr : State.copyAssign f ⟨w.memory, i, this⟩ false other with
  | threw err s =>
    rw [hr] at hassigned
    exact hassigned
  | returned s =>
    rw [hr] at hassigned
    have hj' : (w.set i s).string j = some other := by simpa [World.set, hne.symm] using hj
    exact hassigned.keeps hj' (destroy_keeps (s := ⟨s.memory, j, other⟩) (hassigned.owns j other hj') hassigned.fresh)

theorem Sound.insertProxy (hi : w.string i = some this) (hk : w.string k = none) (hn : vs.length ≤ f.maxSize)
    (hmax : index = this.size f → this.size f + vs.length ≤ f.maxSize) (hok : EachServed f w.memory vs.length)
    (hshift : Shiftable f (this.capacity f) (this.size f) index vs.length) :
    Sound f (insertProxy f w i k index vs this) := by
  have hne : i ≠ k := (ne_of_none hk hi).symm
  have hmade := h.each hwide hk hn hok
  have hcases := pushEach_cases (h.pushable hwide hn hok (i := k))
  unfold StringLifetimes.insertProxy
  rcases hcases with ⟨t, ht, hb⟩ | ⟨err, t, ht, _⟩
  · rw [ht] at hmade ⊢
    have hk' : (finishConstruct w k (.returned t)).string k = some t.str := by
      simp [finishConstruct, World.set]
    have hi' : (finishConstruct w k (.returned t)).string i = some this := by
      simpa [finishConstruct, World.set, hne] using hi
    have hlen : t.str.size f = vs.length := by
      have hlen := hb.size
      rw [List.length_append, length_content, size_blank, List.length_map, Nat.zero_add] at hlen
      exact hlen
    simp only [hk', hlen]
    have hread := hmade.readable (a := .part k 0 vs.length) (P := InsertsOwn f (this.size f)
      (this.capacity f) index vs.length) hi' ⟨t.str, hk', by rw [hlen]; omega⟩
      fun heq => absurd heq.symm hne
    rw [Text.source, native_of_string hk'] at hread
    have hsum : this.size f + vs.length < 2 ^ 16 := by
      have hsize := h.size_le_max hwide hi
      have hmaxSize := maxSize_eq (f := f)
      rw [hwide, if_neg (by decide)] at hmaxSize
      omega
    have hinserted := hmade.keeps hi' (insert_keeps (s := ⟨_, i, this⟩) (hmade.owns i this hi')
      hmade.fresh hn hsum hmax hshift hread)
    exact hinserted.destruct (by simpa [World.set, hne.symm] using hk')
  · rw [ht] at hmade ⊢
    have hk' : (finishConstruct w k (.threw err t)).string k = none := hk
    simp only [hk']
    exact hmade

theorem Sound.insertEach (hi : w.string i = some this) (hk : w.string k = none)
    (hmax : this.size f + vs.length ≤ f.maxSize) (hok : EachServed f w.memory vs.length)
    (hstays : Change.StaysValid f this index vs.length)
    (hshift : Shiftable f (this.capacity f) (Change.laterSize f this index vs.length) index vs.length) :
    Sound f (insertEach f w i k index vs this) := by
  have hn := Nat.le_of_add_left_le hmax
  have hne : k ≠ i := ne_of_none hk hi
  unfold StringLifetimes.insertEach
  split_ifs with hend
  · rw [Change.laterSize, if_pos hend] at hshift
    have hown := h.owns i this hi
    obtain ⟨t, ht, hb, hcap, hbuf, hnext⟩ := pushEach_of_room (s := ⟨w.memory, i, this⟩) hown h.fresh
      hwide (hstays hend)
    have happended := h.keeps hi (keeps_becomes hb)
    have hsize : t.str.size f = this.size f + vs.length := by
      have hlen := hb.size
      rw [List.length_append, length_content, List.length_map] at hlen
      exact hlen
    have hserved : EachServed f t.memory vs.length := by
      unfold EachServed
      rw [hb.evolves.fails, hnext]
      exact hok
    rw [ht]
    simp only [hbuf, if_true]
    apply happended.insertProxy hwide
    · simp [World.set]
    · simpa [World.set, hne] using hk
    · exact hn
    · intro hat
      rw [hsize] at hat ⊢
      omega
    · exact hserved
    · rw [hsize, show t.str.capacity f = this.capacity f from hcap]
      exact hshift
  · rw [Change.laterSize, if_neg hend] at hshift
    exact h.insertProxy hwide hi hk hn (fun _ => hmax) hok hshift

/-- Every supported operation keeps the strings in order. -/
theorem Sound.step (hok : Supported f w op) (hstep : step f w op = some w') : Sound f w' := by
  cases op with
  | construct i c =>
    obtain ⟨⟨hi, hvalid, hmax⟩, rfl⟩ := guarded hstep
    exact Construction.sound hwide h hi hvalid hmax hok
  | moveConstruct i j =>
    obtain ⟨other, hj, hstep⟩ := bind_eq_some_iff.mp hstep
    obtain ⟨hi, rfl⟩ := guarded hstep
    exact h.moveConstruct hi hj
  | change i c =>
    obtain ⟨this, hi, hstep⟩ := bind_eq_some_iff.mp hstep
    obtain ⟨⟨hvalid, hmax⟩, rfl⟩ := guarded hstep
    exact h.keeps hi (Change.keeps hwide h hi hvalid hmax (hok this hi))
  | moveAssign i j =>
    rcases pair_eq_some hstep with rfl | ⟨this, other, hi, hj, hne, rfl⟩
    · exact h
    · exact h.moveAssign hi hj hne (hok.resolve_left hne other hj)
  | moveAssignUnequal i j =>
    rcases pair_eq_some hstep with rfl | ⟨this, other, hi, hj, hne, rfl⟩
    · exact h
    · exact h.moveAssignUnequal hwide hi hj hne
  | insertEach i k index vs =>
    obtain ⟨this, hi, hstep⟩ := bind_eq_some_iff.mp hstep
    obtain ⟨⟨hk, _, hmax⟩, rfl⟩ := guarded hstep
    obtain ⟨hserved, hthis⟩ := hok
    obtain ⟨hstays, hshift⟩ := hthis this hi
    exact h.insertEach hwide hi hk hmax hserved hstays hshift
  | destruct i =>
    obtain ⟨this, hi, hstep⟩ := bind_eq_some_iff.mp hstep
    cases hstep
    exact h.destruct hi

end

/-- In every run of supported operations every string has its characters where its capacity says,
and the blocks are given back as they were made. -/
theorem sound_of_stringOperations (f : Format) (hwide : f.charSize = 2) (fails : Nat → Bool)
    (ops : List (Operation α)) (w : World α) (h : Run (step f) (Supported f) (World.empty f fails) ops w) :
    Sound f w ∧ ∀ i v, w.string i = some v → v.size f ≤ v.capacity f ∧ v.capacity f ≤ f.maxSize ∧
      (v.buffer = .inside i ↔ v.capacity f ≤ f.sso) := by
  have hsound : Sound f w :=
    h.invariant (fun _ _ _ hs hok hstep => hs.step hwide hok hstep) (empty_sound fails)
  refine ⟨hsound, ?_⟩
  intro i v hi
  have hown := hsound.owns i v hi
  refine ⟨hown.size_le, Owns.capacity_le_max hown hwide, ?_, placed_small hown.placed⟩
  intro hbuf
  by_contra hlarge
  obtain ⟨q, hq, _⟩ := placed_heap hown.placed (not_le.mp hlarge)
  rw [hbuf] at hq
  cases hq

def twoInside : Format := ⟨2, 2, wideChar_size, by decide⟩

/-- Growth, a reservation that is refused, insertions, a copy, a move and the end
of all strings. -/
def growAndMove : List (Operation Nat) :=
  [.construct 0 (.copy (.outside [1, 2])), .change 0 (.append (.outside [3, 4])),
   .construct 1 (.copy (.part 0 1 2)), .change 0 (.reserve 9), .change 0 (.insert 1 (.part 1 0 2)),
   .insertEach 1 2 0 [5, 6], .moveAssign 1 0, .change 1 (.erase 0 2), .moveConstruct 2 1, .destruct 2,
   .destruct 1, .destruct 0]

theorem sound_of_growAndMove :
    ∃ w, Run (step twoInside) (Supported twoInside) (World.empty twoInside (· == 1)) growAndMove w ∧
      w.memory.next = 4 ∧ Sound twoInside w := by
  have hsome : (exec (step twoInside) (Supported twoInside) (World.empty twoInside (· == 1))
      growAndMove).map (fun w => w.memory.next) = some 4 := by
    decide +kernel
  obtain ⟨w, hrun, hnext⟩ := run_of_exec_map hsome
  exact ⟨w, hrun, hnext, (sound_of_stringOperations twoInside rfl _ _ w hrun).1⟩

def insertAtEnd : List (Operation Nat) :=
  [.construct 0 (.copy (.outside [1, 2])), .change 0 (.insertPointers 2 (.outside [3]))]

def constructEach : List (Operation Nat) := [.construct 0 (.each [1, 2, 3, 4, 5])]

def pushFirst : List (Operation Nat) := [.construct 0 .default, .change 0 (.pushBack 1)]

def noneInside : Format := ⟨2, 0, wideChar_size, by decide⟩

/-- An iterator is used after its block is gone; a block is never given back; a character has no
room. -/
theorem string_breaks :
    (∃ w, Run (step twoInside) (fun _ _ => True) (World.empty twoInside fun _ => false) insertAtEnd w ∧
      w.memory.misuse = 1) ∧
    (∃ w, Run (step twoInside) (fun _ _ => True) (World.empty twoInside (· == 1)) constructEach w ∧
      (w.memory.block 0).isSome = true ∧ w.string 0 = none) ∧
    ∃ w, Run (step noneInside) (fun _ _ => True) (World.empty noneInside fun _ => false) pushFirst w ∧
      w.memory.misuse = 1 ∧ (w.native noneInside 0).size noneInside = 1 ∧
      (w.native noneInside 0).capacity noneInside = 0 := by
  have hinsert : (exec (step twoInside) (fun _ _ => True) (World.empty twoInside fun _ => false)
      insertAtEnd).map (fun w => w.memory.misuse) = some 1 := by
    decide +kernel
  have hconstruct : (exec (step twoInside) (fun _ _ => True) (World.empty twoInside (· == 1))
      constructEach).map (fun w => ((w.memory.block 0).isSome, w.string 0)) = some (true, none) := by
    decide +kernel
  have hpush : (exec (step noneInside) (fun _ _ => True) (World.empty noneInside fun _ => false)
      pushFirst).map (fun w => (w.memory.misuse, (w.native noneInside 0).size noneInside,
        (w.native noneInside 0).capacity noneInside)) = some (1, 1, 0) := by
    decide +kernel
  obtain ⟨v, hv, hlost⟩ := run_of_exec_map hconstruct
  obtain ⟨x, hx, hwritten⟩ := run_of_exec_map hpush
  simp only [Prod.mk.injEq] at hlost hwritten
  exact ⟨run_of_exec_map hinsert, ⟨v, hv, hlost⟩, x, hx, hwritten⟩

end

end Ktl.StringLifetimes
