import Ktl.Runs
import Ktl.VectorOwnership

/-!
The lives of the elements and buffers of several vectors that share a heap.
Requests for memory may be refused; no operation of an element throws.
-/
namespace Ktl.VectorLifetimes

open ObjectMemory Ownership Runs Ktl.Vector VectorOwnership Function

structure World (α : Type) where
  memory : Memory α
  vector : Nat → Option Impl

namespace World

variable {α : Type}

def empty (fails : Nat → Bool) : World α := ⟨.empty fails, fun _ => none⟩

def set (w : World α) (i : Nat) (s : State α) : World α :=
  ⟨s.memory, update w.vector i (some s.this)⟩

def remove (w : World α) (i : Nat) (m : Memory α) : World α :=
  ⟨m, update w.vector i none⟩

def buffer (w : World α) (i : Nat) : Option Nat := (w.vector i).bind Impl.buffer

theorem buffer_of_vector {w : World α} (hi : w.vector i = some v) : w.buffer i = v.buffer := by
  simp [buffer, hi]

end World

variable {α : Type}

inductive Change (α : Type) where
  /-- `emplace_back` and `push_back` -/
  | emplaceBack (src : Source α)
  | popBack
  /-- `emplace` and `insert` of one value -/
  | emplace (offset : Nat) (src : Source α)
  | insertN (offset count : Nat) (src : Source α)
  | insertForward (offset : Nat) (vs : List α)
  | insertInput (offset : Nat) (vs : List α)
  /-- `erase(pos)`, and `erase(first, last)` -/
  | erase (offset count : Nat)
  | resize (count : Nat) (value : Option (Source α))
  | reserve (newCapacity : Nat)
  | shrinkToFit
  | clear

def Change.apply (e : Element α) (s : State α) : Change α → Result α
  | .emplaceBack src => s.emplaceBack e src
  | .popBack => .returned s.popBack
  | .emplace offset src => s.emplace e offset src
  | .insertN offset count src => s.insertN e offset count src
  | .insertForward offset vs => s.insertForward e offset vs
  | .insertInput offset vs => s.insertInput e offset vs
  | .erase offset count => .returned (if count = 0 then s else s.eraseImpl e offset count)
  | .resize count value => s.resize e count value
  | .reserve newCapacity => s.reserve e newCapacity
  | .shrinkToFit => s.shrinkToFit e
  | .clear => .returned s.clear

/-- What the caller has to see to: iterators and references are into the vector. -/
def Change.Allowed (e : Element α) (v : Impl) : Change α → Prop
  | .emplaceBack src => Valid src v.size
  | .popBack => 0 < v.size
  | .emplace offset src => offset ≤ v.size ∧ Valid src v.size
  | .insertN offset _ src => offset ≤ v.size ∧ Valid src v.size
  | .insertForward offset _ | .insertInput offset _ => offset ≤ v.size
  | .erase offset count => offset + count ≤ v.size
  | .resize _ value => Valid (value.getD (.external e.initial)) v.size
  | .reserve _ | .shrinkToFit | .clear => True

instance {src : Source α} {n : Nat} : Decidable (Valid src n) :=
  match src with
  | .external _ => .isTrue trivial
  | .element _ => inferInstanceAs (Decidable (_ < _))

instance {e : Element α} {v : Impl} : (c : Change α) → Decidable (c.Allowed e v)
  | .emplaceBack _ | .resize .. => inferInstanceAs (Decidable (Valid ..))
  | .popBack => inferInstanceAs (Decidable (_ < _))
  | .emplace .. | .insertN .. => inferInstanceAs (Decidable (_ ∧ _))
  | .insertForward .. | .insertInput .. | .erase .. => inferInstanceAs (Decidable (_ ≤ _))
  | .reserve _ | .shrinkToFit | .clear => .isTrue trivial

inductive Construction (α : Type) where
  | default
  /-- `vector(count)` and `vector(count, value)` -/
  | filled (count : Nat) (value : α)
  /-- a range of iterators no stronger than forward iterators -/
  | measured (vs : List α)
  /-- a range of stronger iterators: the test of the category is the wrong way round, so that it is
  these that are not measured -/
  | each (vs : List α)

def Construction.run (e : Element α) (m : Memory α) : Construction α → Result α
  | .default => .returned ⟨m, .empty⟩
  | .filled count value => State.constructCount e ⟨m, .empty⟩ count value
  | .measured vs => State.constructMeasured e ⟨m, .empty⟩ vs
  | .each vs => appendEach e ⟨m, .empty⟩ vs

inductive Operation (α : Type) where
  | construct (i : Nat) (c : Construction α)
  | copyConstruct (i j : Nat)
  /-- the move constructor, and the one with an equal allocator -/
  | moveConstruct (i j : Nat)
  | moveConstructUnequal (i j : Nat)
  /-- copy assignment with equal allocators, or ones that are not propagated -/
  | copyAssign (i j : Nat)
  | copyAssignUnequal (i j : Nat)
  | moveAssign (i j : Nat)
  | change (i : Nat) (c : Change α)
  | destruct (i : Nat)

section

variable (e : Element α) (w : World α)

def finishConstruct (i : Nat) : Result α → World α
  | .returned s => w.set i s
  | .threw _ s => { w with memory := s.memory }

/-- The move constructor for unequal allocators. -/
def moveConstructUnequal (i j : Nat) (other : Impl) : World α :=
  let (m, vs) := w.memory.readN other.buffer 0 other.size
  match appendEach e ⟨m, .empty⟩ vs with
  | .threw _ s => { w with memory := s.memory }
  | .returned s => (w.set i s).set j (State.clear ⟨s.memory, other⟩)

def step : Operation α → Option (World α)
  | .construct i c =>
    if w.vector i = none then some (finishConstruct w i (c.run e w.memory)) else none
  | .copyConstruct i j => do
    let other ← w.vector j
    if w.vector i = none then some (finishConstruct w i (State.clone e ⟨w.memory, .empty⟩ other))
    else none
  | .moveConstruct i j => do
    let other ← w.vector j
    if w.vector i = none then some ((w.set j ⟨w.memory, .empty⟩).set i ⟨w.memory, other⟩) else none
  | .moveConstructUnequal i j => do
    let other ← w.vector j
    if w.vector i = none then some (moveConstructUnequal e w i j other) else none
  | .copyAssign i j => do
    let this ← w.vector i
    let other ← w.vector j
    if i = j then some w else some (w.set i (State.copyAssign e ⟨w.memory, this⟩ other).state)
  | .copyAssignUnequal i j => do
    let this ← w.vector i
    let other ← w.vector j
    if i = j then some w else some (w.set i (State.copyAssignUnequal e ⟨w.memory, this⟩ other).state)
  | .moveAssign i j => do
    let this ← w.vector i
    let other ← w.vector j
    if i = j then some w
    else
      let m := State.destroyAndDeallocate ⟨w.memory, this⟩
      some ((w.set j ⟨m, .empty⟩).set i ⟨m, other⟩)
  | .change i c => do
    let this ← w.vector i
    if c.Allowed e this then some (w.set i (c.apply e ⟨w.memory, this⟩).state) else none
  | .destruct i => do
    let this ← w.vector i
    some (w.remove i (State.destroyAndDeallocate ⟨w.memory, this⟩))

end

section

variable (e : Element α) (m : Memory α)

/-- No capacity that is asked for wraps, and no request is refused once there is a buffer. -/
def EachServed (n : Nat) : Prop :=
  (∀ c ∈ growths 0 0 n, c * e.size < 2 ^ 64) ∧
    (m.fails m.next = true ∨ ∀ k < (growths 0 0 n).length, m.fails (m.next + k) = false)

def Change.Supported (v : Impl) : Change α → Prop
  | .emplaceBack _ | .emplace _ _ => v.size = v.capacity → doubled v.capacity * e.size < 2 ^ 64
  | .insertN offset count src =>
    v.size + count < 2 ^ 64 ∧
    (v.capacity < v.size + count → insertCapacity v count * e.size < 2 ^ 64) ∧
    (v.size + count ≤ v.capacity → offset = v.size → ∀ x ∈ src.value m v.buffer, v.size + e.toCount x ≤ v.capacity)
  | .insertForward _ vs =>
    v.size + vs.length < 2 ^ 64 ∧
    (v.capacity < v.size + vs.length → insertCapacity v vs.length * e.size < 2 ^ 64)
  | .insertInput _ vs => v.size + vs.length ≤ v.capacity
  | .erase _ count => count = 0
  | .resize n _ | .reserve n => v.capacity < n → n * e.size < 2 ^ 64
  | .popBack | .shrinkToFit | .clear => True

def Construction.Supported : Construction α → Prop
  | .default => True
  | .filled count _ => count * e.size < 2 ^ 64
  | .measured vs => vs.length * e.size < 2 ^ 64
  | .each vs => EachServed e m vs.length

def Supported (w : World α) : Operation α → Prop
  | .construct _ c => c.Supported e w.memory
  | .moveConstructUnequal _ j => ∀ other ∈ w.vector j, EachServed e w.memory other.size
  | .copyAssign i j => i = j ∨ ∀ this ∈ w.vector i, ∀ other ∈ w.vector j,
      ¬ (0 < this.size ∧ this.size < other.size ∧ other.size ≤ this.capacity)
  | .change i c => ∀ this ∈ w.vector i, c.Supported e w.memory this
  | .copyConstruct _ _ | .moveConstruct _ _ | .copyAssignUnequal _ _ | .moveAssign _ _
  | .destruct _ => True

variable {e m}

instance {n : Nat} : Decidable (EachServed e m n) :=
  inferInstanceAs (Decidable ((∀ c ∈ growths 0 0 n, _) ∧ (_ ∨ ∀ k < _, _)))

instance {v : Impl} : (c : Change α) → Decidable (c.Supported e m v)
  | .emplaceBack _ | .emplace .. | .resize .. | .reserve _ => inferInstanceAs (Decidable (_ → _))
  | .insertN .. => inferInstanceAs (Decidable (_ ∧ _ ∧ (_ → _ → ∀ _ ∈ _, _)))
  | .insertForward .. => inferInstanceAs (Decidable (_ ∧ _))
  | .insertInput .. => inferInstanceAs (Decidable (_ ≤ _))
  | .erase .. => inferInstanceAs (Decidable (_ = _))
  | .popBack | .shrinkToFit | .clear => .isTrue trivial

instance : (c : Construction α) → Decidable (c.Supported e m)
  | .default => .isTrue trivial
  | .filled .. | .measured _ => inferInstanceAs (Decidable (_ < _))
  | .each _ => inferInstanceAs (Decidable (EachServed ..))

instance {w : World α} : (op : Operation α) → Decidable (Supported e w op)
  | .construct .. => inferInstanceAs (Decidable (Construction.Supported ..))
  | .moveConstructUnequal .. | .change .. => inferInstanceAs (Decidable (∀ _ ∈ _, _))
  | .copyAssign .. => inferInstanceAs (Decidable (_ ∨ ∀ _ ∈ _, ∀ _ ∈ _, _))
  | .copyConstruct .. | .moveConstruct .. | .copyAssignUnequal .. | .moveAssign .. | .destruct _ => .isTrue trivial

end

/-- Every vector holds exactly the objects below its size; the blocks are the buffers of the
vectors, each of one vector; nothing was misused, and no buffer was given back with objects in it.
-/
structure Sound (e : Element α) (w : World α) : Prop where
  owns : ∀ i v, w.vector i = some v → Owns e w.memory v
  tidy : Tidy w.buffer fun q => w.memory.block q ≠ none
  misuse : w.memory.misuse = 0
  leaked : w.memory.leaked = 0
  fresh : Fresh w.memory

section

variable {e : Element α} {w : World α}

theorem empty_sound (fails : Nat → Bool) : Sound e (World.empty fails) := by
  constructor
  · intro i v hv
    cases hv
  · apply tidy_empty
    · intro i
      rfl
    · intro q
      exact not_not_intro rfl
  · rfl
  · rfl
  · intro q _
    rfl

theorem Sound.housed (h : Sound e w) :
    Housed Impl.buffer (fun _ => Owns e w.memory) w.vector fun q => w.memory.block q ≠ none :=
  ⟨h.owns, h.tidy⟩

theorem Sound.appear (h : Sound e w) (hi : w.vector i = none) : Sound e (w.set i ⟨w.memory, .empty⟩) := by
  obtain ⟨howns, htidy⟩ := h.housed.replace (x := some .empty) (by rw [hi]; rfl) (by rintro _ ⟨⟩; exact owns_empty)
  exact ⟨howns, htidy, h.misuse, h.leaked, h.fresh⟩

section

variable (h : Sound e w) (hi : w.vector i = some v)

include h hi

theorem Sound.evolve (hev : Evolves e w.memory v s'.memory s'.this) : Sound e (w.set i s') := by
  have hhoused := h.housed.evolve hi hev.exchange hev.owns
      fun k u hu hq => hu.of_block fun q hb => hev.others q (hq q hb).1 (hq q hb).2
  exact ⟨hhoused.owns, hhoused.tidy, hev.misuse.trans h.misuse, hev.leaked.trans h.leaked, hev.fresh⟩

theorem Sound.disappear (hv : v.buffer = none) : Sound e (w.remove i w.memory) := by
  obtain ⟨howns, htidy⟩ := h.housed.replace (x := none) (by rw [hi]; exact hv.symm) nofun
  exact ⟨howns, htidy, h.misuse, h.leaked, h.fresh⟩

theorem Sound.handOver (hv : v.buffer = none) (hj : w.vector j = some v') (hne : i ≠ j) :
    Sound e ((w.set j ⟨w.memory, .empty⟩).set i ⟨w.memory, v'⟩) := by
  obtain ⟨howns, htidy⟩ := h.housed.handOver (by rw [hi]; exact hv) hj hne
    (rfl : Impl.empty.buffer = none) (h.owns j v' hj) owns_empty
  exact ⟨howns, htidy, h.misuse, h.leaked, h.fresh⟩

end

theorem Sound.construct (h : Sound e w) (hi : w.vector i = none) (hkeeps : Keeps e ⟨w.memory, .empty⟩ r)
    (hthrown : LeavesNone r) : Sound e (finishConstruct w i r) := by
  have hself : (w.set i ⟨w.memory, .empty⟩).vector i = some .empty := by simp [World.set]
  have hnew := (h.appear hi).evolve hself hkeeps
  cases r with
  | returned s =>
    simpa [finishConstruct, World.set] using hnew
  | threw err s =>
    have hgone := hnew.disappear (i := i) (v := s.this) (by simp [World.set]) (hthrown err s rfl)
    have hback : update w.vector i none = w.vector := by
      rw [← hi, update_eq_self]
    simpa [finishConstruct, World.set, World.remove, hback] using hgone

theorem set_set_set (hne : i ≠ j) : ((w.set i a).set j b).set i c = (w.set j b).set i c := by
  simp only [World.set, World.mk.injEq, true_and]
  rw [update_comm hne.symm, update_idem, update_comm hne]

end

section

variable {e : Element α} {w : World α}

theorem Change.keeps {c : Change α} (h : Owns e w.memory this) (hf : Fresh w.memory)
    (hallowed : c.Allowed e this) (hok : c.Supported e w.memory this) :
    Keeps e ⟨w.memory, this⟩ (c.apply e ⟨w.memory, this⟩) := by
  cases c with
  | emplaceBack src => exact emplaceBack_keeps h hf hallowed hok
  | popBack => exact popBack_keeps h hf hallowed
  | emplace offset src => exact emplace_keeps h hf hallowed.2 hallowed.1 hok
  | insertN offset count src =>
    exact insertN_keeps h hf hallowed.2 hallowed.1 hok.1 hok.2.1 hok.2.2
  | insertForward offset vs => exact insertForward_keeps h hf hallowed hok.1 hok.2
  | insertInput offset vs => exact insertInput_keeps h hf hallowed hok
  | erase offset count =>
    obtain rfl : count = 0 := hok
    exact Evolves.refl h hf
  | resize count value => exact resize_keeps h hf hallowed hok
  | reserve newCapacity => exact reserve_keeps h hf hok
  | shrinkToFit => exact shrinkToFit_keeps h hf
  | clear => exact clear_keeps h hf

theorem Construction.keeps {c : Construction α} (hf : Fresh w.memory) (hok : c.Supported e w.memory) :
    Keeps e ⟨w.memory, .empty⟩ (c.run e w.memory) ∧ LeavesNone (c.run e w.memory) := by
  cases c with
  | default => exact ⟨Evolves.refl owns_empty hf, by intro err s' hs; cases hs⟩
  | filled count value => exact ⟨constructCount_keeps hf hok, grow_leavesNone⟩
  | measured vs => exact ⟨constructMeasured_keeps hf hok, grow_leavesNone⟩
  | each vs => exact ⟨appendEach_keeps owns_empty hf hok.1, appendEach_leavesNone hok.1 hok.2⟩

section
variable (h : Sound e w)
include h

theorem Sound.moveConstructUnequal (hi : w.vector i = none)
    (hj : w.vector j = some other) (hok : EachServed e w.memory other.size) :
    Sound e (moveConstructUnequal e w i j other) := by
  have hne : j ≠ i := (ne_of_none hi hj).symm
  obtain ⟨hmemory, hlen⟩ := (h.owns j other hj).readN
  unfold VectorLifetimes.moveConstructUnequal
  simp only [hmemory]
  generalize (w.memory.readN other.buffer 0 other.size).2 = vs at hlen
  rw [← hlen] at hok
  have hmade := h.construct hi (appendEach_keeps owns_empty h.fresh hok.1) (appendEach_leavesNone hok.1 hok.2)
  cases hr : appendEach e ⟨w.memory, .empty⟩ vs with
  | threw err s =>
    rw [hr] at hmade
    exact hmade
  | returned s =>
    rw [hr] at hmade
    have hj' : (w.set i s).vector j = some other := by simpa [World.set, hne] using hj
    exact hmade.evolve hj' (clear_keeps (s := ⟨s.memory, other⟩) (hmade.owns j other hj') hmade.fresh)

theorem Sound.moveAssign (hi : w.vector i = some this) (hj : w.vector j = some other)
    (hne : i ≠ j) (hm : State.destroyAndDeallocate ⟨w.memory, this⟩ = m) :
    Sound e ((w.set j ⟨m, .empty⟩).set i ⟨m, other⟩) := by
  have hrelease := Owns.release (s := ⟨w.memory, this⟩) (h.owns i this hi) h.fresh
  rw [hm] at hrelease
  have hreleased : Sound e (w.set i ⟨m, .empty⟩) := h.evolve hi hrelease
  have hself : (w.set i ⟨m, .empty⟩).vector i = some .empty := by simp [World.set]
  have hj' : (w.set i ⟨m, .empty⟩).vector j = some other := by simpa [World.set, hne.symm] using hj
  have hmoved := hreleased.handOver hself rfl hj' hne
  rwa [set_set_set hne] at hmoved

theorem Sound.moveConstruct (hi : w.vector i = none) (hj : w.vector j = some other) :
    Sound e ((w.set j ⟨w.memory, .empty⟩).set i ⟨w.memory, other⟩) := by
  have hne : i ≠ j := ne_of_none hi hj
  have hself : (w.set i ⟨w.memory, .empty⟩).vector i = some .empty := by simp [World.set]
  have hj' : (w.set i ⟨w.memory, .empty⟩).vector j = some other := by
    simpa [World.set, hne.symm] using hj
  have hmoved := (h.appear hi).handOver hself rfl hj' hne
  rwa [set_set_set hne] at hmoved

theorem Sound.destruct (hi : w.vector i = some this) :
    Sound e (w.remove i (State.destroyAndDeallocate ⟨w.memory, this⟩)) := by
  have hreleased : Sound e (w.set i ⟨State.destroyAndDeallocate ⟨w.memory, this⟩, .empty⟩) := h.evolve hi
    (Owns.release (s := ⟨w.memory, this⟩) (h.owns i this hi) h.fresh)
  have hgone := hreleased.disappear (i := i) (v := .empty) (by simp [World.set]) rfl
  simpa [World.set, World.remove] using hgone

/-- Every supported operation keeps the vectors in order. -/
theorem Sound.step {op : Operation α} (hok : Supported e w op) (hstep : step e w op = some w') : Sound e w' := by
  cases op with
  | construct i c =>
    obtain ⟨hi, rfl⟩ := guarded hstep
    obtain ⟨hkeeps, hthrown⟩ := Construction.keeps h.fresh hok
    exact h.construct hi hkeeps hthrown
  | copyConstruct i j =>
    obtain ⟨other, hj, hstep⟩ := Option.bind_eq_some_iff.mp hstep
    obtain ⟨hi, rfl⟩ := guarded hstep
    exact h.construct hi (clone_keeps (h.owns j other hj) h.fresh) growUnchecked_leavesNone
  | moveConstruct i j =>
    obtain ⟨other, hj, hstep⟩ := Option.bind_eq_some_iff.mp hstep
    obtain ⟨hi, rfl⟩ := guarded hstep
    exact h.moveConstruct hi hj
  | moveConstructUnequal i j =>
    obtain ⟨other, hj, hstep⟩ := Option.bind_eq_some_iff.mp hstep
    obtain ⟨hi, rfl⟩ := guarded hstep
    exact h.moveConstructUnequal hi hj (hok other hj)
  | copyAssign i j =>
    rcases pair_eq_some hstep with rfl | ⟨this, other, hi, hj, hne, rfl⟩
    · exact h
    · have hnot := hok.resolve_left hne this hi other hj
      exact h.evolve hi (copyAssign_keeps (s := ⟨w.memory, this⟩) (h.owns i this hi)
        (h.owns j other hj) h.fresh (by simp only; omega))
  | copyAssignUnequal i j =>
    rcases pair_eq_some hstep with rfl | ⟨this, other, hi, hj, hne, rfl⟩
    · exact h
    · exact h.evolve hi (copyAssignUnequal_keeps (s := ⟨w.memory, this⟩) (h.owns i this hi)
        (h.owns j other hj) h.fresh fun q hq hq' => hne (h.tidy.alone i j q
          ((World.buffer_of_vector hi).trans hq') ((World.buffer_of_vector hj).trans hq)))
  | moveAssign i j =>
    rcases pair_eq_some hstep with rfl | ⟨this, other, hi, hj, hne, rfl⟩
    · exact h
    · exact h.moveAssign hi hj hne rfl
  | change i c =>
    obtain ⟨this, hi, hstep⟩ := Option.bind_eq_some_iff.mp hstep
    obtain ⟨hallowed, rfl⟩ := guarded hstep
    exact h.evolve hi (Change.keeps (h.owns i this hi) h.fresh hallowed (hok this hi))
  | destruct i =>
    obtain ⟨this, hi, hstep⟩ := Option.bind_eq_some_iff.mp hstep
    cases hstep
    exact h.destruct hi

end

/-- In every run of supported operations the rules hold. -/
theorem sound_of_supported (e : Element α) (fails : Nat → Bool) (ops : List (Operation α)) (w : World α)
    (h : Run (step e) (Supported e) (World.empty fails) ops w) : Sound e w :=
  h.invariant (fun _ _ _ hs hok hstep => hs.step hok hstep) (empty_sound fails)

def bytes : Element Nat := ⟨1, by decide, fun _ => 0, 0, true, id, id, fun _ => false, fun _ => id⟩

/-- Growth, a refused reservation, an insertion, copies, a move assignment and the end of all
vectors. -/
def copyAndMove : List (Operation Nat) :=
  [.construct 0 (.measured [1, 2]), .change 0 (.emplace 0 (.element 1)), .change 0 (.reserve 10),
   .construct 1 .default, .copyConstruct 2 0, .copyAssign 0 2, .moveAssign 1 0, .destruct 2,
   .change 1 .popBack, .change 1 .shrinkToFit, .destruct 1, .destruct 0]

theorem sound_of_supported_copyAndMove : ∃ w, Run (step bytes) (Supported bytes) (World.empty (· == 2)) copyAndMove w ∧
      w.memory.next = 5 ∧ Sound bytes w := by
  have hsome : (exec (step bytes) (Supported bytes) (World.empty (· == 2)) copyAndMove).map
      (fun w => w.memory.next) = some 5 := by
    decide +kernel
  obtain ⟨w, hrun, hnext⟩ := run_of_exec_map hsome
  exact ⟨w, hrun, hnext, sound_of_supported bytes _ _ w hrun⟩

def eraseFirst : List (Operation Nat) :=
  [.construct 0 (.measured [1, 2]), .change 0 (.erase 0 1), .destruct 0]

def assignLonger : List (Operation Nat) :=
  [.construct 0 (.measured [1]), .change 0 (.reserve 4), .construct 1 (.measured [2, 3]), .copyAssign 0 1]

def insertAtEnd : List (Operation Nat) :=
  [.construct 0 (.measured [1]), .change 0 (.reserve 4), .change 0 (.insertN 1 2 (.external 200))]

/-- The erased vector never destroys its last object; the assignment runs out of
the buffers; the insertion constructs 200 objects in three free slots. -/
theorem vector_breaks : (∃ w, Run (step bytes) (fun _ _ => True) (World.empty fun _ => false) eraseFirst w ∧
      w.memory.leaked = 1) ∧
    (∃ w, Run (step bytes) (fun _ _ => True) (World.empty fun _ => false) assignLonger w ∧ w.memory.misuse = 1) ∧
    ∃ w, Run (step bytes) (fun _ _ => True) (World.empty fun _ => false) insertAtEnd w ∧ w.memory.misuse = 197 := by
  have herase : (exec (step bytes) (fun _ _ => True) (World.empty fun _ => false) eraseFirst).map
      (fun w => w.memory.leaked) = some 1 := by
    decide +kernel
  have hassign : (exec (step bytes) (fun _ _ => True) (World.empty fun _ => false) assignLonger).map
      (fun w => w.memory.misuse) = some 1 := by
    decide +kernel
  have hinsert : (exec (step bytes) (fun _ _ => True) (World.empty fun _ => false) insertAtEnd).map
      (fun w => w.memory.misuse) = some 197 := by
    decide +kernel
  exact ⟨run_of_exec_map herase, run_of_exec_map hassign, run_of_exec_map hinsert⟩

end

end Ktl.VectorLifetimes
