import Ktl.Vector

/-!
The byte size that a vector asks its allocator for. The length check lets every count up to
`maxSize` pass, and the allocator multiplies it by the size of an element in 64 bits.
-/
namespace Ktl.VectorCapacity

open ObjectMemory Ktl.Vector

variable {α : Type} {e : Element α} {s : State α}

/-- A handler constructs, moves and destroys objects, but asks for no memory. -/
def Handler (h : Memory α → Option Nat → Memory α) : Prop := ∀ m p, SameBlocks m (h m p)

theorem handler_fill : Handler (s.constructFill pos count src) := by
  intro m p
  unfold State.constructFill Source.use
  split
  · exact sameBlocks_constructList
  · exact sameBlocks_blame

theorem handler_at : Handler (s.constructAt pos src) := by
  have hfill : Handler (s.constructFill pos 1 src) := handler_fill
  exact hfill

theorem handler_list (pos : Nat) (vs : List α) : Handler fun m p => m.constructList p pos vs :=
  fun _ _ => sameBlocks_constructList
theorem handler_keep : Handler (State.keep (α := α)) := fun m _ => SameBlocks.refl m
theorem handler_transfer : Handler (s.transferWithoutShift e) := fun _ _ => sameBlocks_transferN

theorem destroyAndDeallocate_next :
    s.destroyAndDeallocate.next = s.memory.next ∧ s.destroyAndDeallocate.fails = s.memory.fails := by
  have hdestroy := sameBlocks_destroyN (m := s.memory) s.this.buffer 0 s.this.size
  obtain ⟨hnext, hfails⟩ := deallocate_next (s.memory.destroyN s.this.buffer 0 s.this.size)
    s.this.buffer s.this.capacity
  exact ⟨hnext.trans hdestroy.next, hfails.trans hdestroy.fails⟩

theorem growUnchecked_next (hc : Handler construct) (ht : Handler transfer)
    (hs : s.growUnchecked e adjust newCapacity adjustment construct transfer = .returned s') :
    s'.memory.next = s.memory.next + 1 ∧ s'.memory.fails = s.memory.fails := by
  obtain rfl := State.eq_of_growUnchecked e s hs
  have hsame := (hc (s.memory.allocated newCapacity e.size) (some s.memory.next)).trans (ht _ (some s.memory.next))
  obtain ⟨hnext, hfails⟩ := destroyAndDeallocate_next (s := s.withMemory (transfer
    (construct (s.memory.allocated newCapacity e.size) (some s.memory.next)) (some s.memory.next)))
  exact ⟨hnext.trans hsame.next, hfails.trans hsame.fails⟩

theorem growUnchecked_bytes (hc : Handler construct) (ht : Handler transfer)
    (hissued : ∀ q, s.this.buffer = some q → q < s.memory.next)
    (hs : s.growUnchecked e adjust newCapacity adjustment construct transfer = .returned s') :
    s'.this.capacity = newCapacity ∧ s'.memory.bytesOf s'.this.buffer = newCapacity * e.size % 2 ^ 64 := by
  obtain rfl := State.eq_of_growUnchecked e s hs
  have hold : s.this.buffer ≠ some s.memory.next := fun hb => Nat.lt_irrefl _ (hissued _ hb)
  have hsame := (hc (s.memory.allocated newCapacity e.size) (some s.memory.next)).trans (ht _ (some s.memory.next))
  constructor
  · rfl
  · simp only [State.destroyAndDeallocate, State.withMemory]
    rw [bytesOf_deallocate hold, (sameBlocks_destroyN _ _ _).bytesOf, hsame.bytesOf, bytesOf_allocated]

inductive Request (α : Type) where
  /-- `vector(n)` or `vector(n, value)`; `nothrow` is what its `noexcept` says, which is true of
  every `Ty` with a default constructor -/
  | construct (nothrow : Bool) (value : α)
  | reserve
  | resize (value : Option (Source α))

def Request.result (e : Element α) (s : State α) (n : Nat) : Request α → Result α
  | .construct _ value => State.constructCount e ⟨s.memory, .empty⟩ n value
  | .reserve => s.reserve e n
  | .resize value => s.resize e n value

/-- How many elements are constructed: new ones, and old ones in a new buffer. -/
def Request.constructs (s : State α) (n : Nat) : Request α → Nat
  | .construct _ _ => n
  | .reserve => if n ≤ s.this.capacity then 0 else s.this.size
  | .resize _ => if n ≤ s.this.capacity then n - s.this.size else n

/-- One of `count` constructions throws; `throwsAt` is the number of those before it. -/
def Faults (throwsAt : Option Nat) (count : Nat) : Prop := ∃ k ∈ throwsAt, k < count

instance (throwsAt : Option Nat) (count : Nat) : Decidable (Faults throwsAt count) :=
  match throwsAt with
  | none => .isFalse fun ⟨_, h, _⟩ => nomatch h
  | some k => decidable_of_iff (k < count) (by simp [Faults])

/-- How a call ends. An exception that would leave a `noexcept` function ends the program. -/
inductive Ending (α : Type) where
  | returned (s : State α)
  | threw
  | terminated

def Request.nothrow : Request α → Bool
  | .construct nothrow _ => nothrow
  | .reserve | .resize _ => false

/-- The length check and the request for memory come before the elements. -/
def Request.call (e : Element α) (s : State α) (n : Nat) (throwsAt : Option Nat) (r : Request α) : Ending α :=
  let thrown := if r.nothrow then .terminated else .threw
  match r.result e s n with
  | .returned t => if Faults throwsAt (r.constructs s n) then thrown else .returned t
  | .threw _ _ => thrown

def Roomy (e : Element α) (n : Nat) (s : State α) : Prop :=
  n ≤ s.this.capacity ∧ s.this.capacity * e.size ≤ s.memory.bytesOf s.this.buffer

/-- The call throws, or there is room and the buffer was asked for with the bytes of all its
elements. -/
def Enough (e : Element α) (n : Nat) : Ending α → Prop
  | .terminated => False
  | .threw => True
  | .returned s => Roomy e n s

/-- The same without exceptions of the elements. -/
def EnoughRoom (e : Element α) (n : Nat) (r : Result α) : Prop := ∀ s, r = .returned s → Roomy e n s

/-- A new buffer for `n` elements is refused, or its byte size does not wrap. -/
def Grows (e : Element α) (m : Memory α) (n : Nat) : Prop :=
  maxSize < n ∨ m.fails m.next = true ∨ n * e.size < 2 ^ 64

def Request.Serves (e : Element α) (s : State α) (n : Nat) (throwsAt : Option Nat) (r : Request α) : Prop :=
  match r with
  | .construct nothrow _ =>
    (Faults throwsAt n ∨ Grows e s.memory n) ∧
      (nothrow = true → n ≤ maxSize ∧ s.memory.fails s.memory.next = false ∧ ¬ Faults throwsAt n)
  | .reserve | .resize _ =>
    Faults throwsAt (r.constructs s n) ∨
      if n ≤ s.this.capacity then s.this.capacity * e.size ≤ s.memory.bytesOf s.this.buffer
      else Grows e s.memory n

structure Attached (s : State α) : Prop where
  size_le : s.this.size ≤ s.this.capacity
  issued : ∀ q, s.this.buffer = some q → q < s.memory.next

theorem fits_iff : n * e.size ≤ n * e.size % 2 ^ 64 ↔ n * e.size < 2 ^ 64 := by
  constructor
  · intro h
    exact h.trans_lt (Nat.mod_lt _ (by decide))
  · intro h
    exact (Nat.mod_eq_of_lt h).symm.le

theorem grow_threw_iff (e : Element α) (s : State α) (adjust : Bool) (n adjustment : Nat)
    (construct transfer : Memory α → Option Nat → Memory α) :
    (∃ err s', s.grow e adjust n adjustment construct transfer = .threw err s') ↔
      maxSize < n ∨ s.memory.fails s.memory.next = true := by
  unfold State.grow
  split_ifs with hle
  · cases hfail : s.memory.fails s.memory.next with
    | true =>
      rw [State.growUnchecked_of_fails e s hfail]
      simp
    | false =>
      rw [State.growUnchecked_of_not_fails e s _ _ _ _ _ hfail]
      simp only [reduceCtorEq, exists_false, Bool.false_eq_true, or_false, false_iff]
      omega
  · simp only [Outcome.threw.injEq, exists_and_left, exists_eq', and_true, true_iff]
    omega

theorem grow_returned (hs : s.grow e adjust n adjustment construct transfer = .returned s') :
    s.growUnchecked e adjust n adjustment construct transfer = .returned s' := by
  unfold State.grow at hs
  split at hs
  · exact hs
  · cases hs

theorem enoughRoom_grow_iff (adjust : Bool) (adjustment : Nat) (hc : Handler construct) (ht : Handler transfer)
    (hissued : ∀ q, s.this.buffer = some q → q < s.memory.next)
    (hf : ∀ s, (f s).this.capacity = s.this.capacity ∧
      (f s).memory.bytesOf (f s).this.buffer = s.memory.bytesOf s.this.buffer) :
    EnoughRoom e n ((s.grow e adjust n adjustment construct transfer).map f) ↔ Grows e s.memory n := by
  have hthrows := grow_threw_iff e s adjust n adjustment construct transfer
  unfold Grows
  rw [← or_assoc, ← hthrows]
  cases hs : s.grow e adjust n adjustment construct transfer with
  | threw err s' => simp [EnoughRoom]
  | returned s' =>
    obtain ⟨hcap, hbytes⟩ := growUnchecked_bytes hc ht hissued (grow_returned hs)
    obtain ⟨hcap', hbytes'⟩ := hf s'
    simp only [Outcome.map_returned, EnoughRoom, Outcome.returned.injEq, forall_eq', Roomy, hcap', hbytes', hcap,
      hbytes, Nat.le_refl, true_and, fits_iff, reduceCtorEq, exists_false, false_or]

theorem enoughRoom_grow_iff_same (adjust : Bool) (adjustment : Nat) (hc : Handler construct) (ht : Handler transfer)
    (hissued : ∀ q, s.this.buffer = some q → q < s.memory.next) :
    EnoughRoom e n (s.grow e adjust n adjustment construct transfer) ↔ Grows e s.memory n := by
  have hmap := enoughRoom_grow_iff (e := e) (n := n) adjust adjustment (f := id) hc ht hissued fun _ => ⟨rfl, rfl⟩
  cases hs : s.grow e adjust n adjustment construct transfer <;> simpa [hs] using hmap

theorem enoughRoom_kept_iff (hn : n ≤ s.this.capacity) (hcap : s'.this.capacity = s.this.capacity)
    (hbuf : s'.this.buffer = s.this.buffer) (hsame : SameBlocks s.memory s'.memory) :
    EnoughRoom e n (.returned s') ↔ s.this.capacity * e.size ≤ s.memory.bytesOf s.this.buffer := by
  simp [EnoughRoom, Roomy, hcap, hbuf, hsame.bytesOf, hn]

theorem enoughRoom_construct_iff :
    EnoughRoom e n ((Request.construct nothrow value).result e s n) ↔ Grows e s.memory n :=
  enoughRoom_grow_iff_same (s := ⟨s.memory, .empty⟩) true n (handler_list 0 (List.replicate n value)) handler_keep
    (by simp [Impl.empty])

theorem enoughRoom_reserve_iff (hs : Attached s) : EnoughRoom e n (Request.reserve.result e s n) ↔
    if n ≤ s.this.capacity then s.this.capacity * e.size ≤ s.memory.bytesOf s.this.buffer
    else Grows e s.memory n := by
  simp only [Request.result, State.reserve]
  by_cases hn : n ≤ s.this.capacity
  · rw [if_neg hn.not_gt, if_pos hn]
    exact enoughRoom_kept_iff hn rfl rfl (SameBlocks.refl _)
  · rw [if_pos (not_le.mp hn), if_neg hn]
    exact enoughRoom_grow_iff_same _ _ handler_keep handler_transfer hs.issued

theorem enoughRoom_resize_iff (hs : Attached s) : EnoughRoom e n ((Request.resize value).result e s n) ↔
    if n ≤ s.this.capacity then s.this.capacity * e.size ≤ s.memory.bytesOf s.this.buffer
    else Grows e s.memory n := by
  simp only [Request.result, State.resize, State.resizeImpl]
  have hsize := hs.size_le
  by_cases hn : n ≤ s.this.capacity
  · rw [if_pos hn]
    split
    · exact enoughRoom_kept_iff hn rfl rfl (sameBlocks_destroyN _ _ _)
    · split
      · exact enoughRoom_kept_iff hn rfl rfl (handler_fill _ _)
      · exact enoughRoom_kept_iff hn rfl rfl (SameBlocks.refl _)
  · simp (disch := omega) only [if_neg, if_pos]
    exact enoughRoom_grow_iff _ _ handler_fill handler_transfer hs.issued fun _ => ⟨rfl, rfl⟩

/-- Where no exception ends the program, one of the elements throws or there is room. -/
theorem enough_call_iff (r : Request α) (throwsAt : Option Nat) :
    Enough e n (r.call e s n throwsAt) ↔
      (Faults throwsAt (r.constructs s n) ∨ EnoughRoom e n (r.result e s n)) ∧
      (r.nothrow = true → (∃ t, r.result e s n = .returned t) ∧ ¬ Faults throwsAt (r.constructs s n)) := by
  rw [Request.call]
  cases r.result e s n with
  | threw err t => cases r.nothrow <;> simp [Enough, EnoughRoom]
  | returned t =>
    by_cases hfaults : Faults throwsAt (r.constructs s n) <;> cases r.nothrow <;>
      simp [Enough, EnoughRoom, hfaults]

theorem construct_returned_iff : (∃ t, (Request.construct nothrow value).result e s n = .returned t) ↔
    n ≤ maxSize ∧ s.memory.fails s.memory.next = false := by
  have hthrows := grow_threw_iff e ⟨s.memory, .empty⟩ true n n
    (fun m p => m.constructList p 0 (List.replicate n value)) State.keep
  rw [Request.result, State.constructCount]
  cases hs : State.grow e ⟨s.memory, .empty⟩ true n n
      (fun m p => m.constructList p 0 (List.replicate n value)) State.keep with
  | returned t =>
    rw [hs] at hthrows
    simp only [reduceCtorEq, exists_false, false_iff, not_or, Bool.not_eq_true] at hthrows
    exact iff_of_true ⟨t, rfl⟩ ⟨not_lt.mp hthrows.1, hthrows.2⟩
  | threw err t =>
    refine iff_of_false nofun fun ⟨hle, hgranted⟩ => ?_
    rcases hthrows.mp ⟨err, t, hs⟩ with hlt | hfails
    · exact hle.not_gt hlt
    · exact Bool.false_ne_true (hgranted.symm.trans hfails)

/-- A vector's request throws, or leaves room for the elements in a buffer of
their byte size, exactly if an element throws or the byte size of a new buffer does
not wrap, and no exception leaves a `noexcept` constructor. -/
theorem enough_iff_serves (e : Element α) (s : State α) (n : Nat) (throwsAt : Option Nat) (r : Request α)
    (hs : Attached s) : Enough e n (r.call e s n throwsAt) ↔ r.Serves e s n throwsAt := by
  rw [enough_call_iff]
  cases r with
  | construct nothrow value =>
    rw [enoughRoom_construct_iff, construct_returned_iff, Request.nothrow, Request.Serves, Request.constructs,
      and_assoc]
  | reserve =>
    rw [enoughRoom_reserve_iff hs]
    exact and_iff_left nofun
  | resize value =>
    rw [enoughRoom_resize_iff hs]
    exact and_iff_left nofun

def words : Element Nat := ⟨8, by decide, id, 0, true, id, id, (· == 0), fun n v => v / 256 ^ n * 256 ^ n⟩

def noWords : State Nat := ⟨Memory.empty fun _ => false, .empty⟩

theorem enough_iff_serves_words :
    Attached noWords ∧ Enough words 100 (Request.reserve.call words noWords 100 (some 50)) := by
  have hs : Attached noWords := ⟨le_rfl, by simp [noWords, Impl.empty]⟩
  have hgrows : Grows words noWords.memory 100 := .inr (.inr (by decide))
  exact ⟨hs, (enough_iff_serves words noWords 100 (some 50) .reserve hs).mpr (.inr hgrows)⟩

/-- The bytes of `2 ^ 61` numbers wrap to none; and an exception of the second copy ends the
program. -/
theorem reserve_wraps : (∃ s, Request.reserve.call words noWords (2 ^ 61) none = .returned s ∧
      s.this.capacity = 2 ^ 61 ∧ s.memory.bytesOf s.this.buffer = 0) ∧
    ¬ Enough words (2 ^ 61) (Request.reserve.call words noWords (2 ^ 61) none) ∧
    ¬ Enough words 3 ((Request.construct true 7).call words noWords 3 (some 1)) :=
  ⟨⟨_, rfl, by decide +kernel⟩, fun h => absurd h.2 (by decide +kernel), id⟩

end Ktl.VectorCapacity
