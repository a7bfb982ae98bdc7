import Mathlib.Algebra.Group.Nat.Defs
import Mathlib.Order.Nat
import Mathlib.Tactic.Tauto

/-!
Blocks of raw storage and the objects that live in them. Breaking a rule of an object's life
or of a block is counted as misuse. Which requests fail is left open.
-/
namespace Ktl.ObjectMemory

structure Block (α : Type*) where
  /-- the number of objects that was asked for -/
  count : Nat
  /-- the number of bytes that was asked for -/
  bytes : Nat
  /-- the number of objects that there is room for -/
  slots : Nat
  cells : Nat → Option α

structure Memory (α : Type*) where
  block : Nat → Option (Block α)
  /-- the requests so far, which number the blocks -/
  next : Nat
  /-- the requests that the allocator will refuse -/
  fails : Nat → Bool
  misuse : Nat
  /-- objects that were alive when their block was given back -/
  leaked : Nat

namespace Memory

variable {α : Type*}

def blame (m : Memory α) : Memory α := { m with misuse := m.misuse + 1 }

def allocated (m : Memory α) (count size : Nat) : Memory α :=
  let bytes := count * size % 2 ^ 64
  { m with
    block := Function.update m.block m.next (some ⟨count, bytes, bytes / size, fun _ => none⟩)
    next := m.next + 1 }

def allocate (m : Memory α) (count size : Nat) : Memory α × Option Nat :=
  if m.fails m.next then ({ m with next := m.next + 1 }, none)
  else (m.allocated count size, some m.next)

def liveCount (b : Block α) : Nat := (List.range b.slots).countP fun i => (b.cells i).isSome

def deallocate (m : Memory α) (p : Option Nat) (count : Nat) : Memory α :=
  match p with
  | none => m
  | some q =>
    match m.block q with
    | none => m.blame
    | some b =>
      { m with
        block := Function.update m.block q none
        misuse := m.misuse + if b.count = count then 0 else 1
        leaked := m.leaked + liveCount b }

def setCell (m : Memory α) (q : Nat) (b : Block α) (i : Nat) (x : Option α) : Memory α :=
  { m with block := Function.update m.block q (some { b with cells := Function.update b.cells i x }) }

def access (m : Memory α) (p : Option Nat) (i : Nat) (f : Option α → Option (Option α)) : Memory α :=
  match p with
  | none => m.blame
  | some q =>
    match m.block q with
    | none => m.blame
    | some b =>
      if i < b.slots then
        match f (b.cells i) with
        | some x => m.setCell q b i x
        | none => m.blame
      else m.blame

def construct (m : Memory α) (p : Option Nat) (i : Nat) (v : α) : Memory α :=
  m.access p i fun x => if x.isNone then some (some v) else none

def destroy (m : Memory α) (p : Option Nat) (i : Nat) : Memory α :=
  m.access p i fun x => if x.isSome then some none else none

def assign (m : Memory α) (p : Option Nat) (i : Nat) (v : α) : Memory α :=
  m.access p i fun x => if x.isSome then some (some v) else none

def read (m : Memory α) (p : Option Nat) (i : Nat) : Option α :=
  p.bind fun q => (m.block q).bind fun b => if i < b.slots then b.cells i else none

def take (m : Memory α) (p : Option Nat) (i : Nat) (left : α → α) (use : Memory α → α → Memory α) :
    Memory α :=
  match m.read p i with
  | some v => use (m.assign p i (left v)) v
  | none => m.blame

def constructList (m : Memory α) (p : Option Nat) (start : Nat) : List α → Memory α
  | [] => m
  | v :: vs => (m.construct p start v).constructList p (start + 1) vs

def destroyN (m : Memory α) (p : Option Nat) (start : Nat) : Nat → Memory α
  | 0 => m
  | n + 1 => (m.destroy p start).destroyN p (start + 1) n

def assignList (m : Memory α) (p : Option Nat) (start : Nat) : List α → Memory α
  | [] => m
  | v :: vs => (m.assign p start v).assignList p (start + 1) vs

def copyN (m : Memory α) (src : Option Nat) (i : Nat) (dst : Option Nat) (j : Nat) : Nat → Memory α
  | 0 => m
  | n + 1 =>
    let m := match m.read src i with
      | some v => m.construct dst j v
      | none => m.blame
    m.copyN src (i + 1) dst (j + 1) n

def assignN (m : Memory α) (p : Option Nat) (i j : Nat) : Nat → Memory α
  | 0 => m
  | n + 1 =>
    let m := match m.read p i with
      | some v => m.assign p j v
      | none => m.blame
    m.assignN p (i + 1) (j + 1) n

def transferN (left : α → α) (m : Memory α) (src : Option Nat) (i : Nat) (dst : Option Nat) (j : Nat) : Nat → Memory α
  | 0 => m
  | n + 1 =>
    transferN left (m.take src i left fun m v => m.construct dst j v) src (i + 1) dst (j + 1) n

def moveN (left : α → α) (m : Memory α) (p : Option Nat) (i j : Nat) : Nat → Memory α
  | 0 => m
  | n + 1 => moveN left (m.take p i left fun m v => m.assign p j v) p (i + 1) (j + 1) n

def moveBackwardN (left : α → α) (m : Memory α) (p : Option Nat) (i j : Nat) : Nat → Memory α
  | 0 => m
  | n + 1 => moveBackwardN left (m.take p (i + n) left fun m v => m.assign p (j + n) v) p i j n

def swap (m : Memory α) (p : Option Nat) (i j : Nat) : Memory α :=
  match m.read p i, m.read p j with
  | some v, some w => (m.assign p i w).assign p j v
  | _, _ => m.blame

def reverse (m : Memory α) (p : Option Nat) (i : Nat) : Nat → Memory α
  | 0 | 1 => m
  | n + 2 => (m.swap p i (i + n + 1)).reverse p (i + 1) n

def readN (m : Memory α) (p : Option Nat) (i : Nat) : Nat → Memory α × List α
  | 0 => (m, [])
  | n + 1 =>
    match m.read p i with
    | some v => ((m.readN p (i + 1) n).1, v :: (m.readN p (i + 1) n).2)
    | none => (m.blame, [])

def empty (fails : Nat → Bool) : Memory α := ⟨fun _ => none, 0, fails, 0, 0⟩

end Memory

open Memory

variable {α : Type*} {m : Memory α} {live : Nat → Prop}

def Has (m : Memory α) (q c : Nat) (live : Nat → Prop) : Prop :=
  ∃ b, m.block q = some b ∧ b.count = c ∧ c ≤ b.slots ∧ ∀ i, (b.cells i).isSome = true ↔ live i

structure Only (touched : Nat → Prop) (m m' : Memory α) : Prop where
  next : m'.next = m.next
  fails : m'.fails = m.fails
  misuse : m'.misuse = m.misuse
  leaked : m'.leaked = m.leaked
  block : ∀ q, ¬ touched q → m'.block q = m.block q

theorem Only.refl (touched : Nat → Prop) (m : Memory α) : Only touched m m :=
  ⟨rfl, rfl, rfl, rfl, fun _ _ => rfl⟩

theorem Only.trans (h : Only touched m m') (h' : Only touched m' m'') : Only touched m m'' := by
  constructor
  · exact h'.next.trans h.next
  · exact h'.fails.trans h.fails
  · exact h'.misuse.trans h.misuse
  · exact h'.leaked.trans h.leaked
  · intro q hq
    exact (h'.block q hq).trans (h.block q hq)

theorem Only.mono (h : Only touched m m') (himp : ∀ q, touched q → touched' q) : Only touched' m m' :=
  ⟨h.next, h.fails, h.misuse, h.leaked, fun q hq => h.block q fun ht => hq (himp q ht)⟩

section
variable (h : Has m q c live)
include h

theorem Has.of_block (hblock : m'.block q = m.block q) : Has m' q c live := by
  obtain ⟨b, hb, hrest⟩ := h
  exact ⟨b, hblock.trans hb, hrest⟩

theorem Has.frame (ho : Only touched m m') (hq : ¬ touched q) : Has m' q c live :=
  h.of_block (ho.block q hq)

theorem Has.congr (he : ∀ i, live i ↔ live' i) : Has m q c live' := by
  obtain ⟨b, hb, hcount, hslots, hcells⟩ := h
  exact ⟨b, hb, hcount, hslots, fun i => (hcells i).trans (he i)⟩

theorem Has.read (hi : i < c) (hlive : live i) : ∃ v, m.read (some q) i = some v := by
  obtain ⟨b, hb, _, hslots, hcells⟩ := h
  obtain ⟨v, hv⟩ := Option.isSome_iff_exists.mp ((hcells i).mpr hlive)
  exact ⟨v, by simp [Memory.read, hb, hi.trans_le hslots, hv]⟩

end

section

def InRange (start n i : Nat) : Prop := start ≤ i ∧ i < start + n

theorem not_inRange_zero : ¬ InRange start 0 i := by
  unfold InRange
  omega

theorem inRange_succ : InRange start (n + 1) i ↔ i = start ∨ InRange (start + 1) n i := by
  unfold InRange
  omega

theorem inRange_first : InRange start (n + 1) start := inRange_succ.mpr (.inl rfl)
theorem InRange.later (h : InRange (start + 1) n i) : InRange start (n + 1) i :=
  inRange_succ.mpr (.inr h)

theorem InRange.ne (h : InRange (start + 1) n i) : i ≠ start := by
  unfold InRange at h
  omega

theorem InRange.lt (h : InRange start n i) (hle : start + n ≤ c) : i < c := h.2.trans_le hle
theorem InRange.not_lt (h : InRange start n i) (hle : c ≤ start) : ¬ i < c :=
  (hle.trans h.1).not_gt

theorem inRange_last : InRange start (n + 1) (start + n) := by
  unfold InRange
  omega

theorem InRange.earlier (h : InRange start n i) : InRange start (n + 1) i := by
  unfold InRange at h ⊢
  omega

end

def Fresh (m : Memory α) : Prop := ∀ q, m.next ≤ q → m.block q = none

theorem Fresh.only (h : Fresh m) (ho : Only touched m m') (ht : ∀ q, touched q → q < m.next) : Fresh m' := by
  intro q hq
  rw [ho.next] at hq
  rw [ho.block q fun htouched => hq.not_gt (ht q htouched)]
  exact h q hq

theorem Has.lt_next (h : Has m q c live) (hf : Fresh m) : q < m.next := by
  obtain ⟨b, hb, _⟩ := h
  by_contra hge
  rw [hf q (not_lt.mp hge)] at hb
  cases hb

theorem Has.deallocate (h : Has m q c fun _ => False) :
    (m.deallocate (some q) c).block = Function.update m.block q none ∧
    (m.deallocate (some q) c).next = m.next ∧ (m.deallocate (some q) c).fails = m.fails ∧
    (m.deallocate (some q) c).misuse = m.misuse ∧ (m.deallocate (some q) c).leaked = m.leaked := by
  obtain ⟨b, hb, hcount, _, hcells⟩ := h
  have hnone : liveCount b = 0 := by
    simp only [liveCount, List.countP_eq_zero]
    intro i _
    simpa using hcells i
  simp [Memory.deallocate, hb, hcount, hnone]

theorem has_allocated (hpos : 0 < size) (hfit : count * size < 2 ^ 64) :
    Has (m.allocated count size) m.next count fun _ => False := by
  have hslots : count * size % 2 ^ 64 / size = count := by
    rw [Nat.mod_eq_of_lt hfit, Nat.mul_div_cancel _ hpos]
  exact ⟨_, Function.update_self _ _ _, rfl, hslots.symm.le, by simp⟩

def Block.shape (b : Block α) : Nat × Nat × Nat := (b.count, b.bytes, b.slots)

structure SameBlocks (m m' : Memory α) : Prop where
  next : m'.next = m.next
  fails : m'.fails = m.fails
  shape : ∀ q, (m'.block q).map Block.shape = (m.block q).map Block.shape

theorem SameBlocks.refl (m : Memory α) : SameBlocks m m := ⟨rfl, rfl, fun _ => rfl⟩
theorem SameBlocks.trans (h : SameBlocks m m') (h' : SameBlocks m' m'') : SameBlocks m m'' :=
  ⟨h'.next.trans h.next, h'.fails.trans h.fails, fun q => (h'.shape q).trans (h.shape q)⟩
theorem sameBlocks_blame : SameBlocks m m.blame := ⟨rfl, rfl, fun _ => rfl⟩

theorem sameBlocks_access : SameBlocks m (m.access p i f) := by
  unfold Memory.access
  split
  · exact sameBlocks_blame
  · rename_i q
    split
    · exact sameBlocks_blame
    · rename_i b hb
      split
      · split
        · constructor
          · rfl
          · rfl
          · intro q'
            by_cases hq : q' = q
            · subst hq
              simp [setCell, hb, Block.shape]
            · simp [setCell, hq]
        · exact sameBlocks_blame
      · exact sameBlocks_blame

theorem sameBlocks_constructList : SameBlocks m (m.constructList p start vs) := by
  induction vs generalizing m start with
  | nil => exact SameBlocks.refl m
  | cons v vs ih => exact sameBlocks_access.trans ih

theorem sameBlocks_destroyN (p : Option Nat) (start n : Nat) : SameBlocks m (m.destroyN p start n) := by
  induction n generalizing m start with
  | zero => exact SameBlocks.refl m
  | succ n ih => exact sameBlocks_access.trans (ih _)

theorem sameBlocks_transferN : SameBlocks m (m.transferN left src i dst j n) := by
  induction n generalizing m i j with
  | zero => exact SameBlocks.refl m
  | succ n ih =>
    have htake : SameBlocks m (m.take src i left fun m v => m.construct dst j v) := by
      unfold Memory.take
      split
      · exact sameBlocks_access.trans sameBlocks_access
      · exact sameBlocks_blame
    exact htake.trans ih

def Memory.bytesOf (m : Memory α) (p : Option Nat) : Nat :=
  ((p.bind m.block).map Block.bytes).getD 0

theorem SameBlocks.bytesOf (h : SameBlocks m m') (p : Option Nat) : m'.bytesOf p = m.bytesOf p := by
  cases p with
  | none => rfl
  | some q =>
    have hshape := congrArg (Option.map fun s => s.2.1) (h.shape q)
    simp only [Option.map_map] at hshape
    exact congrArg (fun b => b.getD 0) hshape

theorem deallocate_next (m : Memory α) (p : Option Nat) (count : Nat) :
    (m.deallocate p count).next = m.next ∧ (m.deallocate p count).fails = m.fails := by
  unfold Memory.deallocate
  split
  · exact ⟨rfl, rfl⟩
  · split <;> exact ⟨rfl, rfl⟩

theorem bytesOf_deallocate (hne : p ≠ some q) : (m.deallocate p count).bytesOf (some q) = m.bytesOf (some q) := by
  unfold Memory.deallocate
  split
  · rfl
  · rename_i q'
    have hq : q ≠ q' := by
      rintro rfl
      exact hne rfl
    split
    · rfl
    · simp [Memory.bytesOf, hq]

theorem bytesOf_allocated : (m.allocated count size).bytesOf (some m.next) = count * size % 2 ^ 64 := by
  simp [Memory.bytesOf, Memory.allocated]

end Ktl.ObjectMemory
