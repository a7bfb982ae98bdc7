import Mathlib.Algebra.Group.Nat.Defs
import Mathlib.Data.List.Basic
import Mathlib.Order.Nat

/-!
Buffers of trivial values: blocks of an allocator, and buffers of one fixed size inside
objects. A cell without a value is indeterminate and may be copied. Leaving a buffer, copying
between overlapping ranges and giving back a wrong block are counted as misuse.
-/
namespace Ktl.TextMemory

inductive Place where
  | inside (i : Nat)
  | heap (q : Nat)
  deriving DecidableEq

structure Block (α : Type*) where
  /-- the number of values that was asked for -/
  count : Nat
  cells : Nat → Option α

structure Memory (α : Type*) where
  /-- the size of the buffers inside objects -/
  small : Nat
  inside : Nat → Nat → Option α
  block : Nat → Option (Block α)
  /-- the requests so far, which number the blocks -/
  next : Nat
  /-- the requests that the allocator will refuse -/
  fails : Nat → Bool
  misuse : Nat

def overwrite {α : Type*} (cells : Nat → Option α) (i : Nat) (xs : List (Option α)) : Nat → Option α :=
  fun k => if i ≤ k then (xs[k - i]?).getD (cells k) else cells k

namespace Memory

variable {α : Type*}

def empty (small : Nat) (fails : Nat → Bool) : Memory α :=
  ⟨small, fun _ _ => none, fun _ => none, 0, fails, 0⟩

def blame (m : Memory α) : Memory α := { m with misuse := m.misuse + 1 }

def room (m : Memory α) : Place → Nat
  | .inside _ => m.small
  | .heap q => ((m.block q).map Block.count).getD 0

def cell (m : Memory α) : Place → Nat → Option α
  | .inside i, k => m.inside i k
  | .heap q, k => (m.block q).bind fun b => b.cells k

def load (m : Memory α) (p : Place) (i n : Nat) : List (Option α) :=
  (List.range n).map fun k => m.cell p (i + k)

def store (m : Memory α) (p : Place) (i : Nat) (xs : List (Option α)) : Memory α :=
  match p with
  | .inside j => { m with inside := Function.update m.inside j (overwrite (m.inside j) i xs) }
  | .heap q =>
    { m with
      block := Function.update m.block q ((m.block q).map fun b => { b with cells := overwrite b.cells i xs }) }

def write (m : Memory α) (p : Place) (i : Nat) (xs : List (Option α)) : Memory α :=
  if xs.isEmpty then m else if i + xs.length ≤ m.room p then m.store p i xs else m.blame

def move (m : Memory α) (dst : Place) (i : Nat) (src : Place) (j n : Nat) : Memory α :=
  if n = 0 then m
  else if j + n ≤ m.room src then m.write dst i (m.load src j n) else m.blame

def Overlap (dst : Place) (i : Nat) (src : Place) (j n : Nat) : Prop :=
  dst = src ∧ i ≠ j ∧ i < j + n ∧ j < i + n
deriving Decidable

def copy (m : Memory α) (dst : Place) (i : Nat) (src : Place) (j n : Nat) : Memory α :=
  if Overlap dst i src j n then m.blame else m.move dst i src j n

def allocated (m : Memory α) (count : Nat) : Memory α :=
  { m with
    block := Function.update m.block m.next (some ⟨count, fun _ => none⟩)
    next := m.next + 1 }

def allocate (m : Memory α) (count : Nat) : Memory α × Option Nat :=
  if m.fails m.next then ({ m with next := m.next + 1 }, none) else (m.allocated count, some m.next)

def deallocate (m : Memory α) (p : Place) (count : Nat) : Memory α :=
  match p with
  | .inside _ => m.blame
  | .heap q =>
    match m.block q with
    | none => m.blame
    | some b =>
      { m with
        block := Function.update m.block q none
        misuse := m.misuse + if b.count = count then 0 else 1 }

end Memory

open Memory

variable {α : Type*} {m m' : Memory α} {xs : List (Option α)}

@[simp] theorem length_load : (m.load p i n).length = n := by simp [Memory.load]
@[simp] theorem load_zero : m.load p i 0 = [] := rfl

theorem load_add (a b : Nat) : m.load p i (a + b) = m.load p i a ++ m.load p (i + a) b := by
  simp only [Memory.load, List.range_add, List.map_append, List.map_map]
  congr 1
  apply List.map_congr_left
  intro k _
  simp [Nat.add_assoc]

theorem load_congr (h : ∀ k, i ≤ k → k < i + n → m'.cell p k = m.cell p k) : m'.load p i n = m.load p i n := by
  apply List.map_congr_left
  intro k hk
  exact h (i + k) (Nat.le_add_right _ _) (Nat.add_lt_add_left (List.mem_range.mp hk) _)

theorem load_of_cell (h : m'.cell p = m.cell p) : m'.load p i n = m.load p i n := load_congr fun k _ _ => congrFun h k

theorem load_part (h : m'.load p 0 k = m.load p 0 k) (hk : i + n ≤ k) : m'.load p i n = m.load p i n := by
  have hcells := List.map_inj_left.mp h
  apply load_congr
  intro l _ hl
  have hcell := hcells l (List.mem_range.mpr (by omega))
  rwa [Nat.zero_add] at hcell

theorem overwrite_nil (cells : Nat → Option α) : overwrite cells i [] = cells := by
  funext k
  simp [overwrite]

theorem overwrite_before (h : k < i) : overwrite cells i xs k = cells k := by
  simp [overwrite, h.not_ge]

theorem overwrite_behind (h : i + xs.length ≤ k) : overwrite cells i xs k = cells k := by
  have hnone : xs[k - i]? = none := List.getElem?_eq_none (by omega)
  simp [overwrite, show i ≤ k by omega, hnone]

section

variable (hcell : m'.cell p = overwrite (m.cell p) i xs)

include hcell

theorem load_written : m'.load p i xs.length = xs := by
  apply List.ext_getElem?
  intro k
  by_cases hk : k < xs.length
  · simp [Memory.load, hcell, overwrite, hk]
  · have hk' : xs.length ≤ k := not_lt.mp hk
    rw [List.getElem?_eq_none (by simpa using hk'), List.getElem?_eq_none hk']

theorem load_apart (hapart : j + n ≤ i ∨ i + xs.length ≤ j) : m'.load p j n = m.load p j n := by
  apply load_congr
  intro k hk hk'
  rw [hcell]
  cases hapart with
  | inl hbefore => exact overwrite_before (by omega)
  | inr hbehind => exact overwrite_behind (by omega)

theorem load_overwrite : m'.load p 0 (i + xs.length) = m.load p 0 i ++ xs := by
  rw [load_add, Nat.zero_add, load_written hcell, load_apart hcell (.inl (Nat.zero_add i).le)]

end

theorem take_load (hk : k ≤ n) : (m.load p i n).take k = m.load p i k := by
  obtain ⟨l, rfl⟩ := Nat.exists_eq_add_of_le hk
  rw [load_add]
  exact List.take_left' length_load

theorem drop_load (hk : k ≤ n) : (m.load p i n).drop k = m.load p (i + k) (n - k) := by
  obtain ⟨l, rfl⟩ := Nat.exists_eq_add_of_le hk
  rw [load_add, Nat.add_sub_cancel_left]
  exact List.drop_left' length_load

theorem load_slice (h : j + k ≤ n) : m.load p (i + j) k = ((m.load p i n).drop j).take k := by
  rw [drop_load (by omega), take_load (by omega)]

theorem load_written_slice (hcell : m'.cell p = overwrite (m.cell p) i xs) (h : j + k ≤ xs.length) :
    m'.load p (i + j) k = (xs.drop j).take k := by
  rw [load_slice h, load_written hcell]

theorem overwrite_self : overwrite (m.cell p) i (m.load p i n) = m.cell p := by
  funext k
  by_cases hk : i ≤ k ∧ k - i < n
  · have hcell : (m.load p i n)[k - i]? = some (m.cell p k) := by
      simp [Memory.load, hk.2, Nat.add_sub_cancel' hk.1]
    simp [overwrite, hk.1, hcell]
  · by_cases hle : i ≤ k
    · exact overwrite_behind (by rw [length_load]; omega)
    · exact overwrite_before (not_le.mp hle)

structure Tame (m m' : Memory α) : Prop where
  small : m'.small = m.small
  next : m'.next = m.next
  fails : m'.fails = m.fails
  count : ∀ q, (m'.block q).map Block.count = (m.block q).map Block.count
  misuse : m.misuse ≤ m'.misuse

theorem Tame.refl (m : Memory α) : Tame m m := ⟨rfl, rfl, rfl, fun _ => rfl, le_rfl⟩

theorem Tame.trans (h : Tame m m') (h' : Tame m' m'') : Tame m m'' :=
  ⟨h'.small.trans h.small, h'.next.trans h.next, h'.fails.trans h.fails,
    fun q => (h'.count q).trans (h.count q), h.misuse.trans h'.misuse⟩

theorem Tame.room (h : Tame m m') (p : Place) : m'.room p = m.room p := by
  cases p with
  | inside i => exact h.small
  | heap q => exact congrArg (fun c => c.getD 0) (h.count q)

theorem Tame.block_none (h : Tame m m') : m'.block q = none ↔ m.block q = none := by
  have hcount := h.count q
  constructor
  · intro hq
    rw [hq] at hcount
    simpa using hcount.symm
  · intro hq
    rw [hq] at hcount
    simpa using hcount

theorem tame_blame : Tame m m.blame := ⟨rfl, rfl, rfl, fun _ => rfl, Nat.le_succ _⟩

theorem tame_store : Tame m (m.store p i xs) := by
  cases p with
  | inside j => exact ⟨rfl, rfl, rfl, fun _ => rfl, le_rfl⟩
  | heap q =>
    refine ⟨rfl, rfl, rfl, ?_, le_rfl⟩
    intro q'
    by_cases hq : q' = q
    · subst hq
      simp [Memory.store, Function.comp_def]
    · simp [Memory.store, hq]

theorem tame_write : Tame m (m.write p i xs) := by
  unfold Memory.write
  split
  · exact Tame.refl m
  · split
    · exact tame_store
    · exact tame_blame

theorem tame_move : Tame m (m.move dst i src j n) := by
  unfold Memory.move
  split
  · exact Tame.refl m
  · split
    · exact tame_write
    · exact tame_blame

theorem tame_copy : Tame m (m.copy dst i src j n) := by
  unfold Memory.copy
  split
  · exact tame_blame
  · exact tame_move

structure Writes (p : Place) (m m' : Memory α) : Prop extends Tame m m' where
  clean : m'.misuse = m.misuse
  others : ∀ p', p' ≠ p → m'.cell p' = m.cell p'

theorem Writes.refl (p : Place) (m : Memory α) : Writes p m m :=
  ⟨Tame.refl m, rfl, fun _ _ => rfl⟩
theorem Writes.trans (h : Writes p m m') (h' : Writes p m' m'') : Writes p m m'' :=
  ⟨h.toTame.trans h'.toTame, h'.clean.trans h.clean, fun p' hp' => (h'.others p' hp').trans (h.others p' hp')⟩

theorem writes_store (hroom : 0 < m.room p) :
    Writes p m (m.store p i xs) ∧ (m.store p i xs).cell p = overwrite (m.cell p) i xs := by
  constructor
  · constructor
    · exact tame_store
    · cases p <;> rfl
    · intro p' hp'
      funext k
      cases p with
      | inside j =>
        cases p' with
        | inside j' =>
          have hj : j' ≠ j := fun he => hp' (congrArg Place.inside he)
          simp [Memory.cell, Memory.store, hj]
        | heap q' => rfl
      | heap q =>
        cases p' with
        | inside j' => rfl
        | heap q' =>
          have hq : q' ≠ q := fun he => hp' (congrArg Place.heap he)
          simp [Memory.cell, Memory.store, hq]
  · funext k
    cases p with
    | inside j =>
      simp only [Memory.cell, Memory.store, Function.update_self]
      rfl
    | heap q =>
      cases hb : m.block q with
      | none => simp [Memory.room, hb] at hroom
      | some b =>
        have hcell : m.cell (.heap q) = b.cells := by
          funext k
          simp [Memory.cell, hb]
        simp [Memory.cell, Memory.store, hb, hcell]

theorem writes_write (m : Memory α) (p : Place) (i : Nat) (xs : List (Option α)) (hroom : i + xs.length ≤ m.room p) :
    Writes p m (m.write p i xs) ∧ (m.write p i xs).cell p = overwrite (m.cell p) i xs := by
  by_cases hempty : xs = []
  · subst hempty
    exact ⟨Writes.refl p m, (overwrite_nil _).symm⟩
  · have hpos : 0 < xs.length := List.length_pos_iff.mpr hempty
    rw [Memory.write, if_neg (by simpa using hempty), if_pos hroom]
    apply writes_store
    omega

theorem writes_move (m : Memory α) (dst : Place) (i : Nat) (src : Place) (j n : Nat)
    (hdst : i + n ≤ m.room dst) (hsrc : j + n ≤ m.room src) :
    Writes dst m (m.move dst i src j n) ∧
      (m.move dst i src j n).cell dst = overwrite (m.cell dst) i (m.load src j n) := by
  by_cases hn : n = 0
  · subst hn
    exact ⟨Writes.refl dst m, (overwrite_nil _).symm⟩
  · rw [Memory.move, if_neg hn, if_pos hsrc]
    apply writes_write
    rwa [length_load]

theorem writes_copy (m : Memory α) (dst : Place) (i : Nat) (src : Place) (j n : Nat)
    (hdst : i + n ≤ m.room dst) (hsrc : j + n ≤ m.room src) (hover : ¬ Overlap dst i src j n) :
    Writes dst m (m.copy dst i src j n) ∧
      (m.copy dst i src j n).cell dst = overwrite (m.cell dst) i (m.load src j n) := by
  rw [Memory.copy, if_neg hover]
  exact writes_move m dst i src j n hdst hsrc

theorem write_misuse (hne : xs ≠ []) (hroom : m.room p < i + xs.length) : m.misuse < (m.write p i xs).misuse := by
  rw [Memory.write, if_neg (by simpa using hne), if_neg hroom.not_ge]
  exact Nat.lt_succ_self _

theorem copy_misuse (dst : Place) (i : Nat) (hn : 0 < n) (hroom : m.room src < j + n) :
    m.misuse < (m.copy dst i src j n).misuse := by
  unfold Memory.copy
  split
  · exact Nat.lt_succ_self _
  · rw [Memory.move, if_neg hn.ne', if_neg hroom.not_ge]
    exact Nat.lt_succ_self _

def Fresh (m : Memory α) : Prop := ∀ q, m.next ≤ q → m.block q = none

theorem Fresh.tame (h : Fresh m) (ht : Tame m m') : Fresh m' := by
  intro q hq
  rw [ht.next] at hq
  exact ht.block_none.mpr (h q hq)

theorem room_allocated : (m.allocated count).room (.heap m.next) = count := by
  simp [Memory.room, Memory.allocated]

theorem cell_allocated (hp : p ≠ .heap m.next) : (m.allocated count).cell p = m.cell p := by
  funext k
  cases p with
  | inside j => rfl
  | heap q =>
    have hq : q ≠ m.next := fun he => hp (congrArg Place.heap he)
    simp [Memory.cell, Memory.allocated, hq]

theorem deallocate_eq (hb : m.block q = some b) :
    m.deallocate (.heap q) b.count = { m with block := Function.update m.block q none } := by
  simp [Memory.deallocate, hb]

theorem deallocate_misuse (count : Nat) : m.misuse ≤ (m.deallocate p count).misuse := by
  unfold Memory.deallocate
  split
  · exact Nat.le_succ _
  · split
    · exact Nat.le_succ _
    · exact Nat.le_add_right _ _

end Ktl.TextMemory
