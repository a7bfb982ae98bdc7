import Mathlib.Algebra.GroupWithZero.Nat
import Mathlib.Algebra.Order.BigOperators.Group.List
import Mathlib.Algebra.Order.Group.Nat
import Ktl.Counting

/-!
A finite set of live handles, each with a value that operations overwrite,
exchange or take away. The lemmas say how the number of handles whose value
passes a test moves with each operation.
-/
namespace Ktl

structure HandleTable (ι α : Type*) where
  /-- the live handles -/
  ids : List ι
  value : ι → α

namespace HandleTable

open Counting Function List

variable {ι α : Type*} [DecidableEq ι]

def emplace (t : HandleTable ι α) (h : ι) (x : α) : HandleTable ι α :=
  ⟨h :: t.ids, update t.value h x⟩

def assign (t : HandleTable ι α) (h : ι) (x : α) : HandleTable ι α :=
  ⟨t.ids, update t.value h x⟩

def swap (t : HandleTable ι α) (this other : ι) : HandleTable ι α :=
  (t.assign this (t.value other)).assign other (t.value this)

def erase (t : HandleTable ι α) (h : ι) : HandleTable ι α := ⟨t.ids.erase h, t.value⟩

def count (t : HandleTable ι α) (p : α → Bool) : Nat := t.ids.countP fun h => p (t.value h)

@[simp] theorem value_assign_self (t : HandleTable ι α) (h : ι) (x : α) : (t.assign h x).value h = x := update_self ..
theorem value_assign_of_ne (hne : i ≠ h) (t : HandleTable ι α) (x : α) :
    (t.assign h x).value i = t.value i := update_of_ne hne ..
@[simp] theorem value_emplace_self (t : HandleTable ι α) (h : ι) (x : α) : (t.emplace h x).value h = x := update_self ..
theorem value_emplace_of_ne (hne : i ≠ h) (t : HandleTable ι α) (x : α) :
    (t.emplace h x).value i = t.value i := update_of_ne hne ..

variable {t : HandleTable ι α}

theorem count_emplace (hnew : h ∉ t.ids) (x : α) (p : α → Bool) :
    (t.emplace h x).count p = t.count p + (p x).toNat := by
  have hrest := countP_update_of_notMem hnew t.value x p
  simp only [count, emplace, countP_cons, update_self, hrest]
  cases p x <;> rfl

theorem count_assign (hn : t.ids.Nodup) (hmem : h ∈ t.ids) (x : α) (p : α → Bool) :
    (t.assign h x).count p + (p (t.value h)).toNat = t.count p + (p x).toNat := by
  have hcount := countP_update_of_mem hn hmem t.value x p
  unfold count assign
  cases hold : p (t.value h) <;> cases hnew : p x <;> simp [hold, hnew] at hcount ⊢ <;> omega

theorem count_swap (hn : t.ids.Nodup) (hthis : this ∈ t.ids) (hother : other ∈ t.ids) (p : α → Bool) :
    (t.swap this other).count p = t.count p := by
  have hfirst := count_assign hn hthis (t.value other) p
  have hsecond := count_assign (t := t.assign this (t.value other)) hn hother (t.value this) p
  unfold swap
  by_cases he : other = this
  · subst he
    rw [value_assign_self] at hsecond
    omega
  · rw [value_assign_of_ne he] at hsecond
    omega

theorem count_erase (hmem : h ∈ t.ids) (p : α → Bool) : (t.erase h).count p + (p (t.value h)).toNat = t.count p := by
  have hcount := countP_erase_of_mem hmem fun i => p (t.value i)
  unfold count erase
  cases hold : p (t.value h) <;> simp [hold] at hcount ⊢ <;> omega

omit [DecidableEq ι] in
theorem count_pos (hmem : h ∈ t.ids) (hp : p (t.value h) = true) : 0 < t.count p :=
  countP_pos_of_mem hmem hp

/-! ## Sums over a table -/

def total (t : HandleTable ι α) (weight : α → Nat) : Nat :=
  (t.ids.map fun h => weight (t.value h)).sum

theorem total_emplace (hnew : h ∉ t.ids) (x : α) (weight : α → Nat) :
    (t.emplace h x).total weight = t.total weight + weight x := by
  have hrest : (t.ids.map fun i => weight (update t.value h x i)) = t.ids.map fun i => weight (t.value i) := by
    apply map_congr_left
    intro i hi
    have hne : i ≠ h := fun he => hnew (he ▸ hi)
    rw [update_of_ne hne]
  simp only [total, emplace, map_cons, sum_cons, update_self, hrest]
  omega

theorem total_assign (hn : t.ids.Nodup) (hmem : h ∈ t.ids) (x : α) (weight : α → Nat) :
    (t.assign h x).total weight + weight (t.value h) = t.total weight + weight x := by
  -- the handle is moved to the front: the rest of the table is the same before and after
  have hperm := perm_cons_erase hmem
  have hrest : h ∉ t.ids.erase h := hn.not_mem_erase
  have hbefore : t.total weight = weight (t.value h) + (HandleTable.total ⟨t.ids.erase h, t.value⟩ weight) := by
    simpa [total] using (hperm.map fun i => weight (t.value i)).sum_nat
  have hafter : (t.assign h x).total weight
      = ((⟨t.ids.erase h, t.value⟩ : HandleTable ι α).emplace h x).total weight := by
    simpa [total, assign, emplace] using (hperm.map fun i => weight (update t.value h x i)).sum_nat
  rw [hafter, total_emplace hrest]
  omega

omit [DecidableEq ι] in
theorem weight_le_total (hmem : h ∈ t.ids) (weight : α → Nat) : weight (t.value h) ≤ t.total weight :=
  le_sum_of_mem (mem_map.mpr ⟨h, hmem, rfl⟩)

omit [DecidableEq ι] in
theorem countP_le_total (hp : ∀ h ∈ t.ids, p h → 1 ≤ weight (t.value h)) : t.ids.countP p ≤ t.total weight := by
  unfold total
  generalize t.ids = l at hp ⊢
  induction l with
  | nil => exact Nat.zero_le _
  | cons h l ih =>
    have htail := ih fun i hi => hp i (mem_cons_of_mem h hi)
    have hhead := hp h mem_cons_self
    rw [countP_cons, map_cons, sum_cons]
    split
    · have := hhead ‹_›
      omega
    · omega

/-! ## Tables of pointers -/

section

variable {κ : Type*} [DecidableEq κ]

def ind (ptr : Option κ) (object : κ) : Nat := (ptr == some object).toNat

@[simp] theorem ind_none (object : κ) : ind none object = 0 := rfl
theorem ind_some (o object : κ) : ind (some o) object = if o = object then 1 else 0 := by
  by_cases h : o = object <;> simp [ind, h]
@[simp] theorem ind_self (object : κ) : ind (some object) object = 1 := by simp [ind]
theorem ind_of_ne {o object : κ} (hne : o ≠ object) : ind (some o) object = 0 := by
  simp [ind, hne]

def holders (t : HandleTable ι (Option κ)) (object : κ) : Nat := t.count (· == some object)

variable {t : HandleTable ι (Option κ)}

theorem holders_emplace (hnew : h ∉ t.ids) (ptr : Option κ) (object : κ) :
    (t.emplace h ptr).holders object = t.holders object + ind ptr object :=
  count_emplace hnew ptr _

theorem holders_assign (hn : t.ids.Nodup) (hmem : h ∈ t.ids) (ptr : Option κ) (object : κ) :
    (t.assign h ptr).holders object + ind (t.value h) object = t.holders object + ind ptr object :=
  count_assign hn hmem ptr _

theorem holders_swap (hn : t.ids.Nodup) (hthis : this ∈ t.ids) (hother : other ∈ t.ids) (object : κ) :
    (t.swap this other).holders object = t.holders object :=
  count_swap hn hthis hother _

theorem holders_erase (hmem : h ∈ t.ids) (object : κ) :
    (t.erase h).holders object + ind (t.value h) object = t.holders object :=
  count_erase hmem _

end

end HandleTable

end Ktl
