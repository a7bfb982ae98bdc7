import Mathlib.Data.List.Count

/-!
Counting the members of a finite list of keys whose value passes a test, and
how the count moves when one key is updated, added or removed.
-/
namespace Ktl.Counting

variable {ι α : Type*} [DecidableEq ι]

variable {keys : List ι}

theorem countP_update_of_notMem (hi : i ∉ keys) (f : ι → α) (x : α) (p : α → Bool) :
    keys.countP (fun j => p (Function.update f i x j)) = keys.countP (fun j => p (f j)) := by
  apply List.countP_congr
  intro j hj
  have hne : j ≠ i := fun he => hi (he ▸ hj)
  rw [Function.update_of_ne hne]

theorem countP_update_of_mem (hn : keys.Nodup) (hi : i ∈ keys) (f : ι → α) (x : α) (p : α → Bool) :
    keys.countP (fun j => p (Function.update f i x j)) + (if p (f i) then 1 else 0) =
      keys.countP (fun j => p (f j)) + (if p x then 1 else 0) := by
  induction keys with
  | nil => simp at hi
  | cons k keys ih =>
    obtain ⟨hk, hn⟩ := List.nodup_cons.mp hn
    by_cases he : k = i
    · subst he
      have hrest := countP_update_of_notMem hk f x p
      simp only [List.countP_cons, Function.update_self, hrest]
      omega
    · have hi' : i ∈ keys := by simpa [Ne.symm he] using hi
      have hrest := ih hn hi'
      simp only [List.countP_cons, Function.update_of_ne he]
      omega

theorem countP_erase_of_mem (hi : i ∈ keys) (q : ι → Bool) :
    (keys.erase i).countP q + (if q i then 1 else 0) = keys.countP q := by
  rw [(List.perm_cons_erase hi).countP_eq q, List.countP_cons]

omit [DecidableEq ι] in
theorem countP_pos_of_mem (hi : i ∈ keys) (hq : q i = true) : 0 < keys.countP q :=
  List.countP_pos_iff.mpr ⟨i, hi, hq⟩

theorem two_le_countP (hi : i ∈ keys) (hj : j ∈ keys) (hne : i ≠ j) (hqi : q i = true) (hqj : q j = true) :
    2 ≤ keys.countP q := by
  have herase := countP_erase_of_mem hi q
  have hpos := countP_pos_of_mem ((List.mem_erase_of_ne hne.symm).mpr hj) hqj
  rw [hqi, if_pos rfl] at herase
  omega

end Ktl.Counting
