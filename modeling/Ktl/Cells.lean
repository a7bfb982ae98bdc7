import Mathlib.Data.List.Basic

/-!
Rows of objects under integer positions, as iterators see them. Where there is no
object, nothing can be read, assigned or exchanged.
-/
namespace Ktl.Cells

variable {α : Type*} {c : Int → Option α} {xs : List α}

def ofList (xs : List α) : Int → Option α := fun i => if 0 ≤ i then xs[i.toNat]? else none

def exchanged (c : Int → Option α) (i j : Int) : Int → Option α :=
  fun k => if k = i then c j else if k = j then c i else c k

def swap (c : Int → Option α) (i j : Int) : Option (Int → Option α) :=
  if (c i).isSome ∧ (c j).isSome then some (exchanged c i j) else none

def assign (c : Int → Option α) (i : Int) (v : α) : Option (Int → Option α) :=
  if (c i).isSome then some (Function.update c i (some v)) else none

def transfer (left : α → α) (c : Int → Option α) (i j : Int) : Option (Int → Option α) :=
  (c i).bind fun v => (assign c i (left v)).bind fun c => assign c j v

def mirrored (c : Int → Option α) (a b : Int) : Int → Option α :=
  fun k => if a ≤ k ∧ k < b then c (a + b - 1 - k) else c k

def rotated (c : Int → Option α) (a m b : Int) : Int → Option α := fun k =>
  if a ≤ k ∧ k < a + (b - m) then c (k + (m - a))
  else if a ≤ k ∧ k < b then c (k - (b - m))
  else c k

def copied (c : Int → Option α) (i j n : Int) : Int → Option α :=
  fun k => if j ≤ k ∧ k < j + n then c (k - j + i) else c k

def Full (c : Int → Option α) (a b : Int) : Prop := ∀ k, a ≤ k → k < b → (c k).isSome

theorem ofList_nonneg (xs : List α) (n : Nat) : ofList xs n = xs[n]? := by simp [ofList]

theorem ofList_isSome : (ofList xs i).isSome ↔ 0 ≤ i ∧ i < xs.length := by
  unfold ofList
  split
  · simp only [isSome_getElem?]
    omega
  · simp only [Option.isSome_none, Bool.false_eq_true, false_iff]
    omega

theorem ofList_eq_none (h : (xs.length : Int) ≤ i) : ofList xs i = none := by
  rw [← Option.not_isSome_iff_eq_none, ofList_isSome]
  omega

theorem full_ofList (xs : List α) : Full (ofList xs) 0 xs.length :=
  fun _ hk hk' => ofList_isSome.mpr ⟨hk, hk'⟩

theorem ofList_reverse (xs : List α) : ofList xs.reverse = mirrored (ofList xs) 0 xs.length := by
  funext k
  unfold mirrored
  split_ifs with hk
  · have hindex : (0 + (xs.length : Int) - 1 - k).toNat = xs.length - 1 - k.toNat := by omega
    rw [ofList, if_pos hk.1, List.getElem?_reverse (by omega), ofList, if_pos (by omega), hindex]
  · have hout : ∀ ys : List α, ys.length = xs.length → ofList ys k = none := by
      intro ys hys
      rw [← Option.not_isSome_iff_eq_none, ofList_isSome]
      omega
    rw [hout _ List.length_reverse, hout _ rfl]

theorem ofList_rotated (hn : n ≤ xs.length) : ofList (xs.drop n ++ xs.take n) = rotated (ofList xs) 0 n xs.length := by
  funext k
  have hdrop : (xs.drop n).length = xs.length - n := List.length_drop
  have htake := List.length_take_of_le hn
  by_cases hk : 0 ≤ k
  · obtain ⟨l, rfl⟩ : ∃ l : Nat, k = l := ⟨k.toNat, by omega⟩
    rw [ofList_nonneg, rotated, List.getElem?_append, hdrop]
    by_cases hfront : l < xs.length - n
    · have hindex : (l : Int) + (n - 0) = (n + l : Nat) := by omega
      rw [if_pos hfront, if_pos (by omega), List.getElem?_drop, hindex, ofList_nonneg]
    · rw [if_neg hfront, if_neg (by omega)]
      by_cases hback : l < xs.length
      · have hindex : (l : Int) - (xs.length - n) = (l - (xs.length - n) : Nat) := by omega
        rw [if_pos (by omega), List.getElem?_take_of_lt (by omega), hindex, ofList_nonneg]
      · simp (disch := omega) only [if_neg, ofList_nonneg, List.getElem?_eq_none]
  · simp (disch := omega) only [ofList, if_neg, rotated]

theorem swap_eq (hi : (c i).isSome) (hj : (c j).isSome) : swap c i j = some (exchanged c i j) :=
  if_pos ⟨hi, hj⟩

theorem swap_eq_none (hj : c j = none) : swap c i j = none := by
  rw [swap, hj]
  exact if_neg fun h => Bool.false_ne_true h.2

theorem exchanged_at (k : Int) : exchanged c i j k = c (if k = i then j else if k = j then i else k) := by
  simp [exchanged, apply_ite c]
theorem mirrored_at (k : Int) : mirrored c a b k = c (if a ≤ k ∧ k < b then a + b - 1 - k else k) := by
  simp [mirrored, apply_ite c]

theorem rotated_at (k : Int) : rotated c a m b k =
    c (if a ≤ k ∧ k < a + (b - m) then k + (m - a) else if a ≤ k ∧ k < b then k - (b - m) else k) := by
  simp [rotated, apply_ite c]

theorem isSome_exchanged (hi : (c i).isSome) (hj : (c j).isSome) : (exchanged c i j k).isSome = (c k).isSome := by
  unfold exchanged
  split
  · rename_i hk
    rw [hk, hi, hj]
  · split_ifs with hk
    · rw [hk, hi, hj]
    · rfl

theorem Full.exchanged (h : Full c a b) (hi : (c i).isSome) (hj : (c j).isSome) : Full (exchanged c i j) a b := by
  intro k hk hk'
  rw [isSome_exchanged hi hj]
  exact h k hk hk'

theorem Full.update (h : Full c a b) : Full (Function.update c i (some v)) a b := by
  intro k hk hk'
  by_cases hi : k = i
  · rw [hi, Function.update_self]
    rfl
  · rw [Function.update_of_ne hi]
    exact h k hk hk'

theorem Full.mono (h : Full c a b) (ha : a ≤ a') (hb : b' ≤ b) : Full c a' b' :=
  fun k hk hk' => h k (Int.le_trans ha hk) (Int.lt_of_lt_of_le hk' hb)

theorem Full.mirrored (h : Full c a b) (ha : a ≤ a') (hb : b' ≤ b) : Full (mirrored c a' b') a b := by
  intro k hk hk'
  rw [mirrored_at]
  exact h _ (by omega) (by omega)

theorem mirrored_of_le (h : b ≤ a + 1) : mirrored c a b = c := by
  funext k
  rw [mirrored_at]
  congr 1
  omega

theorem mirrored_exchanged (h : a < b) : mirrored (exchanged c a b) (a + 1) b = mirrored c a (b + 1) := by
  funext k
  rw [mirrored_at, exchanged_at, mirrored_at]
  congr 1
  omega

theorem mirrored_mirrored_mirrored (ham : a ≤ m) (hmb : m ≤ b) :
    mirrored (mirrored (mirrored c a m) m b) a b = rotated c a m b := by
  funext k
  rw [mirrored_at, mirrored_at, mirrored_at, rotated_at]
  congr 1
  omega

end Ktl.Cells
