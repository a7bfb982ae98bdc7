import Mathlib.Order.Defs.Unbundled

/-!
`binary_search` by an arbitrary predicate. A position is the index of an element; the range
ends behind the last one.
-/
namespace Ktl.BinarySearch

open List

variable {α : Type} {pred equal : α → α → Bool} {xs : List α}

/-- The loop of `binary_search`. -/
def search (pred : α → α → Bool) (xs : List α) (value : α) (first count : Nat) : Option Nat :=
  if 0 < count then
    let countHalf := count / 2
    let middle := first + countHalf
    match xs[middle]? with
    | none => none
    | some x =>
      if pred x value then search pred xs value (middle + 1) (count - (countHalf + 1))
      else search pred xs value first countHalf
  else some first
termination_by count

def binarySearch (pred equal : α → α → Bool) (xs : List α) (value : α) : Option Bool :=
  match search pred xs value 0 xs.length with
  | none => none
  | some first => if first = xs.length then some false else xs[first]?.map fun x => equal x value

def Splits (pred : α → α → Bool) (xs : List α) (value : α) (n : Nat) : Prop :=
  ∀ i x, xs[i]? = some x → (pred x value ↔ i < n)

def Sorted (pred : α → α → Bool) (xs : List α) : Prop := xs.Pairwise fun x y => ¬ pred y x

def Equivalent (pred : α → α → Bool) (x y : α) : Prop := ¬ pred x y ∧ ¬ pred y x

theorem find_splits (hsplits : Splits pred xs value n) : xs.find? (fun x => !pred x value) = xs[n]? := by
  cases he : xs[n]? with
  | none =>
    rw [find?_eq_none]
    intro x hmem
    obtain ⟨i, hi⟩ := getElem?_of_mem hmem
    have hlt := (List.getElem?_eq_some_iff.mp hi).1
    have hle := getElem?_eq_none_iff.mp he
    simpa using (hsplits i x hi).mpr (by omega)
  | some e =>
    obtain ⟨hlt, rfl⟩ := List.getElem?_eq_some_iff.mp he
    rw [find?_eq_some_iff_getElem]
    refine ⟨by simpa using hsplits n _ he, n, hlt, rfl, ?_⟩
    intro j hj
    simpa using (hsplits j _ (getElem?_eq_getElem _)).mpr hj

section

variable {j : Nat} (horder : IsStrictWeakOrder α fun x y => pred x y)
include horder

theorem precedes_or (h : pred x z) (y : α) : pred x y ∨ pred y z := by
  by_cases hxy : pred x y
  · exact .inl hxy
  by_cases hyz : pred y z
  · exact .inr hyz
  have hyx : ¬ pred y x := fun hyx => hyz (horder.trans y x z hyx h)
  have hzy : ¬ pred z y := fun hzy => hxy (horder.trans x z y h hzy)
  exact absurd h (horder.incomp_trans x y z ⟨hxy, hyx⟩ ⟨hyz, hzy⟩).1

variable (hsorted : Sorted pred xs)
include hsorted

theorem not_precedes (hij : i ≤ j) (hx : xs[i]? = some x) (hy : xs[j]? = some y) : ¬ pred y x := by
  obtain ⟨hi, rfl⟩ := List.getElem?_eq_some_iff.mp hx
  obtain ⟨hj, rfl⟩ := List.getElem?_eq_some_iff.mp hy
  rcases Nat.lt_or_eq_of_le hij with hlt | rfl
  · exact pairwise_iff_getElem.mp hsorted i j hi hj hlt
  · exact horder.irrefl _

theorem precedes_of_later (hij : i ≤ j) (hx : xs[i]? = some x) (hy : xs[j]? = some y) (hpred : pred y value) :
    pred x value :=
  (precedes_or horder hpred x).resolve_left (not_precedes horder hsorted hij hx hy)

/-- The loop finds where the elements that precede the value end. -/
theorem search_splits (first count : Nat) (hle : first + count ≤ xs.length)
    (hlow : ∀ i x, i < first → xs[i]? = some x → pred x value)
    (hhigh : ∀ i x, first + count ≤ i → xs[i]? = some x → ¬ pred x value) :
    ∃ n ≤ xs.length, search pred xs value first count = some n ∧ Splits pred xs value n := by
  fun_induction search pred xs value first count with
  | case1 first count hcount half middle hnone =>
    have hbehind := getElem?_eq_none_iff.mp hnone
    omega
  | case2 first count hcount half middle x hx hpred ih =>
    apply ih (by omega)
    · intro i y hi hy
      exact precedes_of_later horder hsorted (by omega) hy hx hpred
    · intro i y hi hy
      exact hhigh i y (by omega) hy
  | case3 first count hcount half middle x hx hpred ih =>
    apply ih (by omega) hlow
    intro i y hi hy hy'
    exact hpred (precedes_of_later horder hsorted hi hx hy hy')
  | case4 first count hcount =>
    refine ⟨first, by omega, rfl, ?_⟩
    intro i x hx
    constructor
    · intro hpred
      exact Nat.lt_of_not_le fun hi => hhigh i x (by omega) hx hpred
    · intro hi
      exact hlow i x hi hx

/-- Whether any element is equivalent to the value shows at the first that does not precede it. -/
theorem equivalent_iff (hsplits : Splits pred xs value n) (he : xs[n]? = some e) :
    (∃ x ∈ xs, Equivalent pred x value) ↔ ¬ pred value e := by
  constructor
  · rintro ⟨x, hmem, hx, hx'⟩ hvalue
    obtain ⟨i, hi⟩ := getElem?_of_mem hmem
    have hni : n ≤ i := Nat.le_of_not_lt fun hin => hx ((hsplits i x hi).mpr hin)
    have hex := not_precedes horder hsorted hni he hi
    exact (precedes_or horder hvalue x).elim hx' hex
  · intro hvalue
    exact ⟨e, mem_of_getElem? he, fun h => Nat.lt_irrefl n ((hsplits n e he).mp h), hvalue⟩

theorem exists_splits (value : α) :
    ∃ n ≤ xs.length, search pred xs value 0 xs.length = some n ∧ Splits pred xs value n := by
  apply search_splits horder hsorted
  · omega
  · omega
  · intro i x hi hx
    have hlt := (List.getElem?_eq_some_iff.mp hx).1
    omega

/-- The last test asks for equality: right if the first element that does not precede the value is
the value. -/
theorem binary_search_right_iff (value : α) :
    (∃ b, binarySearch pred equal xs value = some b ∧ (b ↔ ∃ x ∈ xs, Equivalent pred x value)) ↔
      ∀ e, xs.find? (fun x => !pred x value) = some e → (equal e value ↔ ¬ pred value e) := by
  obtain ⟨n, hn, hsearch, hsplits⟩ := exists_splits horder hsorted value
  rw [find_splits hsplits, binarySearch, hsearch]
  cases he : xs[n]? with
  | none =>
    have hend : n = xs.length := Nat.le_antisymm hn (getElem?_eq_none_iff.mp he)
    have hnone : ¬ ∃ x ∈ xs, Equivalent pred x value := by
      rintro ⟨x, hmem, hx, -⟩
      obtain ⟨i, hi⟩ := getElem?_of_mem hmem
      have hlt := (List.getElem?_eq_some_iff.mp hi).1
      exact hx ((hsplits i x hi).mpr (hend ▸ hlt))
    simp [hend, hnone]
  | some e =>
    have hlt := (List.getElem?_eq_some_iff.mp he).1
    simp [Nat.ne_of_lt hlt, he, equivalent_iff horder hsorted hsplits he]

end

def byKey (x y : Nat × Nat) : Bool := x.1 < y.1

theorem byKey_order : IsStrictWeakOrder (Nat × Nat) fun x y => byKey x y where
  irrefl x := by simp [byKey]
  trans x y z := by
    simp only [byKey, decide_eq_true_eq]
    omega
  incomp_trans x y z := by
    simp only [byKey, decide_eq_true_eq]
    omega

theorem sorted_byKey : Sorted byKey [(1, 0), (2, 0)] := by simp [Sorted, byKey]

theorem binary_search_right_iff_found : ∃ b, binarySearch byKey (· == ·) [(1, 0), (2, 0)] (2, 0) = some b ∧
    (b ↔ ∃ x ∈ [(1, 0), (2, 0)], Equivalent byKey x (2, 0)) :=
  (binary_search_right_iff byKey_order sorted_byKey (2, 0)).mpr (by simp [byKey])

/-- An element with the key of the value is there, but it is not the value. -/
theorem binary_search_same_key : Sorted byKey [(1, 0), (2, 0)] ∧
    binarySearch byKey (· == ·) [(1, 0), (2, 0)] (2, 1) = some false ∧
    ∃ x ∈ [(1, 0), (2, 0)], Equivalent byKey x (2, 1) :=
  ⟨sorted_byKey, by simp [binarySearch, search, byKey], (2, 0), by simp [Equivalent, byKey]⟩

end Ktl.BinarySearch
