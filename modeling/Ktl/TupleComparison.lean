import Mathlib.Data.List.FinRange
import Mathlib.Order.PiLex
import Mathlib.Order.WithBot

/-!
The comparison operators of `tuple`, also between tuples of different sizes. The
element at a position has the type `α` gives to that position.
-/
namespace Ktl.TupleComparison

structure Tuple (α : Nat → Type) where
  size : Nat
  get : (i : Fin size) → α i

variable {α : Nat → Type}

/-- The element of a tuple at a position, or none, which is below every element, behind the last. -/
def entry (t : Tuple α) (i : Nat) : WithBot (α i) := if h : i < t.size then t.get ⟨i, h⟩ else ⊥

theorem entry_of_lt {t : Tuple α} (h : i < t.size) : entry t i = t.get ⟨i, h⟩ := dif_pos h
theorem entry_of_le (h : t.size ≤ i) : entry t i = ⊥ := dif_neg (by omega)

def entries (t : Tuple α) : Lex ((i : Nat) → WithBot (α i)) := toLex (entry t)

theorem eq_iff (l r : Tuple α) : l = r ↔ ∃ h : l.size = r.size, ∀ i, l.get i = r.get (i.cast h) := by
  constructor
  · rintro rfl
    exact ⟨rfl, fun i => rfl⟩
  · obtain ⟨m, l⟩ := l
    obtain ⟨n, r⟩ := r
    rintro ⟨h, hget⟩
    obtain rfl : m = n := h
    exact congrArg (Tuple.mk m) (funext hget)

theorem size_le_of_entry_eq {l r : Tuple α} (h : entry l = entry r) : l.size ≤ r.size := by
  by_contra hlt
  have hlast := congrFun h r.size
  rw [entry_of_lt (by omega), entry_of_le le_rfl] at hlast
  exact WithBot.coe_ne_bot hlast

theorem entries_inj {l r : Tuple α} : entries l = entries r ↔ l = r := by
  constructor
  · intro h
    have hentry : entry l = entry r := h
    have hsize := le_antisymm (size_le_of_entry_eq hentry) (size_le_of_entry_eq hentry.symm)
    refine (eq_iff l r).mpr ⟨hsize, fun i => ?_⟩
    have hi := congrFun hentry i
    rw [entry_of_lt i.isLt, entry_of_lt (by omega)] at hi
    exact WithBot.coe_injective hi
  · rintro rfl
    rfl

variable [∀ i, LinearOrder (α i)]

def equalTo (lhs rhs : Tuple α) : Bool :=
  if h : lhs.size = rhs.size then (List.finRange lhs.size).all fun i => lhs.get i = rhs.get (i.cast h) else false

def lessImpl (lhs rhs : Tuple α) (idx : Nat) (hl : idx ≤ lhs.size) (hr : idx ≤ rhs.size) : Bool :=
  if hend : lhs.size ≥ rhs.size ∧ idx = rhs.size then false
  else if hshort : idx = lhs.size then true
  else
    let left := lhs.get ⟨idx, by omega⟩
    let right := rhs.get ⟨idx, by omega⟩
    if left < right then true
    else if right < left then false
    else lessImpl lhs rhs (idx + 1) (by omega) (by omega)
termination_by lhs.size - idx

def less (lhs rhs : Tuple α) : Bool := lessImpl lhs rhs 0 (Nat.zero_le _) (Nat.zero_le _)

/-- `lhs != rhs` -/
def notEqual (lhs rhs : Tuple α) : Bool := !equalTo lhs rhs

/-- `lhs <= rhs` -/
def lessEqual (lhs rhs : Tuple α) : Bool := !less rhs lhs

/-- `lhs > rhs` -/
def greater (lhs rhs : Tuple α) : Bool := less rhs lhs

/-- `lhs >= rhs` -/
def greaterEqual (lhs rhs : Tuple α) : Bool := !less lhs rhs

theorem entries_lt_iff {l r : Tuple α} :
    entries l < entries r ↔ ∃ k, (∀ i < k, entry l i = entry r i) ∧ entry l k < entry r k := Iff.rfl

theorem lessImpl_iff {l r : Tuple α} (hl : idx ≤ l.size) (hr : idx ≤ r.size)
    (hagree : ∀ i < idx, entry l i = entry r i) : lessImpl l r idx hl hr = true ↔ entries l < entries r := by
  fun_induction lessImpl l r idx hl hr with
  | case1 idx hl hr hend =>
    simp only [Bool.false_eq_true, entries_lt_iff, false_iff]
    rintro ⟨k, -, hk⟩
    by_cases hlt : k < idx
    · exact hk.ne (hagree k hlt)
    · rw [entry_of_le (t := r) (by omega)] at hk
      exact not_lt_bot hk
  | case2 hl hr hend =>
    have hlt : entry l l.size < entry r l.size := by
      rw [entry_of_le le_rfl, entry_of_lt (t := r) (by omega)]
      exact WithBot.bot_lt_coe _
    simp only [entries_lt_iff, true_iff]
    exact ⟨_, hagree, hlt⟩
  | case3 idx hl hr hend hshort left right hlt =>
    have hlt : entry l idx < entry r idx := by
      rw [entry_of_lt (by omega), entry_of_lt (by omega)]
      exact WithBot.coe_lt_coe.mpr hlt
    simp only [entries_lt_iff, true_iff]
    exact ⟨_, hagree, hlt⟩
  | case4 idx hl hr hend hshort left right hlt hgt =>
    have hgt : entry r idx < entry l idx := by
      rw [entry_of_lt (by omega), entry_of_lt (by omega)]
      exact WithBot.coe_lt_coe.mpr hgt
    have hswap := entries_lt_iff.mpr ⟨idx, fun i hi => (hagree i hi).symm, hgt⟩
    simp only [Bool.false_eq_true, false_iff]
    exact hswap.asymm
  | case5 idx hl hr hend hshort left right hlt hgt ih =>
    apply ih
    intro i hi
    by_cases hlast : i = idx
    · subst i
      rw [entry_of_lt (by omega), entry_of_lt (by omega)]
      exact congrArg _ (le_antisymm (not_lt.mp hgt) (not_lt.mp hlt))
    · exact hagree i (by omega)

theorem less_iff (l r : Tuple α) : less l r = true ↔ entries l < entries r :=
  lessImpl_iff _ _ (by simp)

theorem equalTo_iff (l r : Tuple α) : equalTo l r = true ↔ ∃ h : l.size = r.size, ∀ i, l.get i = r.get (i.cast h) := by
  rw [equalTo]
  split_ifs with h <;> simp [h]

/-- `operator<` is the lexicographic order in which what a tuple lacks is below every element; the
other five agree with it, whatever the sizes of the tuples. -/
theorem tuple_comparison_lexicographic : (∀ l r : Tuple α, less l r = true ↔ entries l < entries r) ∧
    (∀ l r : Tuple α, equalTo l r = true ↔ ∃ h : l.size = r.size, ∀ i, l.get i = r.get (i.cast h)) ∧
    (∀ l r : Tuple α, (notEqual l r = true ↔ ¬ equalTo l r = true) ∧
      (lessEqual l r = true ↔ less l r = true ∨ equalTo l r = true) ∧ (greater l r = true ↔ less r l = true) ∧
      (greaterEqual l r = true ↔ less r l = true ∨ equalTo l r = true) ∧
      (less l r = true ∨ equalTo l r = true ∨ less r l = true)) ∧
    (∀ t : Tuple α, ¬ less t t = true) ∧
    ∀ a b c : Tuple α, less a b = true → less b c = true → less a c = true := by
  have heq (l r : Tuple α) : equalTo l r = true ↔ entries l = entries r := by
    rw [equalTo_iff, entries_inj, eq_iff]
  have hnot (l r : Tuple α) : (!less r l) = true ↔ less l r = true ∨ equalTo l r = true := by
    simp only [Bool.not_eq_true', ← Bool.not_eq_true, less_iff, heq]
    exact not_lt.trans le_iff_lt_or_eq
  refine ⟨less_iff, equalTo_iff, ?_, ?_, ?_⟩
  · intro l r
    refine ⟨by simp [notEqual], hnot l r, Iff.rfl, ?_, ?_⟩
    · rw [greaterEqual, hnot, heq, heq, eq_comm (a := entries r)]
    · rw [less_iff, less_iff, heq]
      exact lt_trichotomy _ _
  · intro t
    rw [less_iff]
    exact lt_irrefl _
  · intro a b c
    simp only [less_iff]
    exact lt_trans

end Ktl.TupleComparison
