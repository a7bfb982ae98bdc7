import Mathlib.Data.List.Forall2
import Mathlib.Order.Basic

/-!
`equal` of two ranges: one implementation compares the lengths first, the other goes
through both ranges in step.
-/
namespace Ktl.RangeEquality

section

variable {α β : Type} (pred : α → β → Bool)

/-- `equal` with one end, or nothing if it reads behind the second range. -/
def equal : List α → List β → Option Bool
  | [], _ => some true
  | _ :: _, [] => none
  | a :: lhs, b :: rhs => if !pred a b then some false else equal lhs rhs

/-- The loop of `equal_impl`. -/
def equalInStep : List α → List β → Bool
  | a :: lhs, b :: rhs => if !pred a b then false else equalInStep lhs rhs
  | _, _ => true

def equalImpl (randomAccessIters : Bool) (lhs : List α) (rhs : List β) : Option Bool :=
  match randomAccessIters with
  | true => if lhs.length ≠ rhs.length then some false else equal pred lhs rhs
  | false => some (equalInStep pred lhs rhs)

end

variable {α β : Type} {pred : α → β → Bool}

abbrev AllPairs (pred : α → β → Bool) (lhs : List α) (rhs : List β) : Prop :=
  List.Forall₂ (fun a b => pred a b = true) lhs rhs

theorem equal_of_length_eq (h : lhs.length = rhs.length) :
    ∃ b, equal pred lhs rhs = some b ∧ (b = true ↔ AllPairs pred lhs rhs) := by
  induction lhs generalizing rhs with
  | nil =>
    obtain rfl : rhs = [] := List.length_eq_zero_iff.mp h.symm
    exact ⟨true, rfl, by simp⟩
  | cons a lhs ih =>
    cases rhs with
    | nil => cases h
    | cons b rhs =>
      obtain ⟨result, hres, hiff⟩ := ih (Nat.succ.inj h)
      cases hpred : pred a b with
      | true => exact ⟨result, by simp [equal, hpred, hres], by simp [hpred, hiff]⟩
      | false => exact ⟨false, by simp [equal, hpred], by simp [hpred]⟩

theorem equalInStep_iff : equalInStep pred lhs rhs = true ↔
    AllPairs pred (lhs.take rhs.length) (rhs.take lhs.length) := by
  induction lhs generalizing rhs with
  | nil => simp [equalInStep]
  | cons a lhs ih =>
    cases rhs with
    | nil => simp [equalInStep]
    | cons b rhs => cases hpred : pred a b <;> simp [equalInStep, hpred, ih]

def Right (pred : α → β → Bool) (lhs : List α) (rhs : List β) (result : Option Bool) : Prop :=
  ∃ b, result = some b ∧ (b = true ↔ AllPairs pred lhs rhs)

theorem Right.unique (h : Right pred lhs rhs result) (h' : Right pred lhs rhs result') : result = result' := by
  obtain ⟨b, rfl, hb⟩ := h
  obtain ⟨b', rfl, hb'⟩ := h'
  rw [Bool.eq_iff_iff.mpr (hb.trans hb'.symm)]

theorem right_randomAccess : Right pred lhs rhs (equalImpl pred true lhs rhs) := by
  by_cases h : lhs.length = rhs.length
  · rw [equalImpl, if_neg (not_not.mpr h)]
    exact equal_of_length_eq h
  · exact ⟨false, by simp [equalImpl, h], by simpa using fun hall => h hall.length_eq⟩

theorem right_inStep_iff : Right pred lhs rhs (equalImpl pred false lhs rhs) ↔
    lhs.length = rhs.length ∨ ¬ AllPairs pred (lhs.take rhs.length) (rhs.take lhs.length) := by
  have hright : Right pred lhs rhs (equalImpl pred false lhs rhs) ↔
      (AllPairs pred (lhs.take rhs.length) (rhs.take lhs.length) ↔ AllPairs pred lhs rhs) := by
    rw [← equalInStep_iff]
    simp [Right, equalImpl]
  rw [hright]
  by_cases h : lhs.length = rhs.length
  · have hwhole : lhs.take rhs.length = lhs := by rw [← h, List.take_length]
    simp [h, hwhole]
  · have hall : ¬ AllPairs pred lhs rhs := fun hall => h hall.length_eq
    simp [h, hall]

/-- Comparing lengths is right; going in step exactly if the lengths are equal or some pair differs.
-/
theorem equal_right_iff (pred : α → β → Bool) (lhs : List α) (rhs : List β) :
    Right pred lhs rhs (equalImpl pred true lhs rhs) ∧
    (Right pred lhs rhs (equalImpl pred false lhs rhs) ↔
      lhs.length = rhs.length ∨ ¬ AllPairs pred (lhs.take rhs.length) (rhs.take lhs.length)) ∧
    (equalImpl pred true lhs rhs = equalImpl pred false lhs rhs ↔
      lhs.length = rhs.length ∨ ¬ AllPairs pred (lhs.take rhs.length) (rhs.take lhs.length)) := by
  refine ⟨right_randomAccess, right_inStep_iff, ?_⟩
  rw [← right_inStep_iff]
  constructor
  · intro h
    rw [← h]
    exact right_randomAccess
  · exact right_randomAccess.unique

/-- A range and a longer one that begins with it are equal in step. -/
theorem proper_prefix_equal_in_step : equalImpl (fun a b : Nat => a = b) false [1] [1, 2] = some true ∧
      equalImpl (fun a b : Nat => a = b) true [1] [1, 2] = some false := by
  decide

end Ktl.RangeEquality
