import Mathlib.Algebra.Group.Nat.Defs
import Mathlib.Tactic.SplitIfs

/-!
Interlocked increment and decrement of an unsigned 32-bit counter, which wrap
around.
-/
namespace Ktl.Word32

def increment (counter : Nat) : Nat := if counter + 1 = 2 ^ 32 then 0 else counter + 1
def decrement (counter : Nat) : Nat := if counter = 0 then 2 ^ 32 - 1 else counter - 1

theorem increment_of_lt (h : n + 1 < 2 ^ 32) : increment n = n + 1 :=
  if_neg (Nat.ne_of_lt h)
theorem decrement_succ (n : Nat) : decrement (n + 1) = n := by
  simp [decrement]

theorem increment_lt (h : n < 2 ^ 32) : increment n < 2 ^ 32 := by
  unfold increment
  split_ifs <;> omega

theorem decrement_increment (n : Nat) : decrement (increment n) = n := by
  by_cases hwrap : n + 1 = 2 ^ 32
  · simp only [increment, decrement, hwrap, if_true]
    omega
  · rw [increment, if_neg hwrap, decrement_succ]

end Ktl.Word32
