import Mathlib.Data.BitVec

/-!
The arithmetic of `atomic<Ty>` for integral types. An operation gives what it returns and
what is stored afterwards.
-/
namespace Ktl.AtomicIntegral

section

inductive Width where
  | w8 | w16 | w32 | w64
  deriving DecidableEq

def Width.bits : Width → Nat
  | .w8 => 8
  | .w16 => 16
  | .w32 => 32
  | .w64 => 64

@[ext] structure Result (w : Width) where
  returned : BitVec w.bits
  stored : BitVec w.bits
  deriving DecidableEq

variable {w : Width} (x y : BitVec w.bits)

/-- The primitives return the new value; `InterlockedExchangeAdd8` returns the old one. -/
def interlocked : Result w := ⟨if w = .w8 then x else x + y, x + y⟩

/-- There is none of 16 bits, and no policy has that of 32 bits under the name that is called. -/
def interlockedAdd : Option (Result w) := if w = .w8 ∨ w = .w64 then some (interlocked x y) else none

def interlockedIncrement : Result w := interlocked x 1

def interlockedDecrement : Result w := interlocked x (-1)

def add : Option (Result w) := (interlockedAdd x y).map fun r => { r with returned := r.returned - y }

def negate : BitVec w.bits := 0 - y

inductive Operation (w : Width) where
  | fetchAdd (operand : BitVec w.bits)
  | fetchSub (operand : BitVec w.bits)
  | addAssign (operand : BitVec w.bits)
  | subAssign (operand : BitVec w.bits)
  | preIncrement | postIncrement | preDecrement | postDecrement
  deriving DecidableEq

def Operation.run : Operation w → Option (Result w)
  | .fetchAdd y => add x y
  | .fetchSub y => add x (negate y)
  | .addAssign y => (add x y).map fun r => { r with returned := r.returned + y }
  | .subAssign y => (add x (negate y)).map fun r => { r with returned := r.returned - y }
  | .preIncrement => some (interlockedIncrement x)
  | .postIncrement => some { interlockedIncrement x with returned := (interlockedIncrement x).returned - 1 }
  | .preDecrement => some (interlockedDecrement x)
  | .postDecrement => some { interlockedDecrement x with returned := (interlockedDecrement x).returned + 1 }

end

namespace Operation

def expected (x : BitVec w.bits) : Operation w → Result w
  | fetchAdd y => ⟨x, x + y⟩
  | fetchSub y => ⟨x, x - y⟩
  | addAssign y => ⟨x + y, x + y⟩
  | subAssign y => ⟨x - y, x - y⟩
  | preIncrement => ⟨x + 1, x + 1⟩
  | postIncrement => ⟨x, x + 1⟩
  | preDecrement => ⟨x - 1, x - 1⟩
  | postDecrement => ⟨x, x - 1⟩

def change : Operation w → BitVec w.bits
  | fetchAdd y | addAssign y => y
  | fetchSub y | subAssign y => -y
  | preIncrement | postIncrement => 1
  | preDecrement | postDecrement => -1

def Offered : Operation w → Prop
  | fetchAdd _ | fetchSub _ | addAssign _ | subAssign _ => w = .w8 ∨ w = .w64
  | _ => True

theorem stored_expected (op : Operation w) (x : BitVec w.bits) : (op.expected x).stored = x + op.change := by
  cases op <;> simp [expected, change, sub_eq_add_neg]

/-- For 8 bits the change is taken off once more. -/
theorem run_eq (op : Operation w) (x : BitVec w.bits) (hoffered : op.Offered) :
    op.run x = some ⟨(op.expected x).returned - if w = .w8 then op.change else 0, x + op.change⟩ := by
  have hadd : ∀ y, w = .w8 ∨ w = .w64 → add x y = some ⟨x - if w = .w8 then y else 0, x + y⟩ := by
    intro y hw
    rw [add, interlockedAdd, if_pos hw, Option.map_some]
    split <;> simp_all [interlocked]
  cases op with
  | fetchAdd y => exact hadd y hoffered
  | fetchSub y => simp [run, hadd _ hoffered, negate, expected, change]
  | addAssign y =>
    simp only [run, hadd y hoffered, Option.map_some, expected, change]
    grind
  | subAssign y =>
    simp only [run, hadd _ hoffered, Option.map_some, negate, expected, change]
    grind
  | preIncrement | postIncrement | preDecrement | postDecrement =>
    simp only [run, interlockedIncrement, interlockedDecrement, interlocked, expected, change]
    grind

/-- What is returned is wrong for 8 bits unless nothing changes. -/
theorem atomic_right_iff (op : Operation w) (x : BitVec w.bits) (hoffered : op.Offered) :
    ∃ r, op.run x = some r ∧ r.stored = (op.expected x).stored ∧ (r = op.expected x ↔ w ≠ .w8 ∨ op.change = 0) := by
  refine ⟨_, op.run_eq x hoffered, (op.stored_expected x).symm, ?_⟩
  rw [Result.ext_iff, op.stored_expected]
  by_cases hw : w = .w8 <;> simp [hw]

theorem atomic_right_iff_wide : ∃ r, (fetchSub 5 : Operation .w64).run 3 = some r ∧ r = ⟨3, -2⟩ := by
  obtain ⟨r, hrun, -, hright⟩ := atomic_right_iff (fetchSub 5 : Operation .w64) 3 (.inr rfl)
  exact ⟨r, hrun, hright.mpr (.inl (by decide))⟩

/-- `fetch_add` of 8 bits returns the old value less the operand, `++x` the old value. -/
theorem narrow_returns : (fetchAdd 1 : Operation .w8).run 1 = some ⟨0, 2⟩ ∧
    (preIncrement : Operation .w8).run 1 = some ⟨1, 2⟩ ∧ (postIncrement : Operation .w8).run 1 = some ⟨0, 2⟩ := by
  decide

end Operation

end Ktl.AtomicIntegral
