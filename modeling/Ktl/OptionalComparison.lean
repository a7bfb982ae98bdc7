import Mathlib.Order.WithBot

/-!
The comparison operators of `optional`: six between two optionals, and twelve between an
optional and a value. The empty optional is below every value.
-/
namespace Ktl.OptionalComparison

inductive Operator where
  | eq | ne | lt | le | gt | ge
  deriving DecidableEq

variable {α : Type} [LinearOrder α]

def Operator.onValues : Operator → α → α → Bool
  | .eq, lhs, rhs => lhs = rhs
  | .ne, lhs, rhs => lhs ≠ rhs
  | .lt, lhs, rhs => lhs < rhs
  | .le, lhs, rhs => lhs ≤ rhs
  | .gt, lhs, rhs => rhs < lhs
  | .ge, lhs, rhs => rhs ≤ lhs

section

variable (lhs rhs : Option α)

/-- `lhs == rhs` -/
def equal : Bool :=
  if (lhs.isSome ^^ rhs.isSome) = true then false
  else match lhs, rhs with
    | some l, some r => Operator.eq.onValues l r
    | _, _ => true

/-- `lhs != rhs` -/
def notEqual : Bool := !equal lhs rhs

/-- `lhs < rhs` -/
def less : Bool :=
  match lhs, rhs with
  | _, none => false
  | none, some _ => true
  | some l, some r => Operator.lt.onValues l r

/-- `lhs > rhs` -/
def greater : Bool := less rhs lhs

/-- `lhs <= rhs` -/
def lessEqual : Bool := !greater lhs rhs

/-- `lhs >= rhs` -/
def greaterEqual : Bool := !less lhs rhs

end

def Operator.onOptionals : Operator → Option α → Option α → Bool
  | .eq => equal
  | .ne => notEqual
  | .lt => less
  | .le => lessEqual
  | .gt => greater
  | .ge => greaterEqual

def testValue (opt : Option α) (test : α → Bool) : Bool :=
  match opt with
  | none => false
  | some v => test v

section

variable (opt : Option α) (value : α)

/-- `opt == value` -/
def optEqual : Bool := testValue opt fun v => Operator.eq.onValues v value

/-- `value == opt` -/
def valueEqual : Bool := testValue opt fun v => Operator.eq.onValues value v

/-- `opt != value` -/
def optNotEqual : Bool := testValue opt fun v => Operator.ne.onValues v value

/-- `value != opt` -/
def valueNotEqual : Bool := testValue opt fun v => Operator.ne.onValues value v

/-- `opt < value` -/
def optLess : Bool := testValue opt fun v => Operator.lt.onValues v value

/-- `value < opt` -/
def valueLess : Bool := testValue opt fun v => Operator.lt.onValues value v

/-- `opt <= value` -/
def optLessEqual : Bool := testValue opt fun v => Operator.le.onValues v value

/-- `value <= opt` -/
def valueLessEqual : Bool := testValue opt fun v => Operator.le.onValues value v

/-- `opt > value` -/
def optGreater : Bool := testValue opt fun v => Operator.gt.onValues v value

/-- `value > opt` -/
def valueGreater : Bool := testValue opt fun v => Operator.gt.onValues value v

/-- `opt >= value` -/
def optGreaterEqual : Bool := testValue opt fun v => Operator.ge.onValues v value

/-- `value >= opt` -/
def valueGreaterEqual : Bool := testValue opt fun v => Operator.ge.onValues value v

def Operator.optFirst : Operator → Bool
  | .eq => optEqual opt value
  | .ne => optNotEqual opt value
  | .lt => optLess opt value
  | .le => optLessEqual opt value
  | .gt => optGreater opt value
  | .ge => optGreaterEqual opt value

def Operator.valueFirst : Operator → Bool
  | .eq => valueEqual opt value
  | .ne => valueNotEqual opt value
  | .lt => valueLess opt value
  | .le => valueLessEqual opt value
  | .gt => valueGreater opt value
  | .ge => valueGreaterEqual opt value

end

section

variable (lhs rhs : α)

theorem onValues_ne : Operator.ne.onValues lhs rhs = !Operator.eq.onValues lhs rhs := decide_not ..
theorem onValues_le : Operator.le.onValues lhs rhs = !Operator.gt.onValues lhs rhs :=
  (decide_eq_decide.mpr not_lt.symm).trans (decide_not ..)
theorem onValues_ge : Operator.ge.onValues lhs rhs = !Operator.lt.onValues lhs rhs :=
  (decide_eq_decide.mpr not_lt.symm).trans (decide_not ..)

end

theorem equal_eq (lhs rhs : Option α) : equal lhs rhs = Operator.eq.onValues (α := WithBot α) lhs rhs := by
  cases lhs with
  | none =>
    cases rhs with
    | none => exact (decide_eq_true (rfl : (⊥ : WithBot α) = ⊥)).symm
    | some r => exact (decide_eq_false (WithBot.bot_ne_coe (a := r))).symm
  | some l =>
    cases rhs with
    | none => exact (decide_eq_false (WithBot.coe_ne_bot (a := l))).symm
    | some r => exact decide_eq_decide.mpr WithBot.coe_inj.symm

theorem less_eq (lhs rhs : Option α) : less lhs rhs = Operator.lt.onValues (α := WithBot α) lhs rhs := by
  cases lhs with
  | none =>
    cases rhs with
    | none => exact (decide_eq_false (lt_irrefl (⊥ : WithBot α))).symm
    | some r => exact (decide_eq_true (WithBot.bot_lt_coe r)).symm
  | some l =>
    cases rhs with
    | none => exact (decide_eq_false (WithBot.not_lt_bot (l : WithBot α))).symm
    | some r => exact decide_eq_decide.mpr WithBot.coe_lt_coe.symm

theorem onOptionals_eq (op : Operator) (lhs rhs : Option α) :
    op.onOptionals lhs rhs = op.onValues (α := WithBot α) lhs rhs := by
  cases op with
  | eq => exact equal_eq lhs rhs
  | ne => exact (congrArg (! ·) (equal_eq lhs rhs)).trans (onValues_ne _ _).symm
  | lt => exact less_eq lhs rhs
  | gt => exact less_eq rhs lhs
  | le => exact (congrArg (! ·) (less_eq rhs lhs)).trans (onValues_le _ _).symm
  | ge => exact (congrArg (! ·) (less_eq lhs rhs)).trans (onValues_ge _ _).symm

theorem onOptionals_some (op : Operator) (l r : α) : op.onOptionals (some l) (some r) = op.onValues l r := by
  cases op with
  | eq => rfl
  | ne => exact (onValues_ne l r).symm
  | lt => rfl
  | gt => rfl
  | le => exact (onValues_le l r).symm
  | ge => exact (onValues_ge l r).symm

theorem optFirst_some (op : Operator) (v value : α) : op.optFirst (some v) value = op.onValues v value := by
  cases op <;> rfl
theorem valueFirst_some (op : Operator) (v value : α) : op.valueFirst (some v) value = op.onValues value v := by
  cases op <;> rfl

def ExactlyOne (a b c : Bool) : Prop :=
  a = true ∧ b = false ∧ c = false ∨ a = false ∧ b = true ∧ c = false ∨ a = false ∧ b = false ∧ c = true
deriving Decidable

theorem exactlyOne_values (a b : α) :
    ExactlyOne (Operator.lt.onValues a b) (Operator.eq.onValues a b) (Operator.gt.onValues a b) := by
  rcases lt_trichotomy a b with hlt | rfl | hgt
  · exact .inl ⟨decide_eq_true hlt, decide_eq_false (ne_of_lt hlt), decide_eq_false (lt_asymm hlt)⟩
  · exact .inr (.inl ⟨decide_eq_false (lt_irrefl a), decide_eq_true rfl, decide_eq_false (lt_irrefl a)⟩)
  · exact .inr (.inr ⟨decide_eq_false (lt_asymm hgt), decide_eq_false (ne_of_gt hgt), decide_eq_true hgt⟩)

/-- The operators with a value say what those with an optional of the value say. -/
structure Agrees (opt : Option α) (value : α) : Prop where
  opt_first : ∀ op : Operator, op.optFirst opt value = op.onOptionals opt (some value)
  value_first : ∀ op : Operator, op.valueFirst opt value = op.onOptionals (some value) opt
  not_equal : optNotEqual opt value = !optEqual opt value ∧ valueNotEqual opt value = !valueEqual opt value
  one_of_three : ExactlyOne (optLess opt value) (optEqual opt value) (optGreater opt value) ∧
    ExactlyOne (valueLess opt value) (valueEqual opt value) (valueGreater opt value)

theorem agrees_some (v value : α) : Agrees (some v) value where
  opt_first op := by rw [optFirst_some, onOptionals_some]
  value_first op := by rw [valueFirst_some, onOptionals_some]
  not_equal := ⟨onValues_ne v value, onValues_ne value v⟩
  one_of_three := ⟨exactlyOne_values v value, exactlyOne_values value v⟩

/-- The operators between optionals describe the order with the empty optional at the bottom; those
with a value agree with them exactly when the optional is engaged. -/
theorem mixed_agree_iff (opt : Option α) (value : α) : (∀ (op : Operator) (lhs rhs : Option α),
      op.onOptionals lhs rhs = op.onValues (α := WithBot α) lhs rhs) ∧
    (Agrees opt value ↔ opt.isSome) := by
  refine ⟨onOptionals_eq, ?_⟩
  cases opt with
  | none =>
    -- the empty optional is unequal to the value, and `!=` says that it is not
    refine iff_of_false (fun h => ?_) Bool.false_ne_true
    cases h.opt_first .ne
  | some v => exact iff_of_true (agrees_some v value) rfl

/-- An empty optional is neither equal nor unequal to zero, nor below it. -/
theorem empty_against_zero : optEqual (none : Option Nat) 0 = false ∧ optNotEqual (none : Option Nat) 0 = false ∧
    optLess (none : Option Nat) 0 = false ∧ optGreater (none : Option Nat) 0 = false ∧
    notEqual (none : Option Nat) (some 0) = true ∧ less (none : Option Nat) (some 0) = true ∧
    valueGreaterEqual (none : Option Nat) 0 = false ∧ greaterEqual (some 0) (none : Option Nat) = true := by
  decide

end Ktl.OptionalComparison
