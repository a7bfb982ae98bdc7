import Ktl.Loops
import Ktl.StringView

/-!
The relational operators of strings, null-terminated strings and native strings. Most of them
are written in terms of others, and two of them in terms of themselves.
-/
namespace Ktl.StringRelations

open Loops TextOrder WinntString StringView

inductive Operator where
  | eq | ne | lt | gt | le | ge
  deriving DecidableEq

/-- The overloads. A null-terminated string has any number of characters before the null. -/
inductive Call (α : Type) where
  | strings (op : Operator) {f g : Format} (lhs : View f α) (rhs : View g α)
  | stringChars (op : Operator) {f : Format} (lhs : View f α) (nullTerminatedStr : List α)
  | charsString (op : Operator) {f : Format} (nullTerminatedStr : List α) (rhs : View f α)
  | stringNative (op : Operator) {f : Format} (lhs nativeStr : View f α)
  | nativeString (op : Operator) {f : Format} (nativeStr rhs : View f α)

/-- What an overload returns: a value, or another overload's result as it is or negated. -/
inductive Body (α : Type) where
  | value (b : Bool)
  | same (call : Call α)
  | negated (call : Call α)

variable {f g : Format} {α : Type}

namespace Operator

def test : Operator → Int → Bool
  | .eq, x => x = 0
  | .ne, x => x ≠ 0
  | .lt, x => x < 0
  | .gt, x => 0 < x
  | .le, x => x ≤ 0
  | .ge, x => 0 ≤ x

def swap : Operator → Operator
  | .eq => .eq
  | .ne => .ne
  | .lt => .gt
  | .gt => .lt
  | .le => .ge
  | .ge => .le

def Relates [LinearOrder α] : Operator → List α → List α → Prop
  | .eq, a, b => a = b
  | .ne, a, b => a ≠ b
  | .lt, a, b => a < b
  | .gt, a, b => b < a
  | .le, a, b => a ≤ b
  | .ge, a, b => b ≤ a

end Operator

namespace Call

def operator : Call α → Operator
  | .strings op _ _ | .stringChars op _ _ | .charsString op _ _ | .stringNative op _ _
  | .nativeString op _ _ => op

def left : Call α → List α
  | .strings _ lhs _ | .stringChars _ lhs _ | .stringNative _ lhs _ => lhs.chars
  | .nativeString _ nativeStr _ => nativeStr.chars
  | .charsString _ nullTerminatedStr _ => nullTerminatedStr

def right : Call α → List α
  | .strings _ _ rhs | .charsString _ _ rhs | .nativeString _ _ rhs => rhs.chars
  | .stringNative _ _ nativeStr => nativeStr.chars
  | .stringChars _ _ nullTerminatedStr => nullTerminatedStr

end Call

section

variable [LinearOrder α]

def compare (v : View f α) (other : View g α) : Int :=
  compareUnchecked v.chars v.size other.chars other.size

/-- `compare` with a null-terminated string. -/
def compareChars (v : View f α) (nullTerminatedStr : List α) : Int :=
  compareUnchecked v.chars v.size nullTerminatedStr (nullTerminatedStr.length % 2 ^ 16)

/-- What the operators return. -/
def body : Call α → Body α
  | .strings .eq lhs rhs => .value (compare lhs rhs = 0)
  | .strings .ne lhs rhs => .negated (.strings .eq lhs rhs)
  | .strings .lt lhs rhs => .value (compare lhs rhs < 0)
  | .strings .gt lhs rhs => .value (compare lhs rhs > 0)
  | .strings .le lhs rhs => .negated (.strings .gt lhs rhs)
  | .strings .ge lhs rhs => .negated (.strings .gt rhs lhs)
  | .stringChars .eq lhs str => .value (compareChars lhs str = 0)
  | .charsString .eq str rhs => .value (compareChars rhs str = 0)
  | .stringChars .ne lhs str => .negated (.stringChars .eq lhs str)
  | .charsString .ne str rhs => .negated (.charsString .eq str rhs)
  | .stringChars .lt lhs str => .value (compareChars lhs str < 0)
  | .charsString .lt str rhs => .value (compareChars rhs str > 0)
  | .stringChars .gt lhs str => .value (compareChars lhs str > 0)
  | .charsString .gt str rhs => .value (compareChars rhs str < 0)
  | .stringChars .le lhs str => .negated (.stringChars .gt lhs str)
  | .charsString .le str rhs => .negated (.charsString .gt str rhs)
  | .stringChars .ge lhs str => .negated (.stringChars .lt lhs str)
  | .charsString .ge str rhs => .negated (.charsString .lt str rhs)
  -- `lhs == native_str` in the body is the same overload again
  | .stringNative .eq lhs str => .same (.stringNative .eq lhs str)
  | .nativeString .eq str rhs => .same (.nativeString .eq str rhs)
  | .stringNative .ne lhs str => .negated (.stringNative .eq lhs str)
  | .nativeString .ne str rhs => .negated (.nativeString .eq str rhs)
  | .stringNative .lt lhs str => .value (compare lhs str < 0)
  | .nativeString .lt str rhs => .value (compare rhs str > 0)
  | .stringNative .gt lhs str => .value (compare lhs str > 0)
  | .nativeString .gt str rhs => .value (compare rhs str < 0)
  | .stringNative .le lhs str => .negated (.stringNative .gt lhs str)
  | .nativeString .le str rhs => .negated (.nativeString .gt str rhs)
  | .stringNative .ge lhs str => .negated (.stringNative .lt lhs str)
  | .nativeString .ge str rhs => .negated (.nativeString .lt str rhs)

/-- One call: the overload that is called, and whether its result is negated. -/
@[simp] def evaluate : Call α × Bool → Pass (Call α × Bool) Bool
  | (call, flip) =>
    match body call with
    | .value b => .leave (b ^^ flip)
    | .same call => .again (call, flip)
    | .negated call => .again (call, !flip)

def Returns (call : Call α) (b : Bool) : Prop := Ends evaluate (call, false) b

end

/-- The part of a null-terminated string that `compare` sees tells the two apart, or the operator
does not ask. -/
def Unharmed [LinearOrder α] (op : Operator) (s str : List α) : Prop :=
  let seen := str.take (str.length % 2 ^ 16)
  str.length < 2 ^ 16 ∨ ¬ (seen <+: s ∧ s < str) ∨
    if s = seen then op = .le ∨ op = .gt else op = .eq ∨ op = .ne

def Sound [LinearOrder α] : Call α → Prop
  | .strings _ _ _ => True
  | .stringChars op lhs str => Unharmed op lhs.chars str
  | .charsString op str rhs => Unharmed op.swap rhs.chars str
  | .stringNative op _ _ | .nativeString op _ _ => op ≠ .eq ∧ op ≠ .ne

variable [LinearOrder α]

theorem compare_eq (v : View f α) (w : View g α) : compare v w = sign v.chars w.chars := by
  have heq := compareUnchecked_eq_sign (Nat.le_refl v.chars.length) (Nat.le_refl w.chars.length)
  rw [List.take_length, List.take_length] at heq
  exact heq

theorem compareChars_eq (v : View f α) (str : List α) :
    compareChars v str = sign v.chars (str.take (str.length % 2 ^ 16)) := by
  have heq := compareUnchecked_eq_sign (Nat.le_refl v.chars.length) (Nat.mod_le str.length (2 ^ 16))
  rw [List.take_length] at heq
  exact heq

theorem test_sign (op : Operator) (a b : List α) : op.test (sign a b) = true ↔ op.Relates a b := by
  cases op with
  | eq | ne => simp [Operator.test, Operator.Relates, sign_eq_zero]
  | lt => simp [Operator.test, Operator.Relates, sign_lt_zero]
  | gt => simp [Operator.test, Operator.Relates, zero_lt_sign]
  | le =>
    rw [Operator.test, decide_eq_true_iff, ← Int.not_lt, zero_lt_sign, not_lt]
    exact Iff.rfl
  | ge =>
    rw [Operator.test, decide_eq_true_iff, ← Int.not_lt, sign_lt_zero, not_lt]
    exact Iff.rfl

theorem swap_swap (op : Operator) : op.swap.swap = op := by cases op <;> rfl

theorem relates_swap (op : Operator) (a b : List α) : op.swap.Relates a b ↔ op.Relates b a := by
  cases op with
  | eq => exact eq_comm
  | ne => exact ne_comm
  | lt | gt | le | ge => exact Iff.rfl

def Answers (call : Call α) (p : Prop) : Prop := ∀ b, Returns call b ↔ (b = true ↔ p)

section

variable {call : Call α} {p : Prop}

theorem answers_of_value [Decidable p] (h : body call = .value (decide p)) : Answers call p := by
  intro b
  have hpass : evaluate (call, false) = .leave (decide p) := by simp [h]
  rw [Returns, ends_leave_iff hpass, Bool.eq_iff_iff, decide_eq_true_iff]

theorem answers_of_negated [Decidable p] (h : body call = .negated callee)
    (h' : body callee = .value (decide p)) : Answers call (¬ p) := by
  intro b
  have hpass : evaluate (call, false) = .again (callee, true) := by simp [h]
  have hnext : evaluate (callee, true) = .leave (decide (¬ p)) := by simp [h']
  rw [Returns, ends_again_iff hpass, ends_leave_iff hnext, Bool.eq_iff_iff, decide_eq_true_iff]

theorem not_ends_of_same {flip b : Bool} (h : body call = .same call) : ¬ Ends evaluate (call, flip) b := by
  apply not_ends_of_again (I := fun s => s = (call, flip)) _ rfl
  rintro s rfl
  exact ⟨_, by simp [h], rfl⟩

theorem not_returns_of_negated (h : body call = .negated callee) (h' : body callee = .same callee) :
    ¬ Returns call b := by
  have hpass : evaluate (call, false) = .again (callee, true) := by simp [h]
  rw [Returns, ends_again_iff hpass]
  exact not_ends_of_same h'

end

section

variable (mk : Operator → Call α) {t : List α}

theorem answers_equality (hx : x = sign s t) (heq : body (mk .eq) = .value (x = 0))
    (hne : body (mk .ne) = .negated (mk .eq)) :
    Answers (mk .eq) (Operator.eq.Relates s t) ∧ Answers (mk .ne) (Operator.ne.Relates s t) := by
  subst hx
  have hzero : sign s t = 0 ↔ s = t := sign_eq_zero
  constructor
  · exact fun b => (answers_of_value heq b).trans (by rw [hzero, Operator.Relates])
  · exact fun b => (answers_of_negated hne heq b).trans (by rw [hzero, Operator.Relates])

theorem answers_order (hx : x = sign s t) (hlt : body (mk .lt) = .value (x < 0))
    (hgt : body (mk .gt) = .value (x > 0)) (hle : body (mk .le) = .negated (mk .gt))
    (hge : body (mk .ge) = .negated (mk .lt)) (hop : op ≠ .eq ∧ op ≠ .ne) :
    Answers (mk op) (op.Relates s t) := by
  subst hx
  intro b
  cases op with
  | eq => exact absurd rfl hop.1
  | ne => exact absurd rfl hop.2
  | lt => rw [answers_of_value hlt, sign_lt_zero, Operator.Relates]
  | gt => rw [answers_of_value hgt, gt_iff_lt, zero_lt_sign, Operator.Relates]
  | le => rw [answers_of_negated hle hgt, gt_iff_lt, zero_lt_sign, not_lt, Operator.Relates]
  | ge => rw [answers_of_negated hge hlt, sign_lt_zero, not_lt, Operator.Relates]

theorem answers_all (hx : x = sign s t) (heq : body (mk .eq) = .value (x = 0))
    (hne : body (mk .ne) = .negated (mk .eq)) (hlt : body (mk .lt) = .value (x < 0))
    (hgt : body (mk .gt) = .value (x > 0)) (hle : body (mk .le) = .negated (mk .gt))
    (hge : body (mk .ge) = .negated (mk .lt)) (op : Operator) : Answers (mk op) (op.Relates s t) := by
  cases op with
  | eq => exact (answers_equality mk hx heq hne).1
  | ne => exact (answers_equality mk hx heq hne).2
  | lt | gt | le | ge => exact answers_order mk hx hlt hgt hle hge ⟨nofun, nofun⟩

end

theorem answers_strings (op : Operator) (v : View f α) (w : View g α) :
    Answers (.strings op v w) (op.Relates v.chars w.chars) := by
  intro b
  cases op with
  | eq => rw [answers_of_value rfl, compare_eq, sign_eq_zero, Operator.Relates]
  | ne => rw [answers_of_negated rfl rfl, compare_eq, sign_eq_zero, Operator.Relates]
  | lt => rw [answers_of_value rfl, compare_eq, sign_lt_zero, Operator.Relates]
  | gt => rw [answers_of_value rfl, compare_eq, gt_iff_lt, zero_lt_sign, Operator.Relates]
  -- both of these negate `>`, the second with the operands in the other order
  | le | ge => rw [answers_of_negated rfl rfl, compare_eq, gt_iff_lt, zero_lt_sign, not_lt, Operator.Relates]

theorem answers_stringChars (op : Operator) (v : View f α) (str : List α) :
    Answers (.stringChars op v str) (op.Relates v.chars (str.take (str.length % 2 ^ 16))) :=
  answers_all (fun op => .stringChars op v str) (compareChars_eq v str) rfl rfl rfl rfl rfl rfl op

theorem answers_charsString (op : Operator) (str : List α) (v : View f α) :
    Answers (.charsString op str v) (op.swap.Relates v.chars (str.take (str.length % 2 ^ 16))) := by
  have hall := answers_all (fun op => .charsString op.swap str v) (compareChars_eq v str)
    rfl rfl rfl rfl rfl rfl op.swap
  rwa [swap_swap] at hall

theorem answers_stringNative (hop : op ≠ .eq ∧ op ≠ .ne) (v str : View f α) :
    Answers (.stringNative op v str) (op.Relates v.chars str.chars) :=
  answers_order (fun op => .stringNative op v str) (compare_eq v str) rfl rfl rfl rfl hop

theorem answers_nativeString (hop : op ≠ .eq ∧ op ≠ .ne) (str v : View f α) :
    Answers (.nativeString op str v) (op.Relates str.chars v.chars) := by
  have hop' : op.swap ≠ .eq ∧ op.swap ≠ .ne := by
    revert hop
    cases op <;> decide
  have horder := answers_order (fun op => .nativeString op.swap str v) (compare_eq v str)
    rfl rfl rfl rfl hop'
  rw [swap_swap] at horder
  exact fun b => (horder b).trans (iff_congr Iff.rfl (relates_swap op _ _))

theorem relates_seen_iff (op : Operator) (hs : s.length < 2 ^ 16) (str : List α) :
    (op.Relates s (str.take (str.length % 2 ^ 16)) ↔ op.Relates s str) ↔ Unharmed op s str := by
  by_cases hshort : str.length < 2 ^ 16
  · rw [Nat.mod_eq_of_lt hshort, List.take_length]
    exact iff_of_true Iff.rfl (.inl hshort)
  obtain ⟨seen, hseen⟩ : ∃ seen, seen = str.take (str.length % 2 ^ 16) := ⟨_, rfl⟩
  have hparts : str = seen ++ str.drop (str.length % 2 ^ 16) := by rw [hseen, List.take_append_drop]
  simp only [Unharmed, ← hseen, hshort, false_or]
  by_cases hbegins : seen <+: s
  · have hne : s ≠ str := fun heq => hshort (heq ▸ hs)
    by_cases hless : s < str
    · simp only [hbegins, hless, true_and, not_true, false_or]
      rw [← test_sign, ← test_sign, sign_of_lt hless, sign_of_prefix hbegins]
      by_cases heq : s = seen
      · simp only [heq, if_true]
        cases op <;> decide
      · simp only [heq, if_false]
        cases op <;> decide
    · have hgreater : str < s := lt_of_le_of_ne (not_lt.mp hless) hne.symm
      have hlonger : s ≠ seen := by
        rintro rfl
        apply hless
        rw [hparts]
        apply lt_append
        simp only [ne_eq, List.drop_eq_nil_iff]
        omega
      rw [← test_sign, ← test_sign, sign_of_gt hgreater, sign_of_prefix hbegins, if_neg hlonger]
      exact iff_of_true Iff.rfl (.inl fun hand => hless hand.2)
  · have hsame : sign s str = sign s seen := by
      rw [hparts]
      exact sign_append_of_not_prefix hbegins
    rw [← test_sign, ← test_sign, hsame]
    exact iff_of_true Iff.rfl (.inl fun hand => hbegins hand.1)

def Right (call : Call α) : Prop :=
  ∃ b, Returns call b ∧ (b = true ↔ call.operator.Relates call.left call.right)

theorem right_iff_of_answers {call : Call α} (h : Answers call p) :
    Right call ↔ (p ↔ call.operator.Relates call.left call.right) := by
  classical
  constructor
  · rintro ⟨b, hreturns, hb⟩
    exact ((h b).mp hreturns).symm.trans hb
  · intro hiff
    exact ⟨decide p, (h _).mpr decide_eq_true_iff, decide_eq_true_iff.trans hiff⟩

theorem not_right_of_same (mk : Operator → Call α) (heq : body (mk .eq) = .same (mk .eq))
    (hne : body (mk .ne) = .negated (mk .eq)) (hop : ¬ (op ≠ .eq ∧ op ≠ .ne)) : ¬ Right (mk op) := by
  rintro ⟨b, hreturns, -⟩
  cases op with
  | eq => exact not_ends_of_same heq hreturns
  | ne => exact not_returns_of_negated hne heq hreturns
  | lt | gt | le | ge => exact hop ⟨nofun, nofun⟩

/-- The operators between strings are right. Those that compare with a native string for equality
call themselves for ever, and those with a null-terminated string of 2^16 characters and more see
only its first part. -/
theorem right_iff_sound (call : Call α) : Right call ↔ Sound call := by
  cases call with
  | strings op v w => exact (right_iff_of_answers (answers_strings op v w)).trans (iff_of_true Iff.rfl trivial)
  | stringChars op v str =>
    exact (right_iff_of_answers (answers_stringChars op v str)).trans (relates_seen_iff op (size_lt v) str)
  | charsString op str v =>
    refine (right_iff_of_answers (answers_charsString op str v)).trans ?_
    exact (iff_congr Iff.rfl (relates_swap op v.chars str).symm).trans (relates_seen_iff op.swap (size_lt v) str)
  | stringNative op v str =>
    by_cases hop : op ≠ .eq ∧ op ≠ .ne
    · exact (right_iff_of_answers (answers_stringNative hop v str)).trans (iff_of_true Iff.rfl hop)
    · exact iff_of_false (not_right_of_same (fun op => .stringNative op v str) rfl rfl hop) hop
  | nativeString op str v =>
    by_cases hop : op ≠ .eq ∧ op ≠ .ne
    · exact (right_iff_of_answers (answers_nativeString hop str v)).trans (iff_of_true Iff.rfl hop)
    · exact iff_of_false (not_right_of_same (fun op => .nativeString op str v) rfl rfl hop) hop

/-- `"a" == "a"` does not end if one of them is a native string. -/
theorem native_equality_hangs : Operator.eq.Relates [97] [97] ∧
      ∀ b, ¬ Returns (.stringNative .eq (⟨[97], by decide⟩ : View ansi Nat) ⟨[97], by decide⟩) b :=
  ⟨rfl, fun _ => not_ends_of_same rfl⟩

end Ktl.StringRelations
