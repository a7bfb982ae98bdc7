import Mathlib.Data.Int.GCD
import Ktl.Cells
import Ktl.Loops

/-!
`reverse` and `rotate` for random access, bidirectional and forward iterators.
-/
namespace Ktl.Rotation

open Cells Loops Option

inductive Category where
  | forward
  | bidirectional
  | randomAccess
  deriving DecidableEq

def advance (cat : Category) (it offset : Int) : Int :=
  match cat with
  | .forward => it + max 0 offset
  | .bidirectional | .randomAccess => it + offset

def next (cat : Category) (it : Int) : Int := advance cat it 1

def prev (cat : Category) (it : Int) : Int := advance cat it (-1)

theorem next_eq (cat : Category) (it : Int) : next cat it = it + 1 := by cases cat <;> rfl

section

variable {α : Type}

structure Range (α : Type) where
  cells : Int → Option α
  first : Int
  last : Int

/-- The loop of `reverse_impl`, random access. -/
def reverseRandomPass (s : Range α) : Pass (Range α) (Option (Int → Option α)) :=
  if s.first < s.last then
    match swap s.cells s.first s.last with
    | some c => .again ⟨c, next .randomAccess s.first, prev .randomAccess s.last⟩
    | none => .leave none
  else .leave (some s.cells)

/-- The loop of `reverse_impl`, bidirectional. -/
def reverseBidirectionalPass (s : Range α) : Pass (Range α) (Option (Int → Option α)) :=
  if s.first = s.last then .leave (some s.cells)
  else if s.first = prev .bidirectional s.last then .leave (some s.cells)
  else
    match swap s.cells s.first s.last with
    | some c => .again ⟨c, next .bidirectional s.first, s.last⟩
    | none => .leave none

/-- `reverse`; no loop makes more passes than the range is long. -/
def reverse (cat : Category) (c : Int → Option α) (first last : Int) : Option (Int → Option α) :=
  match cat with
  | .randomAccess =>
    if first = last then some c
    else (run reverseRandomPass ((last - first).toNat + 1) ⟨c, first, prev .randomAccess last⟩).join
  | .bidirectional => (run reverseBidirectionalPass ((last - first).toNat + 1) ⟨c, first, last⟩).join
  | .forward => none

/-- The loop of `rotate_left_impl`, bidirectional. -/
def rotateBidirectionalPass (newFirst : Int) (s : Range α) : Pass (Range α) (Option (Range α)) :=
  if s.first ≠ newFirst ∧ s.last ≠ newFirst then
    match swap s.cells s.first (prev .bidirectional s.last) with
    | some c => .again ⟨c, next .bidirectional s.first, prev .bidirectional s.last⟩
    | none => .leave none
  else .leave (some s)

structure Cycle (α : Type) where
  cells : Int → Option α
  first : Int
  newFirst : Int
  current : Int

/-- The loop of `rotate_left_impl`, forward. -/
def rotateForwardPass (last : Int) (s : Cycle α) : Pass (Cycle α) (Option ((Int → Option α) × Int)) :=
  match swap s.cells s.first s.current with
  | none => .leave none
  | some c =>
    let first := next .forward s.first
    let current := next .forward s.current
    let newFirst := if first = s.newFirst then current else s.newFirst
    if current ≠ last then .again ⟨c, first, newFirst, current⟩
    else if newFirst ≠ last then .again ⟨c, first, newFirst, newFirst⟩
    else .leave (some (c, first))

def rotateLeftImpl (cat : Category) (c : Int → Option α) (first newFirst last : Int) :
    Option ((Int → Option α) × Int) :=
  match cat with
  | .randomAccess =>
    (reverse cat c first newFirst).bind fun c =>
    (reverse cat c newFirst last).bind fun c =>
    (reverse cat c first last).map fun c => (c, first + (last - newFirst))
  | .bidirectional =>
    (reverse cat c first newFirst).bind fun c =>
    (reverse cat c newFirst last).bind fun c =>
    (run (rotateBidirectionalPass newFirst) ((last - first).toNat + 1) ⟨c, first, last⟩).join.bind fun s =>
    (reverse cat s.cells s.first s.last).map fun c => (c, s.first)
  | .forward => (run (rotateForwardPass last) ((last - first).toNat + 1) ⟨c, first, newFirst, newFirst⟩).join

/-- `rotate`, `rotate_left`: the objects and the iterator that is returned. -/
def rotate (cat : Category) (c : Int → Option α) (first newFirst last : Int) : Option ((Int → Option α) × Int) :=
  if first = newFirst then some (c, newFirst)
  else if newFirst = last then some (c, first)
  else rotateLeftImpl cat c first newFirst last

end

variable {α : Type} {c c' : Int → Option α} {xs : List α}

theorem run_reverseRandomPass (n : Nat) (h : Full c a (b + 1)) (hn : b - a + 1 ≤ 2 * n) :
    run reverseRandomPass (n + 1) ⟨c, a, b⟩ = some (some (mirrored c a (b + 1))) := by
  induction n generalizing c a b with
  | zero =>
    have hpass : reverseRandomPass ⟨c, a, b⟩ = .leave (some c) := if_neg (by simp only; omega)
    rw [run_succ_leave 0 hpass, mirrored_of_le (by omega)]
  | succ n ih =>
    by_cases hlt : a < b
    · have hfirst := h a (by omega) (by omega)
      have hlast := h b (by omega) (by omega)
      have hpass : reverseRandomPass ⟨c, a, b⟩ = .again ⟨exchanged c a b, a + 1, b - 1⟩ := by
        simp only [reverseRandomPass, if_pos hlt, swap_eq hfirst hlast]
        rfl
      have hinner : Full (exchanged c a b) (a + 1) (b - 1 + 1) :=
        (h.exchanged hfirst hlast).mono (by omega) (by omega)
      rw [run_succ_again _ hpass, ih hinner (by omega), Int.sub_add_cancel, mirrored_exchanged hlt]
    · have hpass : reverseRandomPass ⟨c, a, b⟩ = .leave (some c) := if_neg hlt
      rw [run_succ_leave _ hpass, mirrored_of_le (by omega)]

theorem reverse_randomAccess (h : Full c a b) (hab : a ≤ b) : reverse .randomAccess c a b = some (mirrored c a b) := by
  rw [reverse]
  split
  · rw [mirrored_of_le (by omega)]
  · have hend : prev .randomAccess b + 1 = b := Int.sub_add_cancel b 1
    have hrun := run_reverseRandomPass (c := c) (a := a) (b := prev .randomAccess b) (b - a).toNat
      (by rwa [hend]) (by omega)
    rw [hrun, hend]
    rfl

theorem rotateLeftImpl_randomAccess (h : Full c a b) (ham : a ≤ m) (hmb : m ≤ b) :
    rotateLeftImpl .randomAccess c a m b = some (rotated c a m b, a + (b - m)) := by
  have h₁ := h.mirrored (Int.le_refl a) hmb
  have h₂ := h₁.mirrored ham (Int.le_refl b)
  simp [rotateLeftImpl, reverse_randomAccess (h.mono (Int.le_refl a) hmb) ham,
    reverse_randomAccess (h₁.mono ham (Int.le_refl b)) hmb, reverse_randomAccess h₂ (Int.le_trans ham hmb),
    mirrored_mirrored_mirrored ham hmb]

/-- The loop exchanges every object but the last with the one behind the range. -/
def pulled (c : Int → Option α) (a b : Int) : Int → Option α := fun k =>
  if k = a then c b
  else if a < k ∧ k < b - 1 then c (k - 1)
  else if k = b then c (b - 2)
  else c k

theorem pulled_at (k : Int) : pulled c a b k =
    c (if k = a then b else if a < k ∧ k < b - 1 then k - 1 else if k = b then b - 2 else k) := by
  simp [pulled, apply_ite c]

theorem pulled_two : pulled c a (a + 2) = exchanged c a (a + 2) := by
  funext k
  rw [pulled_at, exchanged_at]
  congr 1
  omega

theorem pulled_exchanged (h : a + 2 < b) : pulled (exchanged c a b) (a + 1) b = pulled c a b := by
  funext k
  rw [pulled_at, exchanged_at, pulled_at]
  congr 1
  omega

theorem reverseBidirectionalPass_again (h : Full c a (b + 1)) (hab : a + 2 ≤ b) :
    reverseBidirectionalPass ⟨c, a, b⟩ = .again ⟨exchanged c a b, a + 1, b⟩ := by
  have hprev : prev .bidirectional b = b - 1 := rfl
  simp only [reverseBidirectionalPass, hprev]
  rw [if_neg (by omega), if_neg (by omega), swap_eq (h a (by omega) (by omega)) (h b (by omega) (by omega))]
  rfl

theorem reverseBidirectionalPass_leave (hab : a ≤ b) (hb : b ≤ a + 1) :
    reverseBidirectionalPass ⟨c, a, b⟩ = .leave (some c) := by
  have hprev : prev .bidirectional b = b - 1 := rfl
  simp only [reverseBidirectionalPass, hprev]
  split
  · rfl
  · rw [if_pos (by omega)]

theorem run_reverseBidirectionalPass (n : Nat) (h : Full c a (b + 1)) (hn : b = a + 2 + n) :
    run reverseBidirectionalPass (n + 2) ⟨c, a, b⟩ = some (some (pulled c a b)) := by
  induction n generalizing c a with
  | zero =>
    rw [run_succ_again _ (reverseBidirectionalPass_again h (by omega)),
      run_succ_leave 0 (reverseBidirectionalPass_leave (by omega) (by omega))]
    obtain rfl : b = a + 2 := by omega
    rw [pulled_two]
  | succ n ih =>
    have hinner : Full (exchanged c a b) (a + 1) (b + 1) :=
      (h.exchanged (h a (by omega) (by omega)) (h b (by omega) (by omega))).mono (by omega) (Int.le_refl _)
    rw [run_succ_again _ (reverseBidirectionalPass_again h (by omega)), ih hinner (by omega),
      pulled_exchanged (by omega)]

/-- What the reversal of bidirectional iterators does if there is an object behind
the range. -/
def jumbled (c : Int → Option α) (a b : Int) : Int → Option α := if a + 2 ≤ b then pulled c a b else c

/-- Where the objects come from. -/
def jumble (a b k : Int) : Int :=
  if a + 2 ≤ b then if k = a then b else if a < k ∧ k < b - 1 then k - 1 else if k = b then b - 2 else k else k

theorem jumbled_at (k : Int) : jumbled c a b k = c (jumble a b k) := by
  rw [jumbled, jumble]
  split
  · exact pulled_at k
  · rfl

theorem reverse_short (hab : a ≤ b) (hb : b ≤ a + 1) : reverse .bidirectional c a b = some c := by
  rw [reverse, run_succ_leave _ (reverseBidirectionalPass_leave hab hb)]
  rfl

theorem reverse_bidirectional (h : Full c a (b + 1)) (hab : a ≤ b) :
    reverse .bidirectional c a b = some (jumbled c a b) := by
  rw [jumbled]
  split
  · obtain ⟨n, hn⟩ : ∃ n : Nat, b = a + 2 + n := ⟨(b - a - 2).toNat, by omega⟩
    rw [reverse, run_mono (run_reverseBidirectionalPass n h hn) (by omega)]
    rfl
  · exact reverse_short hab (by omega)

theorem reverse_runs_out (hb : c b = none) (hab : a + 2 ≤ b) : reverse .bidirectional c a b = none := by
  have hpass : reverseBidirectionalPass ⟨c, a, b⟩ = .leave none := by
    have hprev : prev .bidirectional b = b - 1 := rfl
    simp only [reverseBidirectionalPass, hprev]
    rw [if_neg (by omega), if_neg (by omega), swap_eq_none hb]
  rw [reverse, run_succ_leave _ hpass]
  rfl

theorem jumbled_behind (hk : b < k) : jumbled c a b k = c k := by
  rw [jumbled_at, jumble]
  congr 1
  omega

theorem full_jumbled (h : Full c a (b + 1)) : Full (jumbled c a b) a (b + 1) := by
  intro k hk hk'
  rw [jumbled_at, jumble]
  exact h _ (by omega) (by omega)

/-- What the rotation of bidirectional iterators makes of the row, with one object in the second
part. -/
def turned (c : Int → Option α) (a m : Int) : Int → Option α := jumbled (exchanged (jumbled c a m) a m) (a + 1) m

theorem rotateLeftImpl_runs_out (h : Full c a b) (hb : c b = none) (ham : a ≤ m) (hmb : m + 2 ≤ b) :
    rotateLeftImpl .bidirectional c a m b = none := by
  have hfirst := reverse_bidirectional (h.mono (Int.le_refl a) (by omega)) ham
  have hbehind : jumbled c a m b = none := by rwa [jumbled_behind (by omega)]
  simp [rotateLeftImpl, hfirst, reverse_runs_out hbehind hmb]

theorem rotateLeftImpl_bidirectional (h : Full c a (m + 1)) (ham : a < m) :
    rotateLeftImpl .bidirectional c a m (m + 1) = some (turned c a m, a + 1) := by
  have hle : a ≤ m := Int.le_of_lt ham
  have hfull := full_jumbled h
  have hfirst := hfull a (by omega) (by omega)
  have hlast := hfull m (by omega) (by omega)
  have hprev : prev .bidirectional (m + 1) = m := Int.add_sub_cancel m 1
  have hpass : rotateBidirectionalPass m ⟨jumbled c a m, a, m + 1⟩ =
      .again ⟨exchanged (jumbled c a m) a m, a + 1, m⟩ := by
    simp only [rotateBidirectionalPass, hprev, swap_eq hfirst hlast]
    rw [if_pos (by omega)]
    rfl
  have hstop : rotateBidirectionalPass m ⟨exchanged (jumbled c a m) a m, a + 1, m⟩ =
      .leave (some ⟨exchanged (jumbled c a m) a m, a + 1, m⟩) := by
    simp only [rotateBidirectionalPass]
    rw [if_neg (by omega)]
  have hrun := run_mono ((run_succ_again 1 hpass).trans (run_succ_leave 0 hstop))
    (show 2 ≤ (m + 1 - a).toNat + 1 by omega)
  have hrest : Full (exchanged (jumbled c a m) a m) (a + 1) (m + 1) :=
    (hfull.exchanged hfirst hlast).mono (by omega) (Int.le_refl _)
  simp [rotateLeftImpl, reverse_bidirectional h hle,
    reverse_short (Int.le_of_lt (Int.lt_succ m)) (Int.le_refl _), hrun,
    reverse_bidirectional hrest (show a + 1 ≤ m from ham), turned]

def turn (a m k : Int) : Int :=
  jumble a m (if jumble (a + 1) m k = a then m else if jumble (a + 1) m k = m then a else jumble (a + 1) m k)

theorem turned_at (k : Int) : turned c a m k = c (turn a m k) := by
  rw [turned, jumbled_at, exchanged_at, jumbled_at, turn]

theorem rotated_last (k : Int) : rotated c a m (m + 1) k =
    c (if k = a then m else if a < k ∧ k ≤ m then k - 1 else k) := by
  rw [rotated_at]
  congr 1
  omega

theorem eq_first_of_steps (hstep : ∀ k, a ≤ k → k < b → c k = c (k + 1)) (k : Int) (hk : a ≤ k)
    (hk' : k ≤ b) : c k = c a := by
  induction k, hk using Int.leInduction with
  | base => rfl
  | succ k hk ih =>
    rw [← hstep k hk (by omega)]
    exact ih (by omega)

theorem equal_of_turned (ham : a + 2 ≤ m) (h : turned c a m = rotated c a m (m + 1)) :
    ∀ k, a ≤ k → k ≤ m → c k = c a := by
  have hat : ∀ k i j, turn a m k = i → (if k = a then m else if a < k ∧ k ≤ m then k - 1 else k) = j → c i = c j := by
    rintro k i j rfl rfl
    exact (turned_at k).symm.trans ((congrFun h k).trans (rotated_last k))
  simp only [turn, jumble] at hat
  have hfirst : c (m - 2) = c m := hat a _ _ (by omega) (by omega)
  have hlast : c (m - 1) = c (m - 2) := hat (m - 1) _ _ (by omega) (by omega)
  have hsecond : c m = c a := by
    by_cases hlong : a + 3 ≤ m
    · exact hat (a + 1) _ _ (by omega) (by omega)
    · obtain rfl : m = a + 2 := by omega
      rw [← hfirst, Int.add_sub_cancel]
  -- the inner objects are shifted by two places instead of one
  have hinner : ∀ k, a ≤ k → k < m - 3 → c k = c (k + 1) :=
    fun k hk hk' => hat (k + 2) _ _ (by omega) (by omega)
  intro k hk hk'
  by_cases hk₁ : k = m
  · rw [hk₁, hsecond]
  · by_cases hk₂ : k = m - 1
    · rw [hk₂, hlast, hfirst, hsecond]
    · by_cases hk₃ : k = m - 2
      · rw [hk₃, hfirst, hsecond]
      · exact eq_first_of_steps hinner k hk (by omega)

theorem turned_eq_rotated_iff (ham : a < m) :
    turned c a m = rotated c a m (m + 1) ↔ m = a + 1 ∨ ∀ k, a ≤ k → k ≤ m → c k = c a := by
  constructor
  · intro h
    by_cases hone : m = a + 1
    · exact .inl hone
    · exact .inr (equal_of_turned (by omega) h)
  · intro h
    funext k
    rw [turned_at, rotated_last, turn, jumble, jumble]
    rcases h with rfl | h
    · congr 1
      omega
    · by_cases hin : a ≤ k ∧ k ≤ m
      · simp (disch := omega) only [h]
      · congr 1
        omega

section

/-- The row when the loop has ended: the rest of the second part, what was put there, the first
part. -/
def pending (s : Cycle α) (last : Int) : Int → Option α := fun k =>
  if s.first ≤ k ∧ k < last then
    if k - s.first < last - s.current then s.cells (s.current + (k - s.first))
    else if k - s.first < last - s.newFirst then s.cells (s.newFirst + (k - s.first - (last - s.current)))
    else s.cells (s.first + (k - s.first - (last - s.newFirst)))
  else s.cells k

theorem pending_at (k : Int) : pending ⟨c, first, newFirst, current⟩ last k = c (
    if first ≤ k ∧ k < last then
      if k - first < last - current then current + (k - first)
      else if k - first < last - newFirst then newFirst + (k - first - (last - current))
      else first + (k - first - (last - newFirst))
    else k) := by
  simp [pending, apply_ite c]

theorem pending_start (h : first ≤ newFirst) :
    pending ⟨c, first, newFirst, newFirst⟩ last = rotated c first newFirst last := by
  funext k
  rw [pending_at, rotated_at]
  congr 1
  omega

theorem pending_exchanged (hfirst : first < newFirst) (hcurrent : newFirst ≤ current) (hlast : current < last) :
    pending ⟨exchanged c first current, first + 1, newFirst, current + 1⟩ last =
      pending ⟨c, first, newFirst, current⟩ last := by
  funext k
  rw [pending_at, pending_at, exchanged_at]
  congr 1
  omega

theorem pending_first : pending ⟨c, first, first, current⟩ last = pending ⟨c, first, current, current⟩ last := by
  funext k
  rw [pending_at, pending_at]
  congr 1
  omega

theorem pending_last : pending ⟨c, first, newFirst, last⟩ last = pending ⟨c, first, newFirst, newFirst⟩ last := by
  funext k
  rw [pending_at, pending_at]
  congr 1
  omega

theorem pending_done : pending ⟨c, first, last, last⟩ last = c := by
  funext k
  rw [pending_at]
  congr 1
  omega

/-- The row that the loop makes and the greatest common divisor of its two parts. -/
structure Cycles (target : Int → Option α) (last : Int) (g : Nat) (s : Cycle α) : Prop where
  first_lt : s.first < s.newFirst
  newFirst_le : s.newFirst ≤ s.current
  current_lt : s.current < last
  full : Full s.cells s.first last
  makes : pending s last = target
  gcd : Int.gcd (s.current - s.first) (last - s.newFirst) = g

theorem Cycles.step (h : Cycles target last g s)
    (hnew : newFirst = if s.first + 1 = s.newFirst then s.current + 1 else s.newFirst) :
    pending ⟨exchanged s.cells s.first s.current, s.first + 1, newFirst, s.current + 1⟩ last = target ∧
      Int.gcd (s.current - s.first) (last - newFirst) = g := by
  obtain ⟨hfirst, hcurrent, hlast, _, hmakes, hgcd⟩ := h
  have hstep := (pending_exchanged (c := s.cells) hfirst hcurrent hlast).trans hmakes
  by_cases hused : s.first + 1 = s.newFirst
  · rw [if_pos hused] at hnew
    rw [← hused, pending_first, ← hnew] at hstep
    have hlen : last - s.newFirst = (s.current - s.first) + (last - newFirst) := by omega
    rw [hlen, Int.gcd_self_add_right] at hgcd
    exact ⟨hnew ▸ hstep, hgcd⟩
  · rw [if_neg hused] at hnew
    rw [hnew]
    exact ⟨hstep, hgcd⟩

theorem rotateForwardPass_eq (hnew : newFirst = if s.first + 1 = s.newFirst then s.current + 1 else s.newFirst)
    (hone : (s.cells s.first).isSome) (htwo : (s.cells s.current).isSome) :
    rotateForwardPass last s =
      if s.current + 1 ≠ last then
        .again ⟨exchanged s.cells s.first s.current, s.first + 1, newFirst, s.current + 1⟩
      else if newFirst ≠ last then
        .again ⟨exchanged s.cells s.first s.current, s.first + 1, newFirst, newFirst⟩
      else .leave (some (exchanged s.cells s.first s.current, s.first + 1)) := by
  simp [rotateForwardPass, swap_eq hone htwo, next_eq, ← hnew]

theorem run_rotateForwardPass (n : Nat) (h : Cycles target last g s) (hn : last - s.first ≤ n) :
    run (rotateForwardPass last) n s = some (some (target, last - g)) := by
  induction n generalizing s with
  | zero =>
    have hfirst := h.first_lt
    have hcurrent := h.newFirst_le
    have hlast := h.current_lt
    omega
  | succ n ih =>
    obtain ⟨newFirst, hnew⟩ : ∃ m, m = if s.first + 1 = s.newFirst then s.current + 1 else s.newFirst := ⟨_, rfl⟩
    obtain ⟨hmakes, hgcd⟩ := h.step hnew
    obtain ⟨hfirst, hcurrent, hlast, hfull, _, _⟩ := h
    have hone := hfull s.first (Int.le_refl _) (by omega)
    have htwo := hfull s.current (by omega) hlast
    have hfull' := (hfull.exchanged hone htwo).mono (show s.first ≤ s.first + 1 by omega) (Int.le_refl last)
    have hafter : s.first + 1 < newFirst ∧ newFirst ≤ s.current + 1 := by
      split at hnew <;> omega
    have hpass : rotateForwardPass last s = _ := rotateForwardPass_eq hnew hone htwo
    by_cases hmore : s.current + 1 = last
    · rw [if_neg (not_not_intro hmore)] at hpass
      rw [hmore] at hmakes
      by_cases hend : newFirst = last
      · rw [if_neg (not_not_intro hend)] at hpass
        have hlen : s.current - s.first = last - (s.first + 1) := by omega
        rw [hend, pending_done] at hmakes
        rw [hend, Int.sub_self, Int.gcd_zero_right, hlen] at hgcd
        have hret : s.first + 1 = last - g := by omega
        rw [run_succ_leave _ hpass, hmakes, hret]
      · rw [if_pos hend] at hpass
        have hlen : s.current - s.first = newFirst - (s.first + 1) + (last - newFirst) := by omega
        rw [pending_last] at hmakes
        rw [hlen, Int.gcd_add_self_left] at hgcd
        rw [run_succ_again _ hpass]
        exact ih ⟨hafter.1, Int.le_refl _, by simp only; omega, hfull', hmakes, hgcd⟩ (by simp only; omega)
    · rw [if_pos hmore] at hpass
      have hlen : s.current - s.first = s.current + 1 - (s.first + 1) := by omega
      rw [hlen] at hgcd
      rw [run_succ_again _ hpass]
      exact ih ⟨hafter.1, hafter.2, by simp only; omega, hfull', hmakes, hgcd⟩ (by simp only; omega)

theorem rotateLeftImpl_forward (h : Full c a b) (ham : a < m) (hmb : m < b) :
    rotateLeftImpl .forward c a m b = some (rotated c a m b, b - Int.gcd (m - a) (b - m)) := by
  have hstart : Cycles (rotated c a m b) b (Int.gcd (m - a) (b - m)) ⟨c, a, m, m⟩ :=
    ⟨ham, Int.le_refl m, hmb, h, pending_start (Int.le_of_lt ham), rfl⟩
  rw [rotateLeftImpl, run_rotateForwardPass _ hstart (by simp only; omega)]
  rfl

end

section

/-- The ranges that `rotate` rotates and whose new place of the first element it returns. -/
def Rotates (cat : Category) (xs : List α) (k : Nat) : Prop :=
  match cat with
  | .randomAccess => 0 < k ∨ xs = []
  | .bidirectional => k = xs.length ∨ 0 < k ∧ k + 1 = xs.length ∧ (k = 1 ∨ ∀ x ∈ xs, ∀ y ∈ xs, x = y)
  | .forward => k ∣ xs.length

theorem all_equal_iff (hk : k + 1 = xs.length) :
    (∀ i, 0 ≤ i → i ≤ (k : Int) → ofList xs i = ofList xs 0) ↔ ∀ x ∈ xs, ∀ y ∈ xs, x = y := by
  have hzero : ofList xs 0 = xs[0]? := ofList_nonneg xs 0
  constructor
  · intro h
    have hat : ∀ x ∈ xs, some x = xs[0]? := by
      intro x hx
      obtain ⟨n, hn, rfl⟩ := List.mem_iff_getElem.mp hx
      have hcell := h n (by omega) (by omega)
      rwa [ofList_nonneg, hzero, List.getElem?_eq_getElem hn] at hcell
    intro x hx y hy
    exact some.inj ((hat x hx).trans (hat y hy).symm)
  · intro h i hi hik
    obtain ⟨n, rfl⟩ : ∃ n : Nat, i = n := ⟨i.toNat, by omega⟩
    have hn : n < xs.length := by omega
    have hpos : 0 < xs.length := by omega
    rw [ofList_nonneg, hzero, List.getElem?_eq_getElem hn, List.getElem?_eq_getElem hpos]
    exact congrArg some (h _ (List.getElem_mem hn) _ (List.getElem_mem hpos))

def expected (xs : List α) (k : Nat) : (Int → Option α) × Int :=
  (ofList (xs.drop k ++ xs.take k), (xs.length : Int) - k)

theorem rotateLeftImpl_forward_iff (hpos : 0 < k) (hk : k < xs.length) :
    rotateLeftImpl .forward (ofList xs) 0 k xs.length = some (expected xs k) ↔ k ∣ xs.length := by
  have hlens : Int.gcd ((k : Int) - 0) ((xs.length : Int) - k) = Nat.gcd k (xs.length - k) := by
    rw [Int.sub_zero, ← Int.ofNat_sub hk.le]
    rfl
  have hdvd : k ∣ xs.length ↔ Nat.gcd k (xs.length - k) = k := by
    rw [Nat.gcd_eq_left_iff_dvd, Nat.dvd_sub_self_right]
    omega
  rw [rotateLeftImpl_forward (full_ofList xs) (by omega) (by omega), hlens, expected, ofList_rotated hk.le,
    hdvd, some_inj, Prod.mk.injEq, and_iff_right rfl]
  omega

theorem rotateLeftImpl_bidirectional_iff (hpos : 0 < k) (hk : k < xs.length) :
    rotateLeftImpl .bidirectional (ofList xs) 0 k xs.length = some (expected xs k) ↔
      k + 1 = xs.length ∧ (k = 1 ∨ ∀ x ∈ xs, ∀ y ∈ xs, x = y) := by
  by_cases hlast : k + 1 = xs.length
  · have hlen : (xs.length : Int) = k + 1 := by omega
    have hfull := hlen ▸ full_ofList xs
    have hret : (xs.length : Int) - k = 0 + 1 := by omega
    have hone : (k : Int) = 0 + 1 ↔ k = 1 := by omega
    rw [expected, ofList_rotated hk.le, hret, hlen,
      rotateLeftImpl_bidirectional hfull (by omega), some_inj, Prod.mk.injEq, and_iff_left rfl,
      turned_eq_rotated_iff (by omega), all_equal_iff hlast, hone, and_iff_right hlast]
  · rw [rotateLeftImpl_runs_out (full_ofList xs) (ofList_eq_none (Int.le_refl _)) (by omega) (by omega)]
    exact iff_of_false nofun fun h => hlast h.1

theorem rotate_of_inner (cat : Category) (hpos : 0 < k) (hk : k < xs.length) :
    rotate cat (ofList xs) 0 k xs.length = rotateLeftImpl cat (ofList xs) 0 k xs.length := by
  rw [rotate, if_neg (by omega), if_neg (by omega)]

theorem rotate_eq_expected_iff (cat : Category) (hk : k ≤ xs.length) :
    rotate cat (ofList xs) 0 k xs.length = some (expected xs k) ↔ Rotates cat xs k := by
  rcases Nat.eq_zero_or_pos k with rfl | hpos
  · have hempty : Rotates cat xs 0 ↔ xs.length = 0 := by
      cases cat with
      | randomAccess => simp [Rotates]
      | bidirectional => simp [Rotates, eq_comm]
      | forward => exact Nat.zero_dvd
    have hrow : xs.drop 0 ++ xs.take 0 = xs := by simp
    rw [hempty, rotate, if_pos Int.natCast_zero.symm, expected, hrow, some_inj, Prod.mk.injEq, and_iff_right rfl]
    omega
  · rcases Nat.eq_or_lt_of_le hk with rfl | hlt
    · have hrow : xs.drop xs.length ++ xs.take xs.length = xs := by simp
      have hall : Rotates cat xs xs.length := by
        cases cat with
        | randomAccess => exact .inl hpos
        | bidirectional => exact .inl rfl
        | forward => exact Nat.dvd_refl _
      rw [rotate, if_neg (by omega), if_pos rfl, expected, hrow, Int.sub_self]
      exact iff_of_true rfl hall
    · rw [rotate_of_inner cat hpos hlt]
      cases cat with
      | randomAccess =>
        rw [rotateLeftImpl_randomAccess (full_ofList xs) (by omega) (by omega), expected,
          ofList_rotated hk, Int.zero_add]
        exact iff_of_true rfl (.inl hpos)
      | bidirectional =>
        rw [rotateLeftImpl_bidirectional_iff hpos hlt, Rotates, or_iff_right hlt.ne, and_iff_right hpos]
      | forward => exact rotateLeftImpl_forward_iff hpos hlt

theorem reverse_eq_iff (cat : Category) (hcat : cat ≠ .forward) :
    reverse cat (ofList xs) 0 xs.length = some (ofList xs.reverse) ↔ cat = .randomAccess ∨ xs.length ≤ 1 := by
  cases cat with
  | forward => exact absurd rfl hcat
  | randomAccess =>
    rw [reverse_randomAccess (full_ofList xs) (by omega), ofList_reverse]
    exact iff_of_true rfl (.inl rfl)
  | bidirectional =>
    rw [or_iff_right nofun]
    by_cases hshort : xs.length ≤ 1
    · rw [reverse_short (by omega) (by omega), ofList_reverse, mirrored_of_le (by omega)]
      exact iff_of_true rfl hshort
    · rw [reverse_runs_out (ofList_eq_none (Int.le_refl _)) (by omega)]
      exact iff_of_false nofun hshort

/-- `rotate` and `reverse` do what their names say, on exactly these ranges. -/
theorem rotate_iff_and_reverse_iff (cat : Category) (xs : List α) (k : Nat) (hk : k ≤ xs.length) :
    (rotate cat (ofList xs) 0 k xs.length = some (ofList (xs.drop k ++ xs.take k), (xs.length : Int) - k) ↔
      Rotates cat xs k) ∧
    (cat ≠ .forward → (reverse cat (ofList xs) 0 xs.length = some (ofList xs.reverse) ↔
      cat = .randomAccess ∨ xs.length ≤ 1)) :=
  ⟨rotate_eq_expected_iff cat hk, reverse_eq_iff cat⟩

theorem rotate_iff_and_reverse_iff_three : rotate .forward (ofList [1, 2, 3]) 0 1 3 = some (ofList [2, 3, 1], 2) :=
  (rotate_iff_and_reverse_iff .forward [1, 2, 3] 1 (by decide)).1.mpr (by decide : 1 ∣ 3)

/-- Nothing to rotate: the first iterator is returned. One of three by bidirectional iterators: an
object behind the range is taken. Two of three by forward iterators: the iterator behind the last
exchange is returned. -/
theorem rotate_goes_wrong : (rotate .randomAccess (ofList [1]) 0 0 1).map Prod.snd = some 0 ∧
    (rotate .bidirectional (ofList [1, 2, 3]) 0 1 3).isNone ∧
    (rotate .forward (ofList [1, 2, 3]) 0 2 3).map Prod.snd = some 2 := by
  decide +kernel

end

end Ktl.Rotation
