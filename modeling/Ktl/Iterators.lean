import Ktl.Rotation

/-!
`advance`, `next`, `prev` and `distance` for any iterator, over the operations that it
has itself. `none` stands for a position that the iterator cannot be moved to.
-/
namespace Ktl.Iterators

open Loops Rotation Option

variable {ι : Type}

section

structure Iterator (ι : Type) where
  increment : ι → Option ι
  decrement : ι → Option ι
  add : ι → Int → Option ι
  sub : ι → ι → Int

variable (I : Iterator ι) (cat : Category)

/-- `while (offset > 0)` -/
def goUp (it : ι) (offset : Int) : Option (ι × Int) :=
  if 0 < offset then
    match I.increment it with
    | some it => goUp it (offset - 1)
    | none => none
  else some (it, offset)
termination_by offset.toNat

/-- `while (offset < 0)` -/
def goDown (it : ι) (offset : Int) : Option ι :=
  if offset < 0 then
    match I.decrement it with
    | some it => goDown it (offset + 1)
    | none => none
  else some it
termination_by (-offset).toNat

def advance (it : ι) (offset : Int) : Option ι :=
  match cat with
  | .forward => (goUp I it offset).map Prod.fst
  | .bidirectional => (goUp I it offset).bind fun (it, offset) => goDown I it offset
  | .randomAccess => I.add it offset

def next (it : ι) (offset : Int) : Option ι := advance I cat it offset

def prev (it : ι) (offset : Int) : Option ι := advance I cat it offset

/-- The loop of `distance_impl`. -/
def distancePass [DecidableEq ι] (last : ι) (s : ι × Int) : Pass (ι × Int) (Option Int) :=
  if s.1 = last then .leave (some s.2)
  else
    match next I cat s.1 1 with
    | some first => .again (first, s.2 + 1)
    | none => .leave none

/-- `distance`, with the number of passes that the loop may make. -/
def distance [DecidableEq ι] (first last : ι) (fuel : Nat) : Option Int :=
  match cat with
  | .randomAccess => some (I.sub last first)
  | _ => (run (distancePass I cat last) fuel (first, 0)).join

end

structure Lawful (I : Iterator ι) (lo hi : Int) (pos : Int → ι) : Prop where
  inj : ∀ j k, lo ≤ j → j ≤ hi → lo ≤ k → k ≤ hi → pos j = pos k → j = k
  increment : ∀ k, lo ≤ k → k ≤ hi → I.increment (pos k) = if k + 1 ≤ hi then some (pos (k + 1)) else none
  decrement : ∀ k, lo ≤ k → k ≤ hi → I.decrement (pos k) = if lo ≤ k - 1 then some (pos (k - 1)) else none
  add : ∀ k n, lo ≤ k → k ≤ hi → I.add (pos k) n = if lo ≤ k + n ∧ k + n ≤ hi then some (pos (k + n)) else none
  sub : ∀ j k, lo ≤ j → j ≤ hi → lo ≤ k → k ≤ hi → I.sub (pos j) (pos k) = j - k

section

variable {I : Iterator ι} {lo hi k : Int} {pos : Int → ι} (h : Lawful I lo hi pos) (hlo : lo ≤ k) (hhi : k ≤ hi)
include h hlo hhi

theorem goUp_pos (n : Int) :
    goUp I (pos k) n = if k + max 0 n ≤ hi then some (pos (k + max 0 n), min 0 n) else none := by
  generalize hit : pos k = it
  fun_induction goUp I it n generalizing k with
  | case1 it n hn it' hit' ih =>
    rw [← hit, h.increment k hlo hhi] at hit'
    obtain ⟨hk, hnext⟩ := ite_none_right_eq_some.mp hit'
    rw [ih (by omega) hk (some.inj hnext), show k + 1 + max 0 (n - 1) = k + max 0 n by omega,
      show min 0 (n - 1) = min 0 n by omega]
  | case2 it n hn hnone =>
    rw [← hit, h.increment k hlo hhi] at hnone
    have hk : ¬ k + 1 ≤ hi := by simpa using hnone
    rw [if_neg (by omega)]
  | case3 it n hn => rw [Int.max_eq_left (by omega), Int.min_eq_right (by omega), Int.add_zero, if_pos hhi, hit]

theorem goDown_pos (n : Int) : goDown I (pos k) n = if lo ≤ k + min 0 n then some (pos (k + min 0 n)) else none := by
  generalize hit : pos k = it
  fun_induction goDown I it n generalizing k with
  | case1 it n hn it' hit' ih =>
    rw [← hit, h.decrement k hlo hhi] at hit'
    obtain ⟨hk, hnext⟩ := ite_none_right_eq_some.mp hit'
    rw [ih hk (by omega) (some.inj hnext), show k - 1 + min 0 (n + 1) = k + min 0 n by omega]
  | case2 it n hn hnone =>
    rw [← hit, h.decrement k hlo hhi] at hnone
    have hk : ¬ lo ≤ k - 1 := by simpa using hnone
    rw [if_neg (by omega)]
  | case3 it n hn => rw [Int.min_eq_left (by omega), Int.add_zero, if_pos hlo, hit]

/-- Counting and arithmetic lead to the same position. -/
theorem advance_pos (cat : Category) (n : Int) :
    advance I cat (pos k) n = if lo ≤ Rotation.advance cat k n ∧ Rotation.advance cat k n ≤ hi then
      some (pos (Rotation.advance cat k n)) else none := by
  cases cat with
  | forward =>
    have hlow : lo ≤ k + max 0 n := by omega
    simp only [advance, goUp_pos h hlo hhi, Rotation.advance, hlow, true_and]
    split <;> rfl
  | bidirectional =>
    simp only [advance, goUp_pos h hlo hhi, Rotation.advance]
    rcases Int.le_total n 0 with hn | hn
    · rw [Int.max_eq_left hn, Int.min_eq_right hn, Int.add_zero, if_pos hhi, bind_some, goDown_pos h hlo hhi,
        Int.min_eq_right hn]
      simp [show k + n ≤ hi by omega]
    · rw [Int.max_eq_right hn, Int.min_eq_left hn]
      by_cases hk : k + n ≤ hi
      · rw [if_pos hk, bind_some, goDown_pos h (by omega) hk]
        simp [hk]
      · simp [hk]
  | randomAccess => exact h.add k n hlo hhi

theorem steps_pos (n : Nat) :
    (fun it => it.bind I.increment)^[n] (some (pos k)) = if k + n ≤ hi then some (pos (k + n)) else none := by
  induction n with
  | zero => simp [hhi]
  | succ n ih =>
    rw [Function.iterate_succ_apply', ih]
    by_cases hn : k + n ≤ hi
    · rw [if_pos hn, bind_some, h.increment _ (by omega) hn, Int.natCast_succ, Int.add_assoc]
    · rw [if_neg hn, if_neg (by omega)]
      rfl

/-- `prev` goes the way that `next` goes. -/
theorem next_twice (cat : Category) (hcat : cat ≠ .forward) (n : Int) :
    (advance I cat (pos k) n).bind (advance I cat · n) = some (pos k) ↔ n = 0 := by
  have hadvance : ∀ k, Rotation.advance cat k n = k + n := by
    intro k
    cases cat with
    | forward => exact absurd rfl hcat
    | bidirectional | randomAccess => rfl
  rw [advance_pos h hlo hhi, hadvance]
  by_cases hn : lo ≤ k + n ∧ k + n ≤ hi
  · rw [if_pos hn, bind_some, advance_pos h hn.1 hn.2, hadvance]
    constructor
    · intro htwice
      obtain ⟨hn', hpos⟩ := ite_none_right_eq_some.mp htwice
      have := h.inj _ _ hn'.1 hn'.2 hlo hhi (some.inj hpos)
      omega
    · rintro rfl
      simp [hlo, hhi]
  · rw [if_neg hn]
    simp
    omega

variable [DecidableEq ι]

theorem distancePass_ends (cat : Category) (n : Nat) (offset : Int) (hn : k + n ≤ hi) :
    Ends (distancePass I cat (pos (k + n))) (pos k, offset) (some (offset + n)) := by
  induction n generalizing k offset with
  | zero =>
    have hleave : distancePass I cat (pos (k + (0 : Nat))) (pos k, offset) = .leave (some offset) := by
      simp [distancePass]
    rw [ends_leave_iff hleave]
    simp
  | succ n ih =>
    have hne : pos k ≠ pos (k + (n + 1 : Nat)) := by
      intro heq
      have := h.inj k _ hlo hhi (by omega) hn heq
      omega
    have hnext : next I cat (pos k) 1 = some (pos (k + 1)) := by
      rw [next, advance_pos h hlo hhi, show Rotation.advance cat k 1 = k + 1 from next_eq cat k, if_pos (by omega)]
    rw [ends_again_iff (t := (pos (k + 1), offset + 1)) (by simp only [distancePass, if_neg hne, hnext])]
    have hrest := ih (k := k + 1) (by omega) (by omega) (offset + 1) (by omega)
    rwa [show k + 1 + n = k + (n + 1 : Nat) by omega, show offset + 1 + n = offset + (n + 1 : Nat) by omega] at hrest

theorem distance_pos (cat : Category) (n : Nat) (hn : k + n ≤ hi) : Gives (distance I cat (pos k) (pos (k + n))) n := by
  have hloop := (distancePass_ends h hlo hhi cat n 0 hn).gives
  rw [Int.zero_add] at hloop
  cases cat with
  | randomAccess =>
    have hsub : I.sub (pos (k + n)) (pos k) = n := by
      rw [h.sub _ _ (by omega) hn hlo hhi]
      omega
    exact ⟨0, fun _ _ => congrArg some hsub⟩
  | forward => exact hloop.bind (gives_some _)
  | bidirectional => exact hloop.bind (gives_some _)

/-- All laws but those that join `prev` and `next` hold; these do for no step only. -/
theorem iterator_laws_iff (n : Int) :
    (∀ cat ≠ Category.forward, ((next I cat (pos k) n).bind (prev I cat · n) = some (pos k) ↔ n = 0) ∧
      ((prev I cat (pos k) n).bind (next I cat · n) = some (pos k) ↔ n = 0)) ∧
    (∀ cat (m : Nat) last, next I cat (pos k) m = some last → Gives (distance I cat (pos k) last) m) ∧
    (∀ cat (m : Nat), advance I cat (pos k) m = (fun it => it.bind I.increment)^[m] (some (pos k))) ∧
    advance I .bidirectional (pos k) n = advance I .randomAccess (pos k) n := by
  refine ⟨fun cat hcat => ⟨next_twice h hlo hhi cat hcat n, next_twice h hlo hhi cat hcat n⟩, ?_, ?_, ?_⟩
  · intro cat m last hnext
    have hm : Rotation.advance cat k m = k + m := by cases cat <;> simp [Rotation.advance]
    rw [next, advance_pos h hlo hhi, hm] at hnext
    obtain ⟨hin, hlast⟩ := ite_none_right_eq_some.mp hnext
    cases hlast
    exact distance_pos h hlo hhi cat m hin.2
  · intro cat m
    have hm : Rotation.advance cat k m = k + m := by cases cat <;> simp [Rotation.advance]
    rw [steps_pos h hlo hhi, advance_pos h hlo hhi, hm]
    simp [show lo ≤ k + m by omega]
  · rw [advance_pos h hlo hhi, advance_pos h hlo hhi]
    rfl

end

def indices (n : Nat) : Iterator Int where
  increment k := if k + 1 ≤ n then some (k + 1) else none
  decrement k := if 0 ≤ k - 1 then some (k - 1) else none
  add k m := if 0 ≤ k + m ∧ k + m ≤ n then some (k + m) else none
  sub j k := j - k

theorem indices_lawful (n : Nat) : Lawful (indices n) 0 n id where
  inj _ _ _ _ _ _ := id
  increment _ _ _ := rfl
  decrement _ _ _ := rfl
  add _ _ _ _ := rfl
  sub _ _ _ _ _ _ := rfl

theorem iterator_laws_iff_one : (next (indices 4) .bidirectional 1 1).bind (prev (indices 4) .bidirectional · 1) ≠
    some 1 :=
  fun hlaw => absurd ((((iterator_laws_iff (indices_lawful 4) (k := 1) (by decide) (by decide) 1).1 .bidirectional
    (by decide)).1).mp hlaw) (by decide)

theorem prev_next_two_on : (next (indices 4) .randomAccess 1 1).bind (prev (indices 4) .randomAccess · 1) = some 3 := by
  decide

end Ktl.Iterators
