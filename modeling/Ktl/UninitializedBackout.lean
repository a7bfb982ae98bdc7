import Ktl.Loops
import Ktl.Outcome
import Mathlib.Data.List.Basic

/-!
The helpers behind `uninitialized_copy`, `uninitialized_move`, `uninitialized_fill`,
`uninitialized_value_construct` and `uninitialized_default_construct`. A helper keeps a cursor
behind the elements that it has constructed, and its destructor destroys what lies before the
cursor unless the range has been released. Slots are counted from the destination on.
-/
namespace Ktl.UninitializedBackout

open Loops List

variable {ε : Type}

inductive Event where
  | constructed (slot : Nat)
  | destroyed (slot : Nat)
  deriving DecidableEq

/-- Why a call does not return: an exception leaves it, or `std::terminate` has been called. -/
inductive Failure (ε : Type) where
  | exception (e : ε)
  | terminated
  deriving DecidableEq

/-- `uninitialized_backout_base` -/
structure Backout where
  dstFirst : Nat
  dstCur : Nat
  log : List Event
  deriving DecidableEq

namespace Backout

def initial : Backout := ⟨0, 0, []⟩

def release (b : Backout) : Backout := { b with dstFirst := b.dstCur }

def destroyRange (first : Nat) : Nat → List Event
  | 0 => []
  | count + 1 => .destroyed first :: destroyRange (first + 1) count

/-- The destructor, for elements whose destructors have something to do or not. -/
def destruct (destroys : Bool) (b : Backout) : Backout :=
  if destroys then { b with log := b.log ++ destroyRange b.dstFirst (b.dstCur - b.dstFirst) } else b

variable (throws : Nat → Option ε) (b : Backout)

def constructAt (slot : Nat) : Outcome (Failure ε) Backout :=
  match throws slot with
  | none => .returned { b with log := b.log ++ [.constructed slot] }
  | some e => .threw (.exception e) b

/-- `noexcept(is_nothrow_default_constructible_v<Ty>)`, and that trait is defined as
`is_default_constructible`: no exception leaves the function. -/
def defaultConstructAt (slot : Nat) : Outcome (Failure ε) Backout :=
  match b.constructAt throws slot with
  | .returned b => .returned b
  | .threw _ b => .threw .terminated b

def emplace : Outcome (Failure ε) Backout :=
  (b.constructAt throws b.dstCur).map fun b => { b with dstCur := b.dstCur + 1 }

def valueConstruct : Outcome (Failure ε) Backout := b.emplace throws

/-- The cursor is moved on before the element is constructed. -/
def defaultConstruct : Outcome (Failure ε) Backout :=
  let place := b.dstCur
  { b with dstCur := b.dstCur + 1 }.defaultConstructAt throws place

def defaultConstructWithAllocator : Outcome (Failure ε) Backout := b.emplace throws

end Backout

/-- The member functions of `uninitialized_emplace_helper` and of
`uninitialized_construct_helper`. -/
inductive Routine where
  | emplaceRange | emplaceN | moveRange | moveN
  | fillRange | fillN | valueConstructRange | valueConstructN
  | defaultConstructRange | defaultConstructN
  deriving DecidableEq

section

variable {σ : Type} (make : Backout → Outcome ε Backout)

/-- A pass goes on with the next element unless an exception leaves the loop. -/
def proceed (made : Outcome ε Backout) (next : Backout → σ) : Pass σ (Outcome ε Backout) :=
  match made with
  | .returned b => .again (next b)
  | .threw e b => .leave (.threw e b)

/-- The loop of `emplace_range` and `move_range`. -/
def untilEqual (last : Nat) (s : Nat × Backout) : Pass (Nat × Backout) (Outcome ε Backout) :=
  if s.1 ≠ last then proceed (make s.2) fun b => (s.1 + 1, b) else .leave (.returned s.2)

/-- The loop of `emplace_n`, `fill_n` and the like. -/
def whileLess (count : Nat) (s : Nat × Backout) : Pass (Nat × Backout) (Outcome ε Backout) :=
  if s.1 < count then proceed (make s.2) fun b => (s.1 + 1, b) else .leave (.returned s.2)

/-- The loop of `fill_range` and the like. -/
def untilCursor (last : Nat) (b : Backout) : Pass Backout (Outcome ε Backout) :=
  if b.dstCur ≠ last then proceed (make b) id else .leave (.returned b)

end

section

variable (throws : Nat → Option ε)

def Routine.make (routine : Routine) (allocator : Bool) (b : Backout) : Outcome (Failure ε) Backout :=
  match routine with
  | .emplaceRange | .emplaceN | .moveRange | .moveN | .fillRange | .fillN => b.emplace throws
  | .valueConstructRange | .valueConstructN => b.valueConstruct throws
  | .defaultConstructRange | .defaultConstructN =>
    if allocator then b.defaultConstructWithAllocator throws else b.defaultConstruct throws

def Routine.Ends (routine : Routine) (allocator : Bool) (n : Nat) (r : Outcome (Failure ε) Backout) : Prop :=
  match routine with
  | .emplaceRange | .emplaceN | .moveRange | .moveN =>
    Loops.Ends (untilEqual (routine.make throws allocator) n) (0, .initial) r
  | .fillN | .valueConstructN | .defaultConstructN =>
    Loops.Ends (whileLess (routine.make throws allocator) n) (0, .initial) r
  | .fillRange | .valueConstructRange | .defaultConstructRange =>
    Loops.Ends (untilCursor (routine.make throws allocator) n) .initial r

end

structure Types where
  isTriviallyDestructible : Bool
  hasDestroy : Bool
  deriving DecidableEq

/-- The destructor has something to do. -/
def Types.destroys (T : Types) (allocator : Bool) : Bool :=
  !T.isTriviallyDestructible || (allocator && T.hasDestroy)

/-- The helper goes out of scope, after `release` if all elements have been constructed. -/
def finish (destroys : Bool) : Outcome (Failure ε) Backout → Outcome (Failure ε) Backout
  | .returned b => .returned (b.release.destruct destroys)
  | .threw (.exception e) b => .threw (.exception e) (b.destruct destroys)
  -- nothing is destroyed any more
  | .threw .terminated b => .threw .terminated b

def ThrowsFirst (throws : Nat → Option ε) (i : Nat) (e : ε) : Prop :=
  throws i = some e ∧ ∀ j < i, throws j = none

/-- If a constructor throws, exactly the elements that have been constructed are destroyed, once
each, and the exception is passed on; if none does, none is destroyed. -/
structure CleanedUp (throws : Nat → Option ε) (n : Nat) (destroys : Bool) (r : Outcome (Failure ε) Backout) : Prop where
  threw : ∀ i < n, ∀ e, ThrowsFirst throws i e → ∃ b, r = .threw (.exception e) b ∧
    ∀ slot, b.log.count (.constructed slot) = (if slot < i then 1 else 0) ∧
      b.log.count (.destroyed slot) = if destroys ∧ slot < i then 1 else 0
  returned : (∀ i < n, throws i = none) → ∃ b, r = .returned b ∧ b.dstCur = n ∧
    ∀ slot, b.log.count (.constructed slot) = (if slot < n then 1 else 0) ∧ b.log.count (.destroyed slot) = 0

section

variable {make : Backout → Outcome ε Backout}

def makeEach (make : Backout → Outcome ε Backout) : Nat → Backout → Outcome ε Backout
  | 0, b => .returned b
  | n + 1, b => (make b).andThen (makeEach make n)

theorem ends_makeEach {σ : Type} {loop : σ → Pass σ (Outcome ε Backout)} (helper : σ → Backout)
    (next : σ → Backout → σ) (Left : σ → Nat → Prop) (hstop : ∀ s, Left s 0 → loop s = .leave (.returned (helper s)))
    (hgo : ∀ s n, Left s (n + 1) → loop s = proceed (make (helper s)) (next s))
    (hnext : ∀ s n b, Left s (n + 1) → make (helper s) = .returned b → Left (next s b) n ∧ helper (next s b) = b)
    {s : σ} {n : Nat} (hleft : Left s n) : Loops.Ends loop s (makeEach make n (helper s)) := by
  induction n generalizing s with
  | zero => exact (ends_leave_iff (hstop s hleft)).mpr rfl
  | succ n ih =>
    have hpass := hgo s n hleft
    simp only [makeEach]
    cases hmake : make (helper s) with
    | returned b =>
      rw [hmake] at hpass
      obtain ⟨hrest, hhelper⟩ := hnext s n b hleft hmake
      have hends := ih hrest
      rw [hhelper] at hends
      exact (ends_again_iff hpass).mpr hends
    | threw e b =>
      rw [hmake] at hpass
      exact (ends_leave_iff hpass).mpr rfl

theorem ends_untilEqual (n : Nat) (b : Backout) : Loops.Ends (untilEqual make n) (0, b) (makeEach make n b) := by
  refine ends_makeEach Prod.snd (fun s b => (s.1 + 1, b)) (fun s left => s.1 + left = n) ?_ ?_ ?_ (Nat.zero_add n)
  · intro s hleft
    simp [untilEqual, ← hleft]
  · intro s left hleft
    simp [untilEqual, ← hleft]
  · intro s left b hleft _
    exact ⟨by omega, rfl⟩

theorem ends_whileLess (n : Nat) (b : Backout) : Loops.Ends (whileLess make n) (0, b) (makeEach make n b) := by
  refine ends_makeEach Prod.snd (fun s b => (s.1 + 1, b)) (fun s left => s.1 + left = n) ?_ ?_ ?_ (Nat.zero_add n)
  · intro s hleft
    simp [whileLess, ← hleft]
  · intro s left hleft
    simp [whileLess, ← hleft]
  · intro s left b hleft _
    exact ⟨by omega, rfl⟩

theorem ends_untilCursor (hcursor : ∀ b b', make b = .returned b' → b'.dstCur = b.dstCur + 1)
    {n : Nat} {b : Backout} (hstart : b.dstCur = 0) :
    Loops.Ends (untilCursor make n) b (makeEach make n b) := by
  refine ends_makeEach id (fun _ b => b) (fun b left => b.dstCur + left = n) ?_ ?_ ?_ (by omega)
  · intro b hleft
    simp [untilCursor, ← hleft]
  · intro b left hleft
    simp [untilCursor, ← hleft]
    rfl
  · intro b left b' hleft hmake
    have hcur := hcursor b b' hmake
    exact ⟨by omega, rfl⟩

end

/-- Whether the elements are made by `default_construct_at`. -/
def Routine.terminates (routine : Routine) (allocator : Bool) : Prop :=
  (routine = .defaultConstructRange ∨ routine = .defaultConstructN) ∧ allocator = false

def made (i : Nat) : Backout := ⟨0, i, (List.range i).map .constructed⟩

section

variable {throws : Nat → Option ε} {routine : Routine}

theorem made_succ (i : Nat) : made (i + 1) = ⟨0, i + 1, (made i).log ++ [.constructed i]⟩ := by
  simp [made, range_succ]

theorem make_returned (h : throws i = none) : routine.make throws allocator (made i) = .returned (made (i + 1)) := by
  have hemplace : (made i).emplace throws = .returned (made (i + 1)) := by
    rw [made_succ]
    simp [Backout.emplace, Backout.constructAt, made, h]
  have hdefault : (made i).defaultConstruct throws = .returned (made (i + 1)) := by
    rw [made_succ]
    simp [Backout.defaultConstruct, Backout.defaultConstructAt, Backout.constructAt, made, h]
  cases routine <;> first
    | exact hemplace
    | exact (if_congr Iff.rfl hemplace hdefault).trans (ite_self _)

/-- A constructor that throws ends the program in `default_construct_at`, or leaves the cursor
behind the elements. -/
theorem make_threw (routine : Routine) (allocator : Bool) (h : throws i = some e) :
    (routine.terminates allocator ∧ ∃ b, routine.make throws allocator (made i) = .threw .terminated b) ∨
      ¬ routine.terminates allocator ∧ routine.make throws allocator (made i) = .threw (.exception e) (made i) := by
  have hemplace : (made i).emplace throws = .threw (.exception e) (made i) := by
    simp [Backout.emplace, Backout.constructAt, made, h]
  have hdefault : (made i).defaultConstruct throws = .threw .terminated { made i with dstCur := i + 1 } := by
    simp [Backout.defaultConstruct, Backout.defaultConstructAt, Backout.constructAt, made, h]
  cases routine <;> first
    | exact .inr ⟨by simp [Routine.terminates], hemplace⟩
    | (cases allocator with
       | true => exact .inr ⟨by simp [Routine.terminates], hemplace⟩
       | false => exact .inl ⟨by simp [Routine.terminates], _, hdefault⟩)

theorem makeEach_returned (h : ∀ j < n, throws (i + j) = none) :
    makeEach (routine.make throws allocator) n (made i) = .returned (made (i + n)) := by
  induction n generalizing i with
  | zero => rfl
  | succ n ih =>
    have hfirst : throws i = none := h 0 (Nat.succ_pos n)
    rw [makeEach, make_returned hfirst]
    have hrest := ih (i := i + 1) fun j hj => by
      rw [Nat.add_right_comm]
      exact h (j + 1) (Nat.succ_lt_succ hj)
    rwa [Nat.add_right_comm] at hrest

/-- Up to the first constructor that throws all elements are made, and that one ends the loop. -/
theorem makeEach_threw (hi : i < n) (h : ThrowsFirst throws i e) :
    makeEach (routine.make throws allocator) n (made 0) = routine.make throws allocator (made i) := by
  obtain ⟨hthrows, hbefore⟩ := h
  -- from any element on, up to the one that throws
  suffices hfrom : ∀ left k, k + left = i → ∀ n, left < n →
      makeEach (routine.make throws allocator) n (made k) = routine.make throws allocator (made i) from
    hfrom i 0 (Nat.zero_add i) n hi
  intro left
  induction left with
  | zero =>
    intro k hk n hn
    obtain ⟨n, rfl⟩ : ∃ m, n = m + 1 := ⟨n - 1, by omega⟩
    rw [show k = i from hk, makeEach]
    obtain ⟨-, b, hmake⟩ | ⟨-, hmake⟩ := make_threw routine allocator hthrows <;> rw [hmake, Outcome.andThen_threw]
  | succ left ih =>
    intro k hk n hn
    obtain ⟨n, rfl⟩ : ∃ m, n = m + 1 := ⟨n - 1, by omega⟩
    rw [makeEach, make_returned (hbefore k (by omega))]
    exact ih (k + 1) (by omega) n (by omega)

theorem dstCur_emplace {b b' : Backout} (h : b.emplace throws = .returned b') : b'.dstCur = b.dstCur + 1 := by
  unfold Backout.emplace Backout.constructAt at h
  cases hthrows : throws b.dstCur with
  | none =>
    rw [hthrows] at h
    cases h
    rfl
  | some e =>
    rw [hthrows] at h
    cases h

theorem dstCur_defaultConstruct {b b' : Backout} (h : b.defaultConstruct throws = .returned b') :
    b'.dstCur = b.dstCur + 1 := by
  unfold Backout.defaultConstruct Backout.defaultConstructAt Backout.constructAt at h
  cases hthrows : throws b.dstCur with
  | none =>
    simp only [hthrows] at h
    cases h
    rfl
  | some e =>
    simp only [hthrows] at h
    cases h

theorem routine_ends_iff (r : Outcome (Failure ε) Backout) :
    routine.Ends throws allocator n r ↔ r = makeEach (routine.make throws allocator) n (made 0) := by
  have hcursor (b b' : Backout) (h : routine.make throws allocator b = .returned b') : b'.dstCur = b.dstCur + 1 := by
    cases routine <;> first
      | exact dstCur_emplace h
      | (cases allocator with
         | true => exact dstCur_emplace h
         | false => exact dstCur_defaultConstruct h)
  have hends : routine.Ends throws allocator n (makeEach (routine.make throws allocator) n (made 0)) := by
    cases routine <;> first
      | exact ends_untilEqual n _
      | exact ends_whileLess n _
      | exact ends_untilCursor hcursor rfl
  constructor
  · intro h
    cases routine <;> exact Loops.Ends.unique h hends
  · rintro rfl
    exact hends

end

theorem count_constructed (i slot : Nat) :
    ((List.range i).map Event.constructed).count (.constructed slot) = if slot < i then 1 else 0 := by
  induction i with
  | zero => rfl
  | succ i ih =>
    rw [range_succ, map_append, count_append, ih]
    simp only [map_cons, map_nil, count_singleton, beq_iff_eq, Event.constructed.injEq]
    split <;> split <;> split <;> omega

theorem count_destroyed_made (i slot : Nat) : (made i).log.count (.destroyed slot) = 0 := by
  refine count_eq_zero.mpr fun hmem => ?_
  obtain ⟨_, _, heq⟩ := mem_map.mp hmem
  cases heq

theorem count_constructed_destroyRange (first count slot : Nat) :
    (Backout.destroyRange first count).count (.constructed slot) = 0 := by
  induction count generalizing first with
  | zero => rfl
  | succ count ih => rw [Backout.destroyRange, count_cons_of_ne (by simp), ih]

theorem count_destroyed_destroyRange (first count slot : Nat) :
    (Backout.destroyRange first count).count (.destroyed slot) =
      if first ≤ slot ∧ slot < first + count then 1 else 0 := by
  induction count generalizing first with
  | zero =>
    rw [if_neg (by omega)]
    rfl
  | succ count ih =>
    rw [Backout.destroyRange, count_cons, ih]
    simp only [beq_iff_eq, Event.destroyed.injEq]
    split <;> split <;> split <;> omega

theorem counts_made (i slot : Nat) :
    ((made i).destruct destroys).log.count (.constructed slot) = (if slot < i then 1 else 0) ∧
    ((made i).destruct destroys).log.count (.destroyed slot) = if destroys ∧ slot < i then 1 else 0 := by
  have hmade := count_constructed i slot
  have hnone := count_destroyed_made i slot
  cases destroys with
  | false => exact ⟨hmade, hnone.trans (by simp)⟩
  | true =>
    have hdestruct : ((made i).destruct true).log = (made i).log ++ Backout.destroyRange 0 i := rfl
    rw [hdestruct, count_append, count_append, count_constructed_destroyRange,
      count_destroyed_destroyRange, hnone]
    exact ⟨hmade, by simp⟩

theorem destruct_release (b : Backout) : b.release.destruct destroys = b.release := by
  cases destroys with
  | false => rfl
  | true => simp [Backout.destruct, Backout.release, Backout.destroyRange]

theorem throwsFirst_or_none (throws : Nat → Option ε) (n : Nat) :
    (∃ i < n, ∃ e, ThrowsFirst throws i e) ∨ ∀ i < n, throws i = none := by
  induction n with
  | zero => exact .inr fun i hi => absurd hi (Nat.not_lt_zero i)
  | succ n ih =>
    rcases ih with ⟨i, hi, e, hfirst⟩ | hnone
    · exact .inl ⟨i, Nat.lt_succ_of_lt hi, e, hfirst⟩
    · cases hthrows : throws n with
      | some e => exact .inl ⟨n, Nat.lt_succ_self n, e, hthrows, hnone⟩
      | none =>
        refine .inr fun i hi => ?_
        rcases Nat.lt_succ_iff_lt_or_eq.mp hi with hlt | rfl
        · exact hnone i hlt
        · exact hthrows

theorem ThrowsFirst.unique (hi : ThrowsFirst throws i e) (hj : ThrowsFirst throws j f) : i = j ∧ e = f := by
  have hij : i = j := by
    rcases Nat.lt_trichotomy i j with hlt | heq | hgt
    · have hnone := hj.2 i hlt
      rw [hi.1] at hnone
      cases hnone
    · exact heq
    · have hnone := hi.2 j hgt
      rw [hj.1] at hnone
      cases hnone
  subst hij
  exact ⟨rfl, Option.some.inj (hi.1.symm.trans hj.1)⟩

def Routine.CleansUp (routine : Routine) (T : Types) (allocator : Bool) (throws : Nat → Option ε) (n : Nat) : Prop :=
  ∃ r, routine.Ends throws allocator n r ∧ CleanedUp throws n (T.destroys allocator) (finish (T.destroys allocator) r)

theorem cleansUp_of_none {routine : Routine} {T : Types} (hnone : ∀ i < n, throws i = none) :
    routine.CleansUp T allocator throws n := by
  have hmade : makeEach (routine.make throws allocator) n (made 0) = .returned (made (0 + n)) :=
    makeEach_returned fun j hj => by rw [Nat.zero_add]; exact hnone j hj
  rw [Nat.zero_add] at hmade
  refine ⟨_, (routine_ends_iff _).mpr hmade.symm, ?_, ?_⟩
  · rintro i hi e ⟨hthrows, -⟩
    rw [hnone i hi] at hthrows
    cases hthrows
  · intro _
    refine ⟨(made n).release, by rw [finish, destruct_release], rfl, fun slot => ?_⟩
    exact ⟨count_constructed n slot, count_destroyed_made n slot⟩

theorem cleansUp_iff_of_throwsFirst {routine : Routine} {T : Types} (hi : i < n) (hfirst : ThrowsFirst throws i e) :
    routine.CleansUp T allocator throws n ↔ ¬ routine.terminates allocator := by
  have hends (r) : routine.Ends throws allocator n r ↔ r = routine.make throws allocator (made i) := by
    rw [routine_ends_iff, makeEach_threw hi hfirst]
  obtain ⟨hterminates, b, hmake⟩ | ⟨hgoes, hmake⟩ := make_threw routine allocator hfirst.1
  · refine iff_of_false ?_ (not_not_intro hterminates)
    rintro ⟨r, hr, hclean⟩
    obtain ⟨b', hb', -⟩ := hclean.threw i hi e hfirst
    rw [(hends r).mp hr, hmake] at hb'
    cases hb'
  · refine iff_of_true ⟨_, (hends _).mpr hmake.symm, ?_, ?_⟩ hgoes
    · intro j _ f hj
      obtain ⟨rfl, rfl⟩ := hfirst.unique hj
      exact ⟨_, rfl, counts_made i⟩
    · intro hnone
      have hthrows := hnone i hi
      rw [hfirst.1] at hthrows
      cases hthrows

/-- All clean up, but for the default construction without an allocator, which ends the program. -/
theorem cleansUp_iff (routine : Routine) (T : Types) (allocator : Bool) (throws : Nat → Option ε) (n : Nat) :
    routine.CleansUp T allocator throws n ↔
      ¬ ((routine = .defaultConstructRange ∨ routine = .defaultConstructN) ∧ allocator = false ∧
        ∃ i < n, throws i ≠ none) := by
  rcases throwsFirst_or_none throws n with ⟨i, hi, e, hfirst⟩ | hnone
  · have hsome : ∃ i < n, throws i ≠ none := ⟨i, hi, by rw [hfirst.1]; exact Option.some_ne_none e⟩
    rw [cleansUp_iff_of_throwsFirst hi hfirst, Routine.terminates, and_iff_left hsome]
  · refine iff_of_true (cleansUp_of_none hnone) ?_
    rintro ⟨-, -, i, hi, hthrows⟩
    exact hthrows (hnone i hi)

/-- The second element throws: the program ends and the first one is not destroyed. -/
theorem default_construct_terminates :
    let throws : Nat → Option Unit := fun slot => if slot = 1 then some () else none
    (∃ b, Routine.defaultConstructN.Ends throws false 2 (.threw .terminated b) ∧
      finish true (.threw (.terminated : Failure Unit) b) = .threw .terminated ⟨0, 2, [.constructed 0]⟩) ∧
    ¬ Routine.defaultConstructN.CleansUp ⟨false, false⟩ false throws 2 := by
  intro throws
  have hends : Routine.defaultConstructN.Ends throws false 2 (.threw .terminated ⟨0, 2, [.constructed 0]⟩) :=
    ⟨2, rfl⟩
  refine ⟨⟨_, hends, rfl⟩, ?_⟩
  rintro ⟨r, hr, hclean⟩
  obtain ⟨b, hb, -⟩ := hclean.threw 1 (by decide) () ⟨rfl, fun j hj => if_neg (by omega)⟩
  obtain rfl := Loops.Ends.unique hr hends
  cases hb

end Ktl.UninitializedBackout
