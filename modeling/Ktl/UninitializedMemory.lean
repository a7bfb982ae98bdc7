import Ktl.MemoryFills

/-!
`uninitialized_copy`, `uninitialized_move` and their relatives: the objects of a range
are constructed in raw memory, one by one or as a copy of all bytes.
-/
namespace Ktl.UninitializedMemory

open ByteMemory ObjectBytes MemoryFills

inductive Iterator where
  | pointer (first : BitVec 64)
  | other (place : Nat → BitVec 64)

def Iterator.isPointer : Iterator → Bool
  | .pointer _ => true
  | .other _ => false

def Iterator.place (size : Nat) : Iterator → Nat → BitVec 64
  | .pointer first => element first size
  | .other place => place

structure Types (α β : Type) where
  source : Layout α
  target : Layout β
  /-- the constructor of the destination type -/
  convert : α → β
  /-- what a value becomes when it is moved from -/
  moved : α → α
  isTriviallyCopyable : Bool
  isSame : Bool
  size_of_isSame : isSame = true → target.size = source.size
  code_of_isSame : isSame = true → ∀ v, target.code (convert v) = source.code v

variable {α β γ δ : Type}

section

variable (X : Types α β)

/-- The condition of the byte-wise way; an allocator must not construct the objects itself. -/
def usesBytes (hasConstruct : Option Bool) (first dest : Iterator) : Bool :=
  match hasConstruct with
  | none => X.isTriviallyCopyable && first.isPointer && dest.isPointer
  | some hasConstruct =>
    X.isTriviallyCopyable && first.isPointer && dest.isPointer && X.isSame && !hasConstruct

/-- The first `count` steps of `emplace_n` and `emplace_range`, or of `move_n` and
`move_range`. -/
def emplaceEach (moves : Bool) (mem : Memory) (src dst : Nat → BitVec 64) : Nat → Memory
  | 0 => mem
  | step + 1 =>
    let mem := emplaceEach moves mem src dst step
    let v := X.source.read mem (src step)
    let mem := X.target.write mem (dst step) (X.convert v)
    if moves then X.source.write mem (src step) (X.moved v) else mem

/-- The memory and how far the result is behind `dest`; `none` if the call does not compile. -/
def transfer (moves compiles : Bool) (hasConstruct : Option Bool) (mem : Memory) (first dest : Iterator) (count : Nat) :
    Option (Memory × Nat) :=
  let src := first.place X.source.size
  let dst := dest.place X.target.size
  if usesBytes X hasConstruct first dest then some (copy mem (dst 0) (src 0) (count * X.source.size), 0)
  else if compiles then some (emplaceEach X moves mem src dst count, count)
  else none

/-- `uninitialized_copy_non_trivial_impl` does not compile: the pack is not expanded. -/
def uninitializedCopy := transfer X false false

def uninitializedCopyUnchecked := transfer X false false

def uninitializedCopyN := transfer X false true

def uninitializedCopyNUnchecked := transfer X false true

def uninitializedMove := transfer X true true

def uninitializedMoveUnckecked := transfer X true true

def uninitializedMoveN := transfer X true true

def uninitializedMoveNUnchecked := transfer X true true

end

inductive Call where
  | copy | copyUnchecked | copyN | copyNUnchecked | move | moveUnckecked | moveN | moveNUnchecked
  deriving DecidableEq

def Call.run (X : Types α β) : Call → Option Bool → Memory → Iterator → Iterator → Nat → Option (Memory × Nat)
  | .copy => uninitializedCopy X
  | .copyUnchecked => uninitializedCopyUnchecked X
  | .copyN => uninitializedCopyN X
  | .copyNUnchecked => uninitializedCopyNUnchecked X
  | .move => uninitializedMove X
  | .moveUnckecked => uninitializedMoveUnckecked X
  | .moveN => uninitializedMoveN X
  | .moveNUnchecked => uninitializedMoveNUnchecked X

def Call.copiesRange (c : Call) : Bool := c = .copy || c = .copyUnchecked

/-- The source has the objects `xs`, and the destination is other memory with room
for as many. -/
structure Ready (X : Types α β) (mem : Memory) (src dst : Nat → BitVec 64) (xs : List α) : Prop where
  holds : X.source.HoldsAll mem src xs
  source : Separate src X.source.size xs.length
  target : Separate dst X.target.size xs.length
  apart : ∀ i < xs.length, ∀ j < xs.length, Apart (src i) X.source.size (dst j) X.target.size

section

variable {X : Types α β}

theorem emplaceEach_holds (h : Ready X mem src dst xs) (moves : Bool) (step : Nat) (hstep : step ≤ xs.length) :
    (∀ i v, i < step → xs[i]? = some v → X.target.Holds (emplaceEach X moves mem src dst step) (dst i) (X.convert v)) ∧
    (∀ i v, step ≤ i → xs[i]? = some v → X.source.Holds (emplaceEach X moves mem src dst step) (src i) v) := by
  induction step with
  | zero => exact ⟨fun i _ hi => absurd hi (Nat.not_lt_zero i), fun i v _ hv => h.holds i v hv⟩
  | succ step ih =>
    obtain ⟨hnew, hold⟩ := ih (Nat.le_of_succ_le hstep)
    have hread := Layout.read_of_holds (hold step _ le_rfl (List.getElem?_eq_getElem hstep))
    simp only [emplaceEach, hread]
    generalize emplaceEach X moves mem src dst step = m at hnew hold
    have hbuilt : ∀ i v, i < step + 1 → xs[i]? = some v →
        X.target.Holds (X.target.write m (dst step) (X.convert xs[step])) (dst i) (X.convert v) := by
      intro i v hi hv
      rcases Nat.lt_succ_iff_lt_or_eq.mp hi with hlt | rfl
      · exact (hnew i v hlt hv).write (h.target i (by omega) step hstep (by omega))
      · rw [List.getElem?_eq_getElem hstep] at hv
        obtain rfl : xs[i] = v := Option.some.inj hv
        exact Layout.holds_write X.target m (dst i) _
    have hkept : ∀ i v, step + 1 ≤ i → xs[i]? = some v →
        X.source.Holds (X.target.write m (dst step) (X.convert xs[step])) (src i) v := by
      intro i v hi hv
      obtain ⟨hlt, -⟩ := List.getElem?_eq_some_iff.mp hv
      exact (hold i v (by omega) hv).write (h.apart i hlt step hstep)
    cases moves with
    | false => exact ⟨hbuilt, hkept⟩
    | true =>
      constructor
      · intro i v hi hv
        obtain ⟨hlt, -⟩ := List.getElem?_eq_some_iff.mp hv
        have hapart := (h.apart step hstep i hlt).symm X.target.size_lt.le
        exact (hbuilt i v hi hv).write hapart
      · intro i v hi hv
        obtain ⟨hlt, -⟩ := List.getElem?_eq_some_iff.mp hv
        exact (hkept i v hi hv).write (h.source i hlt step hstep (by omega))

theorem holdsAll_emplaceEach (h : Ready X mem src dst xs) (moves : Bool) :
    X.target.HoldsAll (emplaceEach X moves mem src dst xs.length) dst (xs.map X.convert) := by
  intro i w hw
  rw [List.getElem?_map, Option.map_eq_some_iff] at hw
  obtain ⟨v, hv, rfl⟩ := hw
  obtain ⟨hlt, -⟩ := List.getElem?_eq_some_iff.mp hv
  exact (emplaceEach_holds h moves xs.length le_rfl).1 i v hlt hv

end

/-- The destination has the converted objects, and the iterator behind them is returned. -/
def Transfers (X : Types α β) (dst : Nat → BitVec 64) (xs : List α) (r : Option (Memory × Nat)) : Prop :=
  ∃ mem, r = some (mem, xs.length) ∧ X.target.HoldsAll mem dst (xs.map X.convert)

/-- The raw memory has copies of the value, and the pointer behind them is returned. -/
def FillsRaw {T : Fillable δ} (F : Filler T γ) (mem : Memory) (hasConstruct : Option Bool) (first : BitVec 64) (n : Nat)
    (value : γ) : Prop :=
  Stores T (uninitializedFillN F mem hasConstruct first n value).1 first n (F.convert value) ∧
    (uninitializedFillN F mem hasConstruct first n value).2 = element first T.size n

section

variable {X : Types α β}

theorem call_run_eq (X : Types α β) (c : Call) : ∃ moves, c.run X = transfer X moves !c.copiesRange := by
  cases c with
  | copy | copyUnchecked | copyN | copyNUnchecked => exact ⟨false, rfl⟩
  | move | moveUnckecked | moveN | moveNUnchecked => exact ⟨true, rfl⟩

theorem transfers_iff (c : Call) (h : Ready X mem (first.place X.source.size) (dest.place X.target.size) xs) :
    Transfers X (dest.place X.target.size) xs (c.run X hasConstruct mem first dest xs.length) ↔
      usesBytes X hasConstruct first dest = true ∧ xs = [] ∨
        usesBytes X hasConstruct first dest = false ∧ c.copiesRange = false := by
  obtain ⟨moves, hrun⟩ := call_run_eq X c
  rw [hrun, transfer]
  cases hbytes : usesBytes X hasConstruct first dest with
  | true =>
    constructor
    · rintro ⟨m, hm, -⟩
      have hlen : 0 = xs.length := congrArg Prod.snd (Option.some.inj hm)
      exact .inl ⟨rfl, List.eq_nil_of_length_eq_zero hlen.symm⟩
    · rintro (⟨-, rfl⟩ | ⟨hno, -⟩)
      · exact ⟨_, rfl, fun i v hv => nomatch hv⟩
      · cases hno
  | false =>
    cases hrange : c.copiesRange with
    | true =>
      constructor
      · rintro ⟨m, hm, -⟩
        cases hm
      · rintro (⟨hno, -⟩ | ⟨-, hno⟩) <;> cases hno
    | false => exact iff_of_true ⟨_, rfl, holdsAll_emplaceEach h moves⟩ (.inr ⟨rfl, rfl⟩)

theorem fillsRaw_iff (F : Filler T γ) (hroom : n * T.size < 2 ^ 64) : FillsRaw F mem hasConstruct start n value ↔
      n = 0 ∨ hasConstruct = some true ∨ T.wmemsetIsSafe = false ∧ isMemsetSafe F value = false := by
  have heach := stores_assignEach F mem start value hroom.le
  by_cases hn : n = 0
  · subst hn
    have hret : (uninitializedFillN F mem hasConstruct start 0 value).2 = element start T.size 0 := by
      rw [element_zero, uninitializedFillN]
      split
      · rfl
      · split
        · rfl
        · exact element_zero start T.size
    exact iff_of_true ⟨fun i hi => absurd hi (Nat.not_lt_zero i), hret⟩ (.inl rfl)
  · have hne : start ≠ element start T.size n := (element_ne_base T.size_pos hn hroom).symm
    rw [FillsRaw, uninitializedFillN]
    rcases hasConstruct with _ | _ | _ <;> cases T.wmemsetIsSafe <;> cases isMemsetSafe F value <;>
      simp [hn, hne, heach]

/-- A call does what it should exactly if it takes the objects one by one, or has nothing to do: the
byte-wise ways return `dest`, and do not convert the objects. One by one the copies of a range that
is given by its end do not compile. -/
theorem calls_iff_and_fill_iff (X : Types α β) (c : Call) (hasConstruct : Option Bool) (mem : Memory)
    (first dest : Iterator) (xs : List α)
    (h : Ready X mem (first.place X.source.size) (dest.place X.target.size) xs) {T : Fillable δ}
    (F : Filler T γ) (start : BitVec 64) (n : Nat) (value : γ) (hroom : n * T.size < 2 ^ 64) :
    (Transfers X (dest.place X.target.size) xs (c.run X hasConstruct mem first dest xs.length) ↔
      usesBytes X hasConstruct first dest = true ∧ xs = [] ∨
        usesBytes X hasConstruct first dest = false ∧ c.copiesRange = false) ∧
    (FillsRaw F mem hasConstruct start n value ↔
      n = 0 ∨ hasConstruct = some true ∨ T.wmemsetIsSafe = false ∧ isMemsetSafe F value = false) :=
  ⟨transfers_iff c h, fillsRaw_iff F hroom⟩

end

def ints : Types (BitVec 32) (BitVec 32) where
  source := int32.toLayout
  target := int32.toLayout
  convert v := v
  moved v := v
  isTriviallyCopyable := true
  isSame := true
  size_of_isSame _ := rfl
  code_of_isSame _ _ := rfl

def widening : Types (BitVec 32) (BitVec 64) where
  source := int32.toLayout
  target :=
    { size := 8, size_pos := Nat.succ_pos 7, size_lt := by decide, code := fun v => v.toNat, code_lt := fun v => v.isLt,
      decode := BitVec.ofNat 64, decode_code := fun v => by simp }
  convert v := v.setWidth 64
  moved v := v
  isTriviallyCopyable := true
  isSame := false
  size_of_isSame h := nomatch h
  code_of_isSame h := nomatch h

/-- A five and a seven at the first two places. -/
def fiveSeven : Memory := store (store (fun _ => 255) 0 4 5) 4 4 7

theorem calls_iff_and_fill_iff_two :
    Transfers widening (element 64 8) [5, 7]
      (uninitializedCopyN widening (some false) fiveSeven (.pointer 0) (.pointer 64) 2) ∧
    FillsRaw int32Filler.toFiller fiveSeven none 0 2 1 := by
  have hready : Ready widening fiveSeven (element 0 4) (element 64 8) [5, 7] := by
    constructor
    · intro i v hv
      obtain ⟨rfl, rfl⟩ | ⟨rfl, rfl⟩ : i = 0 ∧ 5 = v ∨ i = 1 ∧ 7 = v := by
        match i with
        | 0 => exact .inl ⟨rfl, Option.some.inj hv⟩
        | 1 => exact .inr ⟨rfl, Option.some.inj hv⟩
        | i + 2 => cases hv
      all_goals rfl
    · exact separate_element 0 (by decide)
    · exact separate_element 64 (by decide)
    · unfold Apart
      decide
  have hcopy := calls_iff_and_fill_iff widening .copyN (some false) fiveSeven (.pointer 0) (.pointer 64) [5, 7] hready
    int32Filler.toFiller 0 0 0 (by decide)
  have hfill := calls_iff_and_fill_iff widening .copyN none fiveSeven (.pointer 0) (.pointer 64) [5, 7] hready
    int32Filler.toFiller 0 2 1 (by decide)
  exact ⟨hcopy.1.mpr (.inr ⟨rfl, rfl⟩), hfill.2.mpr (.inr (.inr ⟨rfl, by decide⟩))⟩

/-- One integer: `dest` is returned. One that should become wider: the upper half is what was there.
A range of a list does not compile. Two zeroes: `first` is returned. -/
theorem uninitializedCopyN_returns_dest :
    (uninitializedCopyN ints none (fun _ => 0) (.pointer 0) (.pointer 64) 1).map Prod.snd = some 0 ∧
    (uninitializedCopyN widening none (store (fun _ => 255) 0 4 7) (.pointer 0) (.pointer 64) 1).map
      (fun r => load r.1 64 8) = some 0xFFFFFFFF00000007 ∧
    (uninitializedCopy ints none (fun _ => 0) (.other fun i => 16 * i) (.pointer 64) 1).isNone ∧
    (uninitializedFillN int32Filler.toFiller (fun _ => 255) none 0 2 0).2 = 0 := by
  decide

end Ktl.UninitializedMemory
