import Ktl.Rotation

/-!
`copy_backward`, `shift_left` and `shift_right`. Objects of types that may be copied
as bytes are shifted by `memmove`, others one by one.
-/
namespace Ktl.RangeShifts

open Cells Loops Rotation Function Option

section

variable {α : Type}

structure Backward (α : Type) where
  cells : Int → Option α
  first : Int
  last : Int
  dLast : Int

/-- The loop of `copy_backward`. -/
def copyBackwardPass (s : Backward α) : Pass (Backward α) (Option ((Int → Option α) × Int)) :=
  if s.first = s.last then .leave (some (s.cells, s.dLast))
  else
    let last := prev .bidirectional s.last
    let dLast := prev .bidirectional s.dLast
    match (s.cells last).bind (assign s.cells dLast) with
    | some c => .again ⟨c, next .bidirectional s.first, last, dLast⟩
    | none => .leave none

def memmove (c : Int → Option α) (dst src : Int) (count : Nat) : Option (Int → Option α) :=
  if ∀ i < count, (c (src + i)).isSome ∧ (c (dst + i)).isSome then some (copied c src dst count) else none

def copyImpl (c : Int → Option α) (first last dFirst : Int) : Option ((Int → Option α) × Int) :=
  if last - first = 0 then some (c, dFirst)
  else (memmove c dFirst first (last - first).toNat).map fun c => (c, dFirst + (last - first))

/-- The loop of `move`; `moved` is what becomes of an object that is moved from. -/
def movePass (moved : α → α) (cat : Category) (last : Int) :
    (Int → Option α) × Int × Int → Pass ((Int → Option α) × Int × Int) (Option ((Int → Option α) × Int))
  | (c, first, dFirst) =>
    if first = last then .leave (some (c, dFirst))
    else
      match transfer moved c first dFirst with
      | some c => .again (c, next cat first, next cat dFirst)
      | none => .leave none

/-- `move` of a range; the loop makes one pass for each object. -/
def move (memcpyable : Bool) (moved : α → α) (cat : Category) (c : Int → Option α) (first last dFirst : Int) :
    Option ((Int → Option α) × Int) :=
  if memcpyable then copyImpl c first last dFirst
  else (run (movePass moved cat last) ((last - first).toNat + 1) (c, first, dFirst)).join

def shiftLeft (memcpyable : Bool) (moved : α → α) (cat : Category) (c : Int → Option α) (first last offset : Int) :
    Option ((Int → Option α) × Int) :=
  if offset ≤ 0 ∨ last - first < offset then some (c, first)
  else move memcpyable moved cat c (advance cat first offset) last first

def toDifference (n : Int) : Int := n.bmod (2 ^ 64)

/-- The loop of `shift_right_impl`. -/
def shiftRightLoop (moved : α → α) (cat : Category) :
    Nat → (Int → Option α) → Int → Int → Option ((Int → Option α) × Int)
  | 0, c, newLast, _ => some (c, newLast)
  | n + 1, c, newLast, current =>
    (transfer moved c current newLast).bind fun c =>
      shiftRightLoop moved cat n c (prev cat newLast) (prev cat current)

/-- `shift_right_impl`; without objects to shift `shift_count - 1` wraps around. -/
def shiftRightImpl (memcpyable : Bool) (moved : α → α) (cat : Category) (c : Int → Option α) (first offset : Int)
    (shiftCount : Nat) : Option ((Int → Option α) × Int) :=
  if memcpyable then (memmove c (first + offset) first shiftCount).map fun c => (c, first + offset)
  else
    shiftRightLoop moved cat shiftCount c (advance cat first (toDifference (offset + shiftCount - 1)))
      (advance cat first (toDifference (shiftCount - 1)))

def shiftRight (memcpyable : Bool) (moved : α → α) (cat : Category) (c : Int → Option α) (first last offset : Int) :
    Option ((Int → Option α) × Int) :=
  if offset ≤ 0 ∨ last - first < offset then some (c, last)
  else shiftRightImpl memcpyable moved cat c first offset (last - first - offset).toNat

end

variable {α : Type} {c c' : Int → Option α} {moved : α → α}

/-- The objects in front of `dLast` are those of the source, and `dLast - n` is returned. -/
def CopiesBackward (c : Int → Option α) (first : Int) (n : Nat) (dLast : Int) : Prop :=
  run copyBackwardPass n ⟨c, first, first + n, dLast⟩ = none ∧
    run copyBackwardPass (n + 1) ⟨c, first, first + n, dLast⟩ = some (some (copied c first (dLast - n) n, dLast - n))

theorem meets_in_the_middle (h : run copyBackwardPass n s = some (some (c, it))) :
    ∃ j : Nat, s.last - s.first = 2 * j ∧ it = s.dLast - j := by
  induction n generalizing s with
  | zero => cases h
  | succ n ih =>
    by_cases hend : s.first = s.last
    · have hpass : copyBackwardPass s = .leave (some (s.cells, s.dLast)) := if_pos hend
      rw [run_succ_leave _ hpass] at h
      cases h
      exact ⟨0, by omega, by omega⟩
    · cases hcopy : (s.cells (s.last - 1)).bind (assign s.cells (s.dLast - 1)) with
      | none =>
        have hpass : copyBackwardPass s = .leave none := by
          simp [copyBackwardPass, if_neg hend, prev, advance, ← Int.sub_eq_add_neg, hcopy]
        rw [run_succ_leave _ hpass] at h
        cases h
      | some c₁ =>
        have hpass : copyBackwardPass s = .again ⟨c₁, s.first + 1, s.last - 1, s.dLast - 1⟩ := by
          simp [copyBackwardPass, if_neg hend, prev, next, advance, ← Int.sub_eq_add_neg, hcopy]
        rw [run_succ_again _ hpass] at h
        obtain ⟨j, hlen, hit⟩ := ih h
        simp only at hlen hit
        exact ⟨j + 1, by omega, by omega⟩

/-- Only the empty range is copied. -/
theorem copiesBackward_iff (c : Int → Option α) (first dLast : Int) (n : Nat) :
    CopiesBackward c first n dLast ↔ n = 0 := by
  constructor
  · rintro ⟨_, hreturns⟩
    obtain ⟨j, hlen, hit⟩ := meets_in_the_middle hreturns
    simp only at hlen hit
    omega
  · rintro rfl
    have hempty : copied c first (dLast - (0 : Nat)) (0 : Nat) = c := by
      funext k
      exact if_neg (by omega)
    have hpass : copyBackwardPass ⟨c, first, first + (0 : Nat), dLast⟩ = .leave (some (c, dLast)) :=
      if_pos (by simp)
    refine ⟨rfl, ?_⟩
    rw [run_succ_leave _ hpass, hempty, Int.natCast_zero, Int.sub_zero]

/-- Of two objects one is copied; after a single one the loop goes on in front of the
source. -/
theorem copyBackward_stops_halfway : (run copyBackwardPass 2 ⟨ofList [1, 2, 0, 0], 0, 2, 4⟩).map
      (Option.map fun r => ([r.1 0, r.1 1, r.1 2, r.1 3], r.2)) = some (some ([some 1, some 2, some 0, some 2], 3)) ∧
    (run copyBackwardPass 2 ⟨ofList [1, 0], 0, 1, 2⟩).map Option.isNone = some true := by
  decide +kernel

section

variable {c' : Int → Option α}

def passed (moved : α → α) (c : Int → Option α) (src dst : Int) (v : α) : Int → Option α :=
  update (update c src (some (moved v))) dst (some v)

theorem transfer_eq (hsrc : c src = some v) (hdst : (c dst).isSome) :
    transfer moved c src dst = some (passed moved c src dst v) := by
  have hdst' : (update c src (some (moved v)) dst).isSome := by
    by_cases heq : dst = src
    · rw [heq, update_self]
      rfl
    · rwa [update_of_ne heq]
  simp [transfer, hsrc, assign, hdst', passed]

theorem copied_front (hn : 0 < n) (hv : c src = some v) (hne : dst < src) :
    copied (update c dst (some v)) (src + 1) (dst + 1) (n - 1) = copied c src dst n := by
  funext k
  unfold copied
  by_cases hk : k = dst
  · have hindex : k - dst + src = src := by omega
    rw [if_neg (by omega), if_pos (by omega), hindex, hk, update_self, hv]
  · by_cases hin : dst ≤ k ∧ k < dst + n
    · have hindex : k - (dst + 1) + (src + 1) = k - dst + src := by omega
      rw [if_pos (by omega), if_pos hin, hindex, update_of_ne (by omega)]
    · rw [if_neg (by omega), if_neg hin, update_of_ne hk]

theorem copied_back {n : Nat} (hv : c (src + n) = some v) (hne : src < dst) :
    copied (update c (dst + n) (some v)) src dst n = copied c src dst (n + 1 : Nat) := by
  funext k
  unfold copied
  by_cases hk : k = dst + n
  · have hindex : k - dst + src = src + n := by omega
    rw [if_neg (by omega), if_pos (by omega), hindex, hk, update_self, hv]
  · by_cases hin : dst ≤ k ∧ k < dst + n
    · rw [if_pos hin, if_pos (by omega), update_of_ne (by omega)]
    · rw [if_neg hin, if_neg (by omega), update_of_ne hk]

/-- The objects have got to their new places; where they were, only objects that are the same after
they are moved from are still as before. -/
structure Moved (moved : α → α) (c : Int → Option α) (src dst n : Int) (c' : Int → Option α) : Prop where
  there : ∀ k, dst ≤ k → k < dst + n → c' k = c (k - dst + src)
  elsewhere : ∀ k, ¬ (src ≤ k ∧ k < src + n) → ¬ (dst ≤ k ∧ k < dst + n) → c' k = c k
  trivially : moved = id → c' = copied c src dst n

theorem moved_zero (moved : α → α) : Moved moved c src dst (0 : Nat) c := by
  constructor
  · intro k hk hk'
    omega
  · intro k _ _
    rfl
  · intro _
    funext k
    exact (if_neg (by omega)).symm

theorem passed_dst : passed moved c src dst v dst = some v := update_self _ _ _
theorem passed_other (hsrc : k ≠ src) (hdst : k ≠ dst) : passed moved c src dst v k = c k := by
  rw [passed, update_of_ne hdst, update_of_ne hsrc]
theorem passed_id (hv : c src = some v) : passed id c src dst v = update c dst (some v) := by
  rw [passed, id, ← hv, update_eq_self]

theorem Moved.front {n : Nat} (hv : c src = some v) (hne : dst < src)
    (h : Moved moved (passed moved c src dst v) (src + 1) (dst + 1) n c') : Moved moved c src dst (n + 1 : Nat) c' := by
  constructor
  · intro k hk hk'
    by_cases hkd : k = dst
    · have hindex : k - dst + src = src := by omega
      rw [hindex, hv, h.elsewhere k (by omega) (by omega), hkd, passed_dst]
    · have hindex : k - (dst + 1) + (src + 1) = k - dst + src := by omega
      simp (disch := omega) only [h.there, hindex, passed_other]
  · intro k hk hk'
    simp (disch := omega) only [h.elsewhere, passed_other]
  · rintro rfl
    have hcount : (n : Int) = ((n + 1 : Nat) : Int) - 1 := by omega
    rw [h.trivially rfl, passed_id hv, hcount, copied_front (by omega) hv hne]

theorem Moved.back {n : Nat} (hv : c (src + n) = some v) (hne : src < dst)
    (h : Moved moved (passed moved c (src + n) (dst + n) v) src dst n c') : Moved moved c src dst (n + 1 : Nat) c' := by
  constructor
  · intro k hk hk'
    by_cases hkd : k = dst + n
    · have hindex : k - dst + src = src + n := by omega
      rw [hindex, hv, h.elsewhere k (by omega) (by omega), hkd, passed_dst]
    · simp (disch := omega) only [h.there, passed_other]
  · intro k hk hk'
    simp (disch := omega) only [h.elsewhere, passed_other]
  · rintro rfl
    rw [h.trivially rfl, passed_id hv, copied_back hv hne]

theorem move_elements (moved : α → α) (cat : Category) (src dst : Int) (n : Nat) (hn : last = src + n) (hne : dst < src)
    (hfull : Full c dst last) :
    ∃ c', run (movePass moved cat last) (n + 1) (c, src, dst) = some (some (c', dst + n)) ∧
      Moved moved c src dst n c' := by
  induction n generalizing c src dst with
  | zero =>
    have hpass : movePass moved cat last (c, src, dst) = .leave (some (c, dst)) := if_pos (by omega)
    exact ⟨c, by rw [run_succ_leave _ hpass, Int.natCast_zero, Int.add_zero], moved_zero moved⟩
  | succ n ih =>
    obtain ⟨v, hv⟩ := isSome_iff_exists.mp (hfull src (by omega) (by omega))
    have hdst := hfull dst (by omega) (by omega)
    have hpass : movePass moved cat last (c, src, dst) = .again (passed moved c src dst v, src + 1, dst + 1) := by
      simp [movePass, if_neg (show ¬ src = last by omega), transfer_eq hv hdst, next_eq]
    obtain ⟨c', hrun, hmoved⟩ := ih (src + 1) (dst + 1) (by omega) (by omega)
      (hfull.update.update.mono (show dst ≤ dst + 1 by omega) (Int.le_refl last))
    have hend : dst + 1 + n = dst + (n + 1 : Nat) := by omega
    rw [run_succ_again _ hpass, ← hend]
    exact ⟨c', hrun, hmoved.front hv hne⟩

theorem shiftRight_elements (moved : α → α) (hcat : cat ≠ .forward) (n : Nat) (hne : src < dst)
    (hfull : Full c src (dst + n)) :
    ∃ c', shiftRightLoop moved cat n c (dst + n - 1) (src + n - 1) = some (c', dst - 1) ∧
      Moved moved c src dst n c' := by
  have hprev : ∀ it, prev cat it = it - 1 := by
    intro it
    cases cat with
    | forward => exact absurd rfl hcat
    | bidirectional | randomAccess => rfl
  induction n generalizing c with
  | zero => exact ⟨c, by rw [shiftRightLoop, Int.natCast_zero, Int.add_zero], moved_zero moved⟩
  | succ n ih =>
    obtain ⟨v, hv⟩ := isSome_iff_exists.mp (hfull (src + n) (by omega) (by omega))
    have hdst := hfull (dst + n) (by omega) (by omega)
    obtain ⟨c', hrun, hmoved⟩ := ih (hfull.update.update.mono (Int.le_refl src)
      (show dst + n ≤ dst + (n + 1 : Nat) by omega))
    have hlast : dst + (n + 1 : Nat) - 1 = dst + n := by omega
    have hcurrent : src + (n + 1 : Nat) - 1 = src + n := by omega
    rw [shiftRightLoop, hlast, hcurrent, transfer_eq hv hdst, bind_some, hprev, hprev]
    exact ⟨c', hrun, hmoved.back hv hne⟩

theorem shiftRightLoop_forward (h : shiftRightLoop moved .forward n c newLast current = some (c', it)) :
    it = newLast := by
  have hprev : ∀ it, prev .forward it = it := fun it => Int.add_zero it
  induction n generalizing c with
  | zero =>
    cases h
    rfl
  | succ n ih =>
    rw [shiftRightLoop, hprev, hprev] at h
    obtain ⟨c₁, _, hrest⟩ := bind_eq_some_iff.mp h
    exact ih hrest

theorem full_memmove (hsrc : Full c src (src + last)) (hdst : Full c dst (dst + last)) (hlast : 0 ≤ last) :
    memmove c dst src last.toNat = some (copied c src dst last) := by
  have hcount : ((last.toNat : Nat) : Int) = last := by omega
  rw [memmove, hcount]
  exact if_pos fun i hi => ⟨hsrc _ (by omega) (by omega), hdst _ (by omega) (by omega)⟩

theorem moved_copied (moved : α → α) : Moved moved c src dst n (copied c src dst n) :=
  ⟨fun _ hk hk' => if_pos ⟨hk, hk'⟩, fun _ _ hk => if_neg hk, fun _ => rfl⟩
theorem Moved.eq_of_empty (h : Moved moved c src dst n c') (hn : n ≤ 0) : c' = c :=
  funext fun k => h.elsewhere k (by omega) (by omega)

theorem shiftLeft_inside (memcpyable : Bool) (moved : α → α) (cat : Category)
    (xs : List α) {offset : Int} (hpos : 0 < offset) (hoff : offset ≤ xs.length) :
    ∃ c', shiftLeft memcpyable moved cat (ofList xs) 0 xs.length offset = some (c', xs.length - offset) ∧
      Moved moved (ofList xs) offset 0 (xs.length - offset) c' := by
  have hadvance : advance cat 0 offset = offset := by
    cases cat with
    | forward =>
      rw [advance]
      omega
    | bidirectional | randomAccess => exact Int.zero_add offset
  rw [shiftLeft, if_neg (by omega), hadvance, move]
  split
  · rw [copyImpl]
    split_ifs with hnone
    · have hempty : copied (ofList xs) offset 0 (xs.length - offset) = ofList xs := by
        rw [hnone]
        exact funext fun k => if_neg (by omega)
      have hmoved : Moved moved (ofList xs) offset 0 (xs.length - offset)
        (copied (ofList xs) offset 0 (xs.length - offset)) :=
        moved_copied moved
      rw [hempty] at hmoved
      exact ⟨ofList xs, by rw [hnone], hmoved⟩
    · rw [full_memmove (fun k hk hk' => ofList_isSome.mpr (by omega)) (fun k hk hk' => ofList_isSome.mpr (by omega))
        (by omega), map_some, Int.zero_add]
      exact ⟨_, rfl, moved_copied moved⟩
  · obtain ⟨n, hn⟩ : ∃ n : Nat, (xs.length : Int) - offset = n := ⟨((xs.length : Int) - offset).toNat, by omega⟩
    obtain ⟨c', hrun, hmoved⟩ := move_elements moved cat offset 0 n
      (show (xs.length : Int) = offset + n by omega) hpos (full_ofList xs)
    rw [hn, Int.toNat_natCast, hrun, Int.zero_add]
    exact ⟨c', rfl, hmoved⟩

theorem shiftRight_bytes (moved : α → α) (cat : Category) {offset : Int} (hpos : 0 < offset)
    (hoff : offset ≤ xs.length) :
    shiftRight true moved cat (ofList xs) 0 xs.length offset =
      some (copied (ofList xs) 0 offset (xs.length - offset), offset) := by
  rw [shiftRight, if_neg (by omega), shiftRightImpl, if_pos rfl, Int.sub_zero, Int.zero_add,
    full_memmove (fun k hk hk' => ofList_isSome.mpr (by omega)) (fun k hk hk' => ofList_isSome.mpr (by omega))
      (by omega)]
  rfl

theorem toDifference_eq (hlow : -1 ≤ n) (hhigh : n < 2 ^ 63) : toDifference n = n := by
  rw [toDifference, Int.bmod_eq_of_le] <;> omega

theorem shiftRight_start (moved : α → α) (cat : Category) {offset : Int} (hpos : 0 < offset) (hoff : offset ≤ xs.length)
    (hlen : xs.length < 2 ^ 63) : ∃ n : Nat, (n : Int) = xs.length - offset ∧
      shiftRight false moved cat (ofList xs) 0 xs.length offset =
        shiftRightLoop moved cat n (ofList xs) (advance cat 0 (xs.length - 1)) (advance cat 0 (n - 1)) := by
  obtain ⟨n, hn⟩ : ∃ n : Nat, (n : Int) = xs.length - offset := ⟨((xs.length : Int) - offset).toNat, by omega⟩
  have hcount : ((xs.length : Int) - 0 - offset).toNat = n := by omega
  have hlast : offset + n - 1 = xs.length - 1 := by omega
  refine ⟨n, hn, ?_⟩
  simp (disch := omega) only [shiftRight, if_neg, shiftRightImpl, if_neg Bool.false_ne_true, hcount, hlast,
    toDifference_eq]

theorem shiftRight_one (moved : α → α) {offset : Int} (hpos : 0 < offset) (hoff : offset + 1 = xs.length) :
    ∃ c', shiftRightLoop moved .forward 1 (ofList xs) offset 0 = some (c', offset) ∧
      Moved moved (ofList xs) 0 offset 1 c' := by
  have hnotForward : Category.bidirectional ≠ .forward := nofun
  obtain ⟨c', hloop, hmoved⟩ := shiftRight_elements (c := ofList xs) moved hnotForward 1 hpos
    (fun k hk hk' => ofList_isSome.mpr (by omega))
  rw [Int.natCast_one, Int.add_sub_cancel, Int.add_sub_cancel] at hloop
  obtain ⟨c₁, htransfer, hrest⟩ := bind_eq_some_iff.mp hloop
  cases hrest
  refine ⟨c', ?_, hmoved⟩
  rw [shiftRightLoop, htransfer]
  exact congrArg (fun it => some (c', it)) (Int.add_zero offset)

/-- The objects are shifted to the front and their end is returned, or all is as it was. -/
def ShiftsLeft (xs : List α) (offset : Int) (r : Option ((Int → Option α) × Int)) : Prop :=
  ∃ c' it, r = some (c', it) ∧
    if 0 < offset ∧ offset < xs.length then
      (∀ k, 0 ≤ k → k < xs.length - offset → c' k = ofList xs (k + offset)) ∧ it = xs.length - offset
    else c' = ofList xs

def ShiftsRight (xs : List α) (offset : Int) (r : Option ((Int → Option α) × Int)) : Prop :=
  ∃ c' it, r = some (c', it) ∧
    if 0 < offset ∧ offset < xs.length then
      (∀ k, offset ≤ k → k < xs.length → c' k = ofList xs (k - offset)) ∧ it = offset
    else c' = ofList xs

/-- The same iterator, and the same objects if being moved from does not change them. -/
def Agree (moved : α → α) (r r' : Option ((Int → Option α) × Int)) : Prop :=
  r.map Prod.snd = r'.map Prod.snd ∧ (moved = id → r = r')

structure Shifts (moved : α → α) (cat : Category) (xs : List α) (offset : Int) : Prop where
  left : ∀ memcpyable, ShiftsLeft xs offset (shiftLeft memcpyable moved cat (ofList xs) 0 xs.length offset)
  right : ∀ memcpyable, ShiftsRight xs offset (shiftRight memcpyable moved cat (ofList xs) 0 xs.length offset)
  left_agree : Agree moved (shiftLeft true moved cat (ofList xs) 0 xs.length offset)
    (shiftLeft false moved cat (ofList xs) 0 xs.length offset)
  right_agree : Agree moved (shiftRight true moved cat (ofList xs) 0 xs.length offset)
    (shiftRight false moved cat (ofList xs) 0 xs.length offset)

theorem shiftLeft_outside (memcpyable : Bool) (h : offset ≤ 0 ∨ (xs.length : Int) < offset) :
    shiftLeft memcpyable moved cat (ofList xs) 0 xs.length offset = some (ofList xs, 0) :=
  if_pos (by omega)

theorem shiftRight_outside (memcpyable : Bool) (h : offset ≤ 0 ∨ (xs.length : Int) < offset) :
    shiftRight memcpyable moved cat (ofList xs) 0 xs.length offset = some (ofList xs, (xs.length : Int)) :=
  if_pos (by omega)

theorem shiftsLeft (memcpyable : Bool) :
    ShiftsLeft xs offset (shiftLeft memcpyable moved cat (ofList xs) 0 xs.length offset) := by
  by_cases hout : offset ≤ 0 ∨ (xs.length : Int) < offset
  · exact ⟨_, _, shiftLeft_outside memcpyable hout, by rw [if_neg (by omega)]⟩
  · obtain ⟨c', hcall, hmoved⟩ := shiftLeft_inside memcpyable moved cat xs (show 0 < offset by omega) (by omega)
    refine ⟨c', _, hcall, ?_⟩
    split
    · refine ⟨fun k hk hk' => ?_, rfl⟩
      rw [hmoved.there k hk (by omega), Int.sub_zero]
    · exact hmoved.eq_of_empty (by omega)

theorem shiftLeft_agree : Agree moved (shiftLeft true moved cat (ofList xs) 0 xs.length offset)
    (shiftLeft false moved cat (ofList xs) 0 xs.length offset) := by
  by_cases hout : offset ≤ 0 ∨ (xs.length : Int) < offset
  · rw [shiftLeft_outside true hout, shiftLeft_outside false hout]
    exact ⟨rfl, fun _ => rfl⟩
  · obtain ⟨c₁, hbytes, hmoved₁⟩ := shiftLeft_inside true moved cat xs (show 0 < offset by omega) (by omega)
    obtain ⟨c₂, helements, hmoved₂⟩ := shiftLeft_inside false moved cat xs (show 0 < offset by omega) (by omega)
    rw [hbytes, helements]
    exact ⟨rfl, fun hid => by rw [hmoved₁.trivially hid, hmoved₂.trivially hid]⟩

theorem shiftsRight_of_moved (hpos : 0 < offset) (h : r = some (c', offset))
    (hmoved : Moved moved (ofList xs) 0 offset (xs.length - offset) c') : ShiftsRight xs offset r := by
  refine ⟨c', offset, h, ?_⟩
  split
  · refine ⟨fun k hk hk' => ?_, rfl⟩
    rw [hmoved.there k hk (by omega), Int.add_zero]
  · exact hmoved.eq_of_empty (by omega)

theorem shiftRight_returns {it : Int} (hpos : 0 < offset) (hoff : offset ≤ xs.length) (hlen : xs.length < 2 ^ 63)
    (h : shiftRight false moved cat (ofList xs) 0 xs.length offset = some (c', it)) :
    it = if cat = .forward then (xs.length : Int) - 1 else offset - 1 := by
  obtain ⟨n, hn, hstart⟩ := shiftRight_start moved cat hpos hoff hlen
  rw [hstart] at h
  by_cases hcat : cat = .forward
  · subst hcat
    have hlast : advance .forward 0 ((xs.length : Int) - 1) = xs.length - 1 := by
      rw [advance]
      omega
    rw [if_pos rfl, shiftRightLoop_forward h, hlast]
  · have hplain : ∀ k, advance cat 0 k = k := by
      intro k
      cases cat with
      | forward => exact absurd rfl hcat
      | bidirectional | randomAccess => exact Int.zero_add k
    obtain ⟨d, hloop, _⟩ := shiftRight_elements (c := ofList xs) moved hcat n hpos
      fun k hk hk' => ofList_isSome.mpr (by omega)
    have hlast : (xs.length : Int) - 1 = offset + n - 1 := by omega
    have hcurrent : (n : Int) - 1 = 0 + n - 1 := by omega
    rw [hplain, hplain, hlast, hcurrent, hloop] at h
    cases h
    rw [if_neg hcat]

/-- Element by element `shift_right` is wrong, except for forward iterators and a single object. -/
theorem shifts_iff (moved : α → α) (cat : Category) (xs : List α) (offset : Int) (hlen : xs.length < 2 ^ 63) :
    Shifts moved cat xs offset ↔ offset ≤ 0 ∨ (xs.length : Int) < offset ∨ cat = .forward ∧ offset + 1 = xs.length := by
  by_cases hout : offset ≤ 0 ∨ (xs.length : Int) < offset
  · refine iff_of_true ⟨shiftsLeft, fun memcpyable => ?_, shiftLeft_agree, ?_⟩ (hout.imp_right .inl)
    · exact ⟨_, _, shiftRight_outside memcpyable hout, by rw [if_neg (by omega)]⟩
    · rw [shiftRight_outside true hout, shiftRight_outside false hout]
      exact ⟨rfl, fun _ => rfl⟩
  · obtain ⟨hpos, hoff⟩ : 0 < offset ∧ offset ≤ xs.length := by omega
    rw [or_iff_right (by omega), or_iff_right (by omega)]
    have hbytes := shiftRight_bytes moved cat hpos hoff
    constructor
    · rintro ⟨_, hright, _, hsame, _⟩
      obtain ⟨c', it, hcall, _⟩ := hright false
      have hit := shiftRight_returns hpos hoff hlen hcall
      rw [hbytes, hcall, map_some, map_some, some_inj] at hsame
      simp only at hsame
      split_ifs at hit with hcat
      · exact ⟨hcat, by omega⟩
      · omega
    · rintro ⟨rfl, hlast⟩
      obtain ⟨c', hloop, hmoved⟩ := shiftRight_one moved hpos hlast
      obtain ⟨n, hn, hstart⟩ := shiftRight_start moved .forward hpos hoff hlen
      obtain rfl : n = 1 := by omega
      have hfirst : advance .forward 0 ((xs.length : Int) - 1) = offset := by
        rw [advance]
        omega
      have helements : shiftRight false moved .forward (ofList xs) 0 xs.length offset = some (c', offset) := by
        rw [hstart, hfirst]
        exact hloop
      rw [← Int.natCast_one, hn] at hmoved
      refine ⟨shiftsLeft, ?_, shiftLeft_agree, ?_⟩
      · rintro (_ | _)
        · exact shiftsRight_of_moved hpos helements hmoved
        · exact shiftsRight_of_moved hpos hbytes (moved_copied moved)
      · rw [hbytes, helements]
        exact ⟨rfl, fun hid => by rw [hmoved.trivially hid]⟩

/-- The first of three objects is shifted to the last place, and is zero afterwards. -/
theorem shifts_iff_three : Shifts (fun _ => 0) .forward [1, 2, 3] 2 :=
  (shifts_iff (fun _ => 0) .forward [1, 2, 3] 2 (by decide)).mpr (.inr (.inr ⟨rfl, by decide⟩))

/-- Of three objects: `memmove` returns the beginning of the shifted ones, the loop the place
before. -/
theorem shiftRight_returns_too_early :
    (shiftRight true id .randomAccess (ofList [1, 2, 3]) 0 3 1).map Prod.snd = some 1 ∧
    (shiftRight false id .randomAccess (ofList [1, 2, 3]) 0 3 1).map Prod.snd = some 0 := by
  decide +kernel

end

end Ktl.RangeShifts
