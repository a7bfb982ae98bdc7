import Ktl.HashTable
import Ktl.RobinHood
import Mathlib.Data.Nat.Bitwise

/-!
The order that the operations keep in an array: every node has the info that belongs to its
hash and its slot, the infos are in robin hood order, and an empty slot is left for every
insertion. So the loops of the source stay inside of the array.
-/
namespace Ktl.HashTable

open RobinHood

variable {α β : Type*} {c : Config α} {t : Table α β} {key : α}

/-! ## Sizes -/

def Room (c : Config α) (numBuckets : Nat) : Prop :=
  (numBuckets + min (c.calcMaxNumElementsAllowed numBuckets) 0xFF) * (c.nodeSize + 1) + 8 < 2 ^ 64
deriving Decidable

namespace Config

section

variable (h : Room c numBuckets)

include h

theorem slots_lt : (numBuckets + min (c.calcMaxNumElementsAllowed numBuckets) 0xFF) * c.nodeSize
      + (numBuckets + min (c.calcMaxNumElementsAllowed numBuckets) 0xFF) + 8 < 2 ^ 64 := by
  rw [Room, Nat.mul_add, Nat.mul_one] at h
  exact h

theorem calcNumElementsWithBuffer_eq : c.calcNumElementsWithBuffer numBuckets
      = numBuckets + min (c.calcMaxNumElementsAllowed numBuckets) 0xFF := by
  have hlt := slots_lt h
  exact Nat.mod_eq_of_lt (by omega)

theorem calcNumBytesInfo_eq : calcNumBytesInfo (c.calcNumElementsWithBuffer numBuckets)
      = c.calcNumElementsWithBuffer numBuckets + 8 := by
  have hlt := slots_lt h
  rw [calcNumElementsWithBuffer_eq h]
  exact Nat.mod_eq_of_lt (by omega)

theorem calcNumBytesTotal_eq : c.calcNumBytesTotal (c.calcNumElementsWithBuffer numBuckets)
      = c.calcNumElementsWithBuffer numBuckets * c.nodeSize + (c.calcNumElementsWithBuffer numBuckets + 8) := by
  have hlt := slots_lt h
  rw [calcNumBytesTotal, calcNumBytesInfo_eq h, calcNumElementsWithBuffer_eq h]
  exact Nat.mod_eq_of_lt (by omega)

theorem two_pow_lt : numBuckets < 2 ^ 63 := by
  have hlt := slots_lt h
  have hnodes := Nat.le_mul_of_pos_right (numBuckets + min (c.calcMaxNumElementsAllowed numBuckets) 0xFF) c.nodeSize_pos
  omega

end

theorem calcMaxNumElementsAllowed_lt_double (c : Config α) (h : 8 ≤ numBuckets) :
    c.calcMaxNumElementsAllowed numBuckets < c.calcMaxNumElementsAllowed (numBuckets * 2) := by
  have hgt := c.loadFactor_gt
  have hscaled : numBuckets * 11 ≤ numBuckets * c.maxLoadFactor100 := Nat.mul_le_mul_left _ hgt
  rw [calcMaxNumElementsAllowed, calcMaxNumElementsAllowed]
  split
  · split
    · rw [Nat.mul_right_comm]
      omega
    · -- the larger table is the first for which the quotient is taken first
      have hlow : numBuckets * c.maxLoadFactor100 / 100 < (numBuckets / 100 + 1) * c.maxLoadFactor100 := by
        rw [Nat.div_lt_iff_lt_mul (by decide), Nat.mul_right_comm]
        apply Nat.mul_lt_mul_of_pos_right _ (by omega)
        omega
      have hhigh : (numBuckets / 100 + 1) * c.maxLoadFactor100
          ≤ numBuckets * 2 / 100 * c.maxLoadFactor100 := Nat.mul_le_mul_right _ (by omega)
      omega
  · rw [if_neg (by omega)]
    exact Nat.mul_lt_mul_of_pos_right (by omega) (by omega)

end Config

/-! ## Layout -/

def hashOf (c : Config α) (key : α) : Nat := (c.mix (c.hasher key)).toNat

def homeOf (c : Config α) (numBuckets : Nat) (key : α) : Nat := hashOf c key / 32 % numBuckets

def bitsOf (c : Config α) (shift : Nat) (key : α) : Nat := hashOf c key % 32 / 2 ^ shift

def keyInfo (c : Config α) (t : Table α β) (key : α) (idx : Nat) : Nat :=
  infoAt t.infoInc (homeOf c (t.mask + 1) key) (bitsOf c t.infoHashShift key) idx

def entries (c : Config α) (t : Table α β) : List (α × β) := entriesFrom t.keyVals 0 (slotCount c t)

def Roomy (c : Config α) (t : Table α β) : Prop := ∀ idx < slotCount c t, t.info idx + t.infoInc ≤ 0xFF

structure Layout (c : Config α) (t : Table α β) : Prop where
  buckets : ∃ k, 3 ≤ k ∧ t.mask + 1 = 2 ^ k
  room : Room c (t.mask + 1)
  shift_le : t.infoHashShift ≤ 4
  inc_eq : t.infoInc = 2 ^ (5 - t.infoHashShift)
  vacant : ∀ idx < slotCount c t, t.keyVals idx = none → t.info idx = 0
  occupied : ∀ idx node, idx < slotCount c t → t.keyVals idx = some node →
    homeOf c (t.mask + 1) node.1 ≤ idx ∧ t.info idx = keyInfo c t node.1 idx
  ordered : Ordered t.infoInc t.info
  sentinel : t.info (slotCount c t) = 1
  padding : ∀ idx, slotCount c t < idx → t.info idx = 0
  byte : ∀ idx, t.info idx ≤ 0xFF
  size : t.numElements = (entries c t).length
  load : t.numElements ≤ c.calcMaxNumElementsAllowed (t.mask + 1)
  limit : t.maxNumElementsAllowed = 0 ∨ t.maxNumElementsAllowed = c.calcMaxNumElementsAllowed (t.mask + 1) ∧ Roomy c t
  distinct : (entries c t).Pairwise fun x y => c.keyEqual x.1 y.1 = false

def Absent (c : Config α) (t : Table α β) (key : α) : Prop :=
  ∀ node ∈ entries c t, c.keyEqual key node.1 = false

theorem homeOf_eq_of_keyEqual (h : c.keyEqual x y = true) (numBuckets : Nat) :
    homeOf c numBuckets x = homeOf c numBuckets y := by
  rw [homeOf, homeOf, hashOf, hashOf, c.hasher_eq x y h]

theorem keyInfo_eq_of_keyEqual (h : c.keyEqual x y = true) (idx : Nat) : keyInfo c t x idx = keyInfo c t y idx := by
  rw [keyInfo, keyInfo, homeOf_eq_of_keyEqual h, bitsOf, bitsOf, hashOf, hashOf, c.hasher_eq x y h]

namespace Layout

theorem homeOf_le_mask (c : Config α) (t : Table α β) (key : α) : homeOf c (t.mask + 1) key ≤ t.mask :=
  Nat.le_of_lt_succ (Nat.mod_lt _ (by omega))

theorem inc_le_keyInfo (c : Config α) (t : Table α β) (key : α) (idx : Nat) : t.infoInc ≤ keyInfo c t key idx := by
  have hle := le_infoAt t.infoInc (homeOf c (t.mask + 1) key) (bitsOf c t.infoHashShift key) idx
  rw [keyInfo]
  omega

theorem keyInfo_succ (hidx : homeOf c (t.mask + 1) key ≤ idx) :
    keyInfo c t key (idx + 1) = keyInfo c t key idx + t.infoInc :=
  infoAt_succ hidx

section
variable (h : Layout c t)
include h

theorem slotCount_eq : slotCount c t = t.mask + 1 + min (c.calcMaxNumElementsAllowed (t.mask + 1)) 0xFF :=
  Config.calcNumElementsWithBuffer_eq h.room
theorem infoBytes_eq : infoBytes c t = slotCount c t + 8 :=
  Config.calcNumBytesInfo_eq h.room

theorem mask_pos : 7 ≤ t.mask := by
  obtain ⟨k, hk, hmask⟩ := h.buckets
  have hpow : 2 ^ 3 ≤ 2 ^ k := Nat.pow_le_pow_right (by decide) hk
  omega

theorem endIdx_eq : endIdx c t = slotCount c t := by
  have hpos := h.mask_pos
  exact if_neg (by omega)

theorem two_le_inc : 2 ≤ t.infoInc := by
  have hshift := h.shift_le
  have hpow : 2 ^ 1 ≤ 2 ^ (5 - t.infoHashShift) := Nat.pow_le_pow_right (by decide) (by omega)
  rw [h.inc_eq]
  omega

theorem bitsOf_lt (key : α) : bitsOf c t.infoHashShift key < t.infoInc := by
  have hshift := h.shift_le
  rw [bitsOf, h.inc_eq, Nat.div_lt_iff_lt_mul (Nat.pow_pos (by decide)), ← Nat.pow_add]
  have hfive : 5 - t.infoHashShift + t.infoHashShift = 5 := by omega
  rw [hfive]
  exact Nat.mod_lt _ (by decide)

theorem homeOf_lt (key : α) : homeOf c (t.mask + 1) key < slotCount c t := by
  have hlt : homeOf c (t.mask + 1) key < t.mask + 1 := Nat.mod_lt _ (by omega)
  have hslots := h.slotCount_eq
  omega

theorem keyToIdx_eq (key : α) : keyToIdx c t key
      = (keyInfo c t key (homeOf c (t.mask + 1) key), homeOf c (t.mask + 1) key) := by
  obtain ⟨k, hk, hmask⟩ := h.buckets
  have hlow : hashOf c key &&& infoMask = hashOf c key % 32 := Nat.and_two_pow_sub_one_eq_mod _ 5
  have hhigh : (hashOf c key >>> initialInfoNumBits) &&& t.mask = hashOf c key / 32 % (t.mask + 1) := by
    have hpred : t.mask = 2 ^ k - 1 := by omega
    rw [hpred, Nat.and_two_pow_sub_one_eq_mod, Nat.shiftRight_eq_div_pow, Nat.sub_add_cancel Nat.one_le_two_pow]
    rfl
  rw [keyToIdx]
  change (t.infoInc + (hashOf c key &&& infoMask) >>> t.infoHashShift,
    (hashOf c key >>> initialInfoNumBits) &&& t.mask) = _
  rw [hlow, hhigh, keyInfo, infoAt_home, bitsOf, Nat.shiftRight_eq_div_pow]
  rfl

theorem node_of_inc_le (idx : Nat) (hinfo : 2 ≤ t.info idx) :
    idx < slotCount c t ∧ ∃ node, t.keyVals idx = some node := by
  have hlt : idx < slotCount c t := by
    rcases Nat.lt_trichotomy idx (slotCount c t) with hlt | heq | hgt
    · exact hlt
    · have hsentinel := h.sentinel
      rw [heq] at hinfo
      omega
    · have hpadding := h.padding idx hgt
      omega
  refine ⟨hlt, Option.ne_none_iff_exists'.mp fun hnone => ?_⟩
  have hzero := h.vacant idx hlt hnone
  omega

theorem info_eq_zero_iff (hidx : idx < slotCount c t) : t.info idx = 0 ↔ t.keyVals idx = none := by
  constructor
  · intro hzero
    cases hnode : t.keyVals idx with
    | none => rfl
    | some node =>
      have hinfo := (h.occupied idx node hidx hnode).2
      have hle := inc_le_keyInfo c t node.1 idx
      have htwo := h.two_le_inc
      omega
  · exact h.vacant idx hidx

theorem sentinel_lt_keyInfo (key : α) : t.info (slotCount c t) < keyInfo c t key (slotCount c t) := by
  have hle := inc_le_keyInfo c t key (slotCount c t)
  have htwo := h.two_le_inc
  rw [h.sentinel]
  omega

end

end Layout

/-! ## Searching -/

theorem nextWhile_eq (go : Nat → Nat → Bool) (left : Nat) {info : Nat → Nat}
    (hinfo : ∀ i, idx ≤ i → info (i + 1) = info i + inc) (hle : idx ≤ stop) (hleft : stop < idx + left)
    (hstop : go (info stop) stop = false) :
    ∃ last, idx ≤ last ∧ last ≤ stop ∧ nextWhile inc go left (info idx) idx = some (info last, last) ∧
      go (info last) last = false ∧ ∀ i, idx ≤ i → i < last → go (info i) i = true := by
  induction left generalizing idx with
  | zero => omega
  | succ left ih =>
    cases hgo : go (info idx) idx with
    | false => exact ⟨idx, le_rfl, hle, by rw [nextWhile, hgo]; rfl, hgo, by omega⟩
    | true =>
      have hne : idx ≠ stop := by
        rintro rfl
        rw [hstop] at hgo
        cases hgo
      have hnext : idx + 1 ≤ stop := by omega
      obtain ⟨last, hlast, hlaststop, hrun, hends, hpassed⟩ :=
        ih (fun i hi => hinfo i (by omega)) hnext (by omega)
      refine ⟨last, by omega, hlaststop, ?_, hends, fun i hi hilast => ?_⟩
      · rw [nextWhile, if_pos hgo, ← hinfo idx le_rfl, hrun]
      · rcases Nat.eq_or_lt_of_le hi with rfl | hlt
        · exact hgo
        · exact hpassed i hlt hilast

def IsAt (c : Config α) (t : Table α β) (key : α) (idx : Nat) : Prop :=
  t.info idx = keyInfo c t key idx ∧ ∃ node, t.keyVals idx = some node ∧ c.keyEqual key node.1 = true

def Searched (c : Config α) (t : Table α β) (key : α) (idx : Nat) : Option Nat → Prop
  | some found => idx ≤ found ∧ IsAt c t key found
  | none => ∃ last, idx ≤ last ∧ t.info last < keyInfo c t key last ∧ ∀ i, idx ≤ i → i < last → ¬ IsAt c t key i

namespace Layout

theorem searched_of_missed (hidx : idx ≤ idx') (hmissed : ∀ i, idx ≤ i → i < idx' → ¬ IsAt c t key i)
    (h : Searched c t key idx' found) : Searched c t key idx found := by
  cases found with
  | some found => exact ⟨by have := h.1; omega, h.2⟩
  | none =>
    obtain ⟨last, hlast, hless, hmissed'⟩ := h
    refine ⟨last, by omega, hless, fun i hi hilast => ?_⟩
    rcases Nat.lt_or_ge i idx' with hlt | hge
    · exact hmissed i hi hlt
    · exact hmissed' i hge hilast

section
variable (h : Layout c t)
include h

theorem keyMatches_eq (hinfo : t.info idx = keyInfo c t key idx) :
    ∃ same, keyMatches c t key idx = some same ∧ (same = true ↔ IsAt c t key idx) := by
  have hle := inc_le_keyInfo c t key idx
  have htwo := h.two_le_inc
  obtain ⟨_, node, hnode⟩ := h.node_of_inc_le idx (by omega)
  refine ⟨c.keyEqual key node.1, by rw [keyMatches, hnode, Option.map_some], ?_⟩
  simp [IsAt, hinfo, hnode]

theorem hit_eq (key : α) (idx : Nat) :
    ∃ same, hit c t key (keyInfo c t key idx) idx = some same ∧ (same = true ↔ IsAt c t key idx) := by
  by_cases hinfo : keyInfo c t key idx = t.info idx
  · rw [hit, if_pos hinfo]
    exact h.keyMatches_eq hinfo.symm
  · refine ⟨false, by rw [hit, if_neg hinfo], ?_⟩
    simp [IsAt, Ne.symm hinfo]

theorem lt_slotCount_of_le (hgo : keyInfo c t key idx ≤ t.info idx) : idx < slotCount c t := by
  have hle := inc_le_keyInfo c t key idx
  have htwo := h.two_le_inc
  exact (h.node_of_inc_le idx (by omega)).1

section
variable (left : Nat) (hhome : homeOf c (t.mask + 1) key ≤ idx) (hidx : idx < slotCount c t)
  (hleft : slotCount c t + 8 ≤ idx + left)
include left hhome hidx hleft

theorem findLoop_eq : ∃ found, findLoop c t key left (keyInfo c t key idx) idx = some found ∧
      Searched c t key idx found := by
  induction left using Nat.strongRecOn generalizing idx with
  | ind left ih =>
    obtain ⟨left, rfl⟩ : ∃ k, left = k + 3 := ⟨left - 3, by omega⟩
    obtain ⟨first, hfirst, hfirstat⟩ := h.hit_eq key idx
    obtain ⟨second, hsecond, hsecondat⟩ := h.hit_eq key (idx + 1)
    rw [keyInfo_succ hhome] at hsecond
    rw [findLoop, hfirst, Option.bind_some]
    cases first with
    | true => exact ⟨some idx, rfl, le_rfl, hfirstat.mp rfl⟩
    | false =>
      rw [if_neg Bool.false_ne_true, hsecond, Option.bind_some]
      cases second with
      | true => exact ⟨some (idx + 1), rfl, by omega, hsecondat.mp rfl⟩
      | false =>
        have hmissed : ∀ i, idx ≤ i → i < idx + 2 → ¬ IsAt c t key i := by
          intro i hi hi2 hat
          rcases Nat.eq_or_lt_of_le hi with rfl | hlt
          · exact Bool.false_ne_true (hfirstat.mpr hat)
          · rw [show i = idx + 1 by omega] at hat
            exact Bool.false_ne_true (hsecondat.mpr hat)
        have hinfo : keyInfo c t key idx + 2 * t.infoInc = keyInfo c t key (idx + 2) := by
          rw [keyInfo_succ (by omega), keyInfo_succ hhome]
          omega
        rw [if_neg Bool.false_ne_true, hinfo]
        by_cases hgo : keyInfo c t key (idx + 2) ≤ t.info (idx + 2)
        · have hlt := h.lt_slotCount_of_le hgo
          obtain ⟨found, hrun, hfound⟩ := ih (left + 1) (by omega) (by omega) hlt (by omega)
          exact ⟨found, by rw [if_pos hgo, hrun], searched_of_missed (by omega) hmissed hfound⟩
        · exact ⟨none, by rw [if_neg hgo], idx + 2, by omega, by omega, hmissed⟩

theorem eraseLoop_eq : ∃ found, eraseLoop c t key left (keyInfo c t key idx) idx = some found ∧
      Searched c t key idx found := by
  induction left generalizing idx with
  | zero => omega
  | succ left ih =>
    obtain ⟨left, rfl⟩ : ∃ k, left = k + 1 := ⟨left - 1, by omega⟩
    obtain ⟨same, hsame, hat⟩ := h.hit_eq key idx
    rw [eraseLoop, hsame, Option.bind_some]
    cases same with
    | true => exact ⟨some idx, rfl, le_rfl, hat.mp rfl⟩
    | false =>
      have hmissed : ∀ i, idx ≤ i → i < idx + 1 → ¬ IsAt c t key i := by
        intro i hi hi1 hati
        rw [show i = idx by omega] at hati
        exact Bool.false_ne_true (hat.mpr hati)
      rw [if_neg Bool.false_ne_true, ← keyInfo_succ hhome]
      by_cases hgo : keyInfo c t key (idx + 1) ≤ t.info (idx + 1)
      · have hlt := h.lt_slotCount_of_le hgo
        obtain ⟨found, hrun, hfound⟩ := ih (by omega) hlt (by omega)
        exact ⟨found, by rw [if_pos hgo, hrun], searched_of_missed (by omega) hmissed hfound⟩
      · exact ⟨none, by rw [if_neg hgo], idx + 1, by omega, by omega, hmissed⟩

end

theorem isAt_of_mem (hnode : node ∈ entries c t) (hkey : c.keyEqual key node.1 = true) :
    ∃ idx, homeOf c (t.mask + 1) key ≤ idx ∧ idx < slotCount c t ∧ t.keyVals idx = some node ∧
      IsAt c t key idx := by
  obtain ⟨idx, _, hidx, hslot⟩ := mem_entriesFrom.mp hnode
  rw [Nat.zero_add] at hidx
  obtain ⟨hhome, hinfo⟩ := h.occupied idx node hidx hslot
  refine ⟨idx, ?_, hidx, hslot, ?_, node, hslot, hkey⟩
  · rw [homeOf_eq_of_keyEqual hkey]
    exact hhome
  · rw [hinfo, keyInfo_eq_of_keyEqual hkey]

theorem absent_of_searched (hsearched : Searched c t key (homeOf c (t.mask + 1) key) none) :
    Absent c t key := by
  obtain ⟨last, hlast, hless, hmissed⟩ := hsearched
  intro node hnode
  rw [← Bool.not_eq_true]
  intro hkey
  obtain ⟨idx, hhome, _, _, hat⟩ := h.isAt_of_mem hnode hkey
  rcases Nat.lt_or_ge idx last with hlt | hge
  · exact hmissed idx hhome hlt hat
  · have hinfo := h.ordered.lt_infoAt hlast hless hge
    exact hinfo.ne hat.1

theorem mem_of_isAt (hat : IsAt c t key idx) : idx < slotCount c t ∧
      ∃ node, t.keyVals idx = some node ∧ node ∈ entries c t ∧ c.keyEqual key node.1 = true := by
  obtain ⟨hinfo, node, hnode, hkey⟩ := hat
  have hle := inc_le_keyInfo c t key idx
  have htwo := h.two_le_inc
  have hidx := (h.node_of_inc_le idx (by omega)).1
  exact ⟨hidx, node, hnode, mem_entriesFrom.mpr ⟨idx, Nat.zero_le _, by omega, hnode⟩, hkey⟩

theorem findIdx_eq (key : α) :
    (∃ idx node, findIdx c t key = some idx ∧ idx < slotCount c t ∧ t.keyVals idx = some node ∧
      node ∈ entries c t ∧ c.keyEqual key node.1 = true) ∨
    findIdx c t key = some (slotCount c t) ∧ Absent c t key := by
  have hlt := h.homeOf_lt key
  have hleft : slotCount c t + 8 ≤ homeOf c (t.mask + 1) key + (infoBytes c t - homeOf c (t.mask + 1) key) := by
    rw [h.infoBytes_eq]
    omega
  obtain ⟨found, hrun, hfound⟩ := h.findLoop_eq _ le_rfl hlt hleft
  have hfind : findIdx c t key = some (found.getD (slotCount c t)) := by
    rw [findIdx, h.keyToIdx_eq]
    simp [hrun, h.endIdx_eq]
  rw [hfind]
  cases found with
  | none => exact .inr ⟨rfl, h.absent_of_searched hfound⟩
  | some idx =>
    obtain ⟨hidx, node, hnode, hmem, hkey⟩ := h.mem_of_isAt hfound.2
    exact .inl ⟨idx, node, rfl, hidx, hnode, hmem, hkey⟩

end

end Layout

end Ktl.HashTable
