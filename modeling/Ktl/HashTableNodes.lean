import Ktl.HashTableLayout

/-!
Putting a node into an array and taking one out, which moves the nodes up to the next gap.
-/
namespace Ktl.HashTable

open RobinHood Function

variable {α β : Type*} {c : Config α} {t : Table α β} {key : α}

/-! ## The slot for a new node -/

structure Vacancy (c : Config α) (t : Table α β) (key : α) (idx : Nat) : Prop where
  home_le : homeOf c (t.mask + 1) key ≤ idx
  passed : ∀ i, homeOf c (t.mask + 1) key ≤ i → i < idx → keyInfo c t key i ≤ t.info i
  less : t.info idx < keyInfo c t key idx

def Probed (c : Config α) (t : Table α β) (key : α) : Probe → Prop
  | .found idx => IsAt c t key idx
  | .absent info idx => info = keyInfo c t key idx ∧ Vacancy c t key idx ∧ Absent c t key

namespace Layout

section
variable (h : Layout c t)
include h

theorem info_succ_le (hhome : homeOf c (t.mask + 1) key ≤ idx)
    (hinfo : t.info idx ≤ keyInfo c t key idx) : t.info (idx + 1) ≤ keyInfo c t key (idx + 1) := by
  have htwo := two_mul_le_infoAt t.infoInc (bitsOf c t.infoHashShift key)
    (show homeOf c (t.mask + 1) key < idx + 1 by omega)
  have hsucc := keyInfo_succ hhome
  have hnext := h.ordered.next idx
  rw [← keyInfo] at htwo
  omega

theorem probeEqual_eq (left : Nat) (hhome : homeOf c (t.mask + 1) key ≤ idx)
    (hidx : idx ≤ slotCount c t) (hleft : slotCount c t + 8 ≤ idx + left)
    (hpassed : ∀ i, homeOf c (t.mask + 1) key ≤ i → i < idx → keyInfo c t key i ≤ t.info i ∧ ¬ IsAt c t key i)
    (hinfo : t.info idx ≤ keyInfo c t key idx) :
    ∃ probe, probeEqual c t key left (keyInfo c t key idx) idx = some probe ∧ Probed c t key probe := by
  induction left generalizing idx with
  | zero => omega
  | succ left ih =>
    rw [probeEqual]
    by_cases hequal : keyInfo c t key idx = t.info idx
    · obtain ⟨same, hsame, hat⟩ := h.keyMatches_eq hequal.symm
      rw [if_pos hequal, hsame, Option.bind_some]
      cases same with
      | true => exact ⟨.found idx, rfl, hat.mp rfl⟩
      | false =>
        have hlt := h.lt_slotCount_of_le hequal.le
        rw [if_neg Bool.false_ne_true, ← keyInfo_succ hhome]
        refine ih (by omega) (by omega) (by omega) (fun i hi hi1 => ?_) (h.info_succ_le hhome hinfo)
        rcases Nat.lt_or_ge i idx with hlt | hge
        · exact hpassed i hi hlt
        · rw [show i = idx by omega]
          exact ⟨hequal.le, fun hati => Bool.false_ne_true (hat.mpr hati)⟩
    · have hless : t.info idx < keyInfo c t key idx := by omega
      refine ⟨.absent (keyInfo c t key idx) idx, by rw [if_neg hequal], rfl, ?_, ?_⟩
      · exact ⟨hhome, fun i hi hidx => (hpassed i hi hidx).1, hless⟩
      · exact h.absent_of_searched ⟨idx, hhome, hless, fun i hi hidx => (hpassed i hi hidx).2⟩

theorem probe_eq (key : α) : ∃ result, probe c t key = some result ∧ Probed c t key result := by
  have hlt := h.homeOf_lt key
  have hbytes := h.infoBytes_eq
  have hstop := decide_eq_false (Nat.lt_asymm (h.sentinel_lt_keyInfo key))
  obtain ⟨idx, hhome, hidx, hrun, hends, hpassed⟩ :=
    nextWhile_eq (fun info idx => decide (info < t.info idx))
      (infoBytes c t - homeOf c (t.mask + 1) key) (fun i hi => keyInfo_succ hi) hlt.le (by omega) hstop
  have hless : ∀ i, homeOf c (t.mask + 1) key ≤ i → i < idx → keyInfo c t key i < t.info i :=
    fun i hi hidx => of_decide_eq_true (hpassed i hi hidx)
  obtain ⟨result, hprobe, hres⟩ := h.probeEqual_eq (infoBytes c t - idx) hhome hidx (by omega)
    (fun i hi hidx => ⟨(hless i hi hidx).le, fun hat => (hless i hi hidx).ne' hat.1⟩)
    (not_lt.mp (of_decide_eq_false hends))
  refine ⟨result, ?_, hres⟩
  rw [probe, h.keyToIdx_eq]
  simp [nextWhileLess, hrun, hprobe]

theorem nextWhileLessOrEqual_eq (key : α) : ∃ idx, nextWhileLessOrEqual t (infoBytes c t - homeOf c (t.mask + 1) key)
        (keyInfo c t key (homeOf c (t.mask + 1) key)) (homeOf c (t.mask + 1) key)
        = some (keyInfo c t key idx, idx) ∧ Vacancy c t key idx := by
  have hlt := h.homeOf_lt key
  have hbytes := h.infoBytes_eq
  have hstop := decide_eq_false (Nat.not_le_of_lt (h.sentinel_lt_keyInfo key))
  obtain ⟨idx, hhome, _, hrun, hends, hpassed⟩ :=
    nextWhile_eq (fun info idx => decide (info ≤ t.info idx))
      (infoBytes c t - homeOf c (t.mask + 1) key) (fun i hi => keyInfo_succ hi) hlt.le (by omega) hstop
  exact ⟨idx, hrun, hhome, fun i hi hidx => of_decide_eq_true (hpassed i hi hidx),
    not_le.mp (of_decide_eq_false hends)⟩

/-! ## A gap behind it -/

theorem length_entries_ge (idx k : Nat) (hlast : idx + k ≤ slotCount c t)
    (hfull : ∀ i, idx ≤ i → i < idx + k → t.info i ≠ 0) : k ≤ (entries c t).length := by
  have hcut : entries c t = entriesFrom t.keyVals 0 idx ++ (entriesFrom t.keyVals idx k
      ++ entriesFrom t.keyVals (idx + k) (slotCount c t - (idx + k))) := by
    have hslots : slotCount c t = idx + (k + (slotCount c t - (idx + k))) := by omega
    rw [entries]
    conv_lhs => rw [hslots, entriesFrom_add, entriesFrom_add, Nat.zero_add]
  have hlen : (entriesFrom t.keyVals idx k).length = k := by
    apply length_entriesFrom_of_full
    intro i hi hik hnone
    exact hfull i hi hik (h.vacant i (by omega) hnone)
  rw [hcut, List.length_append, List.length_append, hlen]
  omega

theorem distance_mul_le (hidx : idx < slotCount c t) (hnode : t.keyVals idx = some node) :
    (idx - homeOf c (t.mask + 1) node.1 + 1) * t.infoInc ≤ t.info idx := by
  rw [(h.occupied idx node hidx hnode).2, keyInfo, infoAt]
  omega

section
variable (hload : t.numElements < c.calcMaxNumElementsAllowed (t.mask + 1)) (hv : Vacancy c t key idx)
include hload hv

theorem exists_empty : ∃ last, idx ≤ last ∧ last < slotCount c t ∧ t.info last = 0 := by
  by_contra hnone
  have hslots := h.slotCount_eq
  have hhome := homeOf_le_mask c t key
  have htwo := h.two_le_inc
  have hfull : ∀ i, homeOf c (t.mask + 1) key ≤ i → i < slotCount c t → t.info i ≠ 0 := by
    intro i hi hislot hzero
    rcases Nat.lt_or_ge i idx with hlt | hge
    · have hpassed := hv.passed i hi hlt
      have hle := inc_le_keyInfo c t key i
      omega
    · exact hnone ⟨i, hge, hislot, hzero⟩
  rcases Nat.le_total (c.calcMaxNumElementsAllowed (t.mask + 1)) 0xFF with hsmall | hlarge
  · -- there are as many slots behind the last bucket as nodes are allowed
    have hcount := h.length_entries_ge (homeOf c (t.mask + 1) key)
      (slotCount c t - homeOf c (t.mask + 1) key) (by omega) (fun i hi hik => hfull i hi (by omega))
    have hsize := h.size
    omega
  · -- the last slot is too far from any home for the info of a node
    have hlast := hfull (slotCount c t - 1) (by omega) (by omega)
    obtain ⟨node, hnode⟩ := Option.ne_none_iff_exists'.mp (mt (h.vacant (slotCount c t - 1) (by omega)) hlast)
    have hfar := h.distance_mul_le (by omega) hnode
    have hnodehome := homeOf_le_mask c t node.1
    have hbyte := h.byte (slotCount c t - 1)
    have hdist : 256 * t.infoInc ≤ (slotCount c t - 1 - homeOf c (t.mask + 1) node.1 + 1) * t.infoInc :=
      Nat.mul_le_mul_right _ (by omega)
    omega

theorem nextWhileFull_eq :
    ∃ last info, nextWhileFull t (infoBytes c t - idx) (keyInfo c t key idx) idx = some (info, last) ∧
      idx ≤ last ∧ last < slotCount c t ∧ t.info last = 0 ∧ ∀ i, idx ≤ i → i < last → t.info i ≠ 0 := by
  obtain ⟨stop, hstop, hslot, hzero⟩ := h.exists_empty hload hv
  have hbytes := h.infoBytes_eq
  obtain ⟨last, hlast, hlaststop, hrun, hends, hpassed⟩ :=
    nextWhile_eq (fun _ idx => decide (t.info idx ≠ 0)) (infoBytes c t - idx)
      (fun i hi => keyInfo_succ (hv.home_le.trans hi)) hstop (by omega) (by simp [hzero])
  refine ⟨last, keyInfo c t key last, hrun, hlast, by omega, by simpa using hends, fun i hi hilast => ?_⟩
  exact of_decide_eq_true (hpassed i hi hilast)

end

end

end Layout

/-! ## Moving up -/

/-- What a pass of a loop has moved is what the passes before it have and one cell more. -/
theorem shift_update (f : Nat → γ) (g : γ → γ) (q count i : Nat) :
    (if q < i ∧ i ≤ q + count then g (update f (q + count + 1) (g (f (q + count))) (i - 1))
      else update f (q + count + 1) (g (f (q + count))) i) =
      if q < i ∧ i ≤ q + (count + 1) then g (f (i - 1)) else f i := by
  by_cases hlast : i = q + count + 1
  · subst hlast
    rw [if_neg (by omega), if_pos (by omega), update_self]
    rfl
  · by_cases hin : q < i ∧ i ≤ q + count
    · rw [if_pos hin, if_pos (by omega), update_of_ne (by omega)]
    · rw [if_neg hin, if_neg (by omega), update_of_ne hlast]

theorem shiftNodesUp_apply (insertionIdx count : Nat) (keyVals : Nat → Option (α × β)) (i : Nat) :
    shiftNodesUp insertionIdx count keyVals i
      = if insertionIdx < i ∧ i ≤ insertionIdx + count then keyVals (i - 1) else keyVals i := by
  induction count generalizing keyVals with
  | zero => rw [shiftNodesUp, if_neg (by omega)]
  | succ count ih =>
    rw [shiftNodesUp, ih]
    exact shift_update keyVals id insertionIdx count i

theorem shiftInfosUp_eq (insertionIdx count : Nat) (t : Table α β)
    (hroomy : ∀ i, insertionIdx ≤ i → i < insertionIdx + count → t.info i + t.infoInc ≤ 0xFF) :
    ∃ limit, shiftInfosUp insertionIdx count t = { t with
        info := fun i =>
          if insertionIdx < i ∧ i ≤ insertionIdx + count then t.info (i - 1) + t.infoInc else t.info i
        maxNumElementsAllowed := limit } ∧
      (limit = 0 ∧ (∃ i, insertionIdx ≤ i ∧ i < insertionIdx + count ∧ 0xFF < t.info i + t.infoInc + t.infoInc) ∨
        limit = t.maxNumElementsAllowed ∧
          ∀ i, insertionIdx ≤ i → i < insertionIdx + count → t.info i + t.infoInc + t.infoInc ≤ 0xFF) := by
  induction count generalizing t with
  | zero =>
    refine ⟨t.maxNumElementsAllowed, ?_, .inr ⟨rfl, by omega⟩⟩
    have hsame : (fun i => if insertionIdx < i ∧ i ≤ insertionIdx + 0 then t.info (i - 1) + t.infoInc
        else t.info i) = t.info := by
      funext i
      exact if_neg (by omega)
    rw [shiftInfosUp, hsame]
  | succ count ih =>
    have hfit := hroomy (insertionIdx + count) (by omega) (by omega)
    rw [shiftInfosUp, Nat.mod_eq_of_lt (by omega)]
    obtain ⟨limit, hrest, hlimit⟩ := ih { t with
      info := update t.info (insertionIdx + count + 1) (t.info (insertionIdx + count) + t.infoInc)
      maxNumElementsAllowed := if 0xFF < t.info (insertionIdx + count) + t.infoInc + t.infoInc then 0
        else t.maxNumElementsAllowed } (by
          intro i hi hicount
          dsimp only
          rw [update_of_ne (by omega)]
          exact hroomy i hi (by omega))
    refine ⟨limit, ?_, ?_⟩
    · rw [hrest]
      congr 1
      funext i
      exact shift_update t.info (· + t.infoInc) insertionIdx count i
    · rcases hlimit with ⟨hzero, i, hi, hicount, hfull⟩ | ⟨hlimit, hspace⟩
      · dsimp only at hfull
        rw [update_of_ne (by omega)] at hfull
        exact .inl ⟨hzero, i, hi, by omega, hfull⟩
      · dsimp only at hlimit hspace
        split_ifs at hlimit with hlastfull
        · exact .inl ⟨hlimit, insertionIdx + count, by omega, by omega, hlastfull⟩
        · refine .inr ⟨hlimit, fun i hi hicount => ?_⟩
          rcases Nat.lt_or_ge i (insertionIdx + count) with hlt | hge
          · have := hspace i hi hlt
            rwa [update_of_ne (by omega)] at this
          · rw [show i = insertionIdx + count by omega]
            omega

def withNode (t : Table α β) (node : α × β) (info idx last limit : Nat) : Table α β :=
  { t with
    keyVals := openSlot t.keyVals id (some node) idx last
    info := openSlot t.info (· + t.infoInc) info idx last
    maxNumElementsAllowed := limit
    numElements := t.numElements + 1 }

def LimitKept (t : Table α β) (info idx last limit : Nat) : Prop :=
  limit = 0 ∧ (0xFF < info + t.infoInc ∨ ∃ i, idx ≤ i ∧ i < last ∧ 0xFF < t.info i + t.infoInc + t.infoInc) ∨
    limit = t.maxNumElementsAllowed ∧ info + t.infoInc ≤ 0xFF ∧
      ∀ i, idx ≤ i → i < last → t.info i + t.infoInc + t.infoInc ≤ 0xFF

theorem shiftUp_self (t : Table α β) (idx : Nat) : shiftUp t idx idx = t := by
  rw [shiftUp, Nat.sub_self]
  rfl

theorem update_shiftNodesUp (hidx : idx ≤ last) (keyVals : Nat → Option (α × β)) (entry : Option (α × β)) :
    update (shiftNodesUp idx (last - idx) keyVals) idx entry = openSlot keyVals id entry idx last := by
  funext i
  rw [openSlot]
  by_cases hi : i = idx
  · rw [hi, update_self, if_pos rfl]
  · rw [update_of_ne hi, if_neg hi, shiftNodesUp_apply, Nat.add_sub_cancel' hidx]
    rfl

theorem putNode_eq (node : α × β) (hinfo : info ≤ 0xFF) (hidx : idx ≤ last)
    (hgap : ∃ infoThere, nextWhileFull t (infoBytes c t - idx) info idx = some (infoThere, last))
    (hroomy : ∀ i, idx ≤ i → i < last → t.info i + t.infoInc ≤ 0xFF) :
    ∃ limit, putNode c t node info idx = some (withNode t node info idx last limit) ∧
      LimitKept t info idx last limit := by
  obtain ⟨infoThere, hgap⟩ := hgap
  obtain ⟨first, hfirst⟩ : ∃ first, first = if 0xFF < info + t.infoInc then 0 else t.maxNumElementsAllowed :=
    ⟨_, rfl⟩
  have hstart : (if 0xFF < info + t.infoInc then { t with maxNumElementsAllowed := 0 } else t)
      = { t with maxNumElementsAllowed := first } := by
    rw [hfirst]
    split <;> rfl
  have hgap' : nextWhileFull { t with maxNumElementsAllowed := first }
      (infoBytes c { t with maxNumElementsAllowed := first } - idx) info idx = some (infoThere, last) := hgap
  have hshift : ∀ t' : Table α β, (if last = idx then t' else shiftUp t' last idx) = shiftUp t' last idx := by
    intro t'
    split_ifs with hsame
    · rw [hsame, shiftUp_self]
    · rfl
  obtain ⟨limit, hinfos, hlimit⟩ := shiftInfosUp_eq idx (last - idx) { t with
      maxNumElementsAllowed := first
      keyVals := shiftNodesUp idx (last - idx) t.keyVals } fun i hi hilast => hroomy i hi (by omega)
  refine ⟨limit, ?_, ?_⟩
  · rw [putNode, hstart, hgap', Option.map_some]
    dsimp only
    rw [hshift, shiftUp]
    dsimp only
    rw [hinfos, withNode]
    dsimp only
    congr 2
    · exact update_shiftNodesUp hidx t.keyVals (some node)
    · funext i
      rw [openSlot]
      by_cases hi : i = idx
      · rw [hi, update_self, if_pos rfl, Nat.mod_eq_of_lt (by omega)]
      · rw [update_of_ne hi, if_neg hi, Nat.add_sub_cancel' hidx]
  · rcases hlimit with ⟨hzero, i, hi, hilast, hfull⟩ | ⟨hlimit, hspace⟩
    · exact .inl ⟨hzero, .inr ⟨i, hi, by omega, hfull⟩⟩
    · rw [hfirst] at hlimit
      dsimp only at hlimit hspace
      split at hlimit
      · exact .inl ⟨hlimit, .inl (by assumption)⟩
      · exact .inr ⟨hlimit, by omega, fun i hi hilast => hspace i hi (by omega)⟩

/-! ## The layout with the new node -/

theorem keyEqual_eq_false_symm (h : c.keyEqual x y = false) : c.keyEqual y x = false := by
  rw [← Bool.not_eq_true] at h ⊢
  exact fun hsymm => h (c.keyEqual_symm y x hsymm)

theorem distinct_iff_of_perm {nodes nodes' : List (α × β)} (hperm : nodes.Perm nodes') :
    (nodes.Pairwise fun x y => c.keyEqual x.1 y.1 = false) ↔ nodes'.Pairwise fun x y => c.keyEqual x.1 y.1 = false :=
  hperm.pairwise_iff keyEqual_eq_false_symm

namespace Layout

theorem withNode_info {P : Nat → Prop} (hidx : idx ≤ last) (hnew : P info)
    (hmoved : ∀ i, idx ≤ i → i < last → P (t.info i + t.infoInc)) (i : Nat) (hsame : P (t.info i)) :
    P (openSlot t.info (· + t.infoInc) info idx last i) := by
  rcases Nat.lt_trichotomy i idx with hlt | rfl | hgt
  · rwa [openSlot_before hlt]
  · rwa [openSlot_new]
  · rcases Nat.lt_or_ge last i with hafter | hle
    · rwa [openSlot_after hidx hafter]
    · obtain ⟨previous, rfl⟩ : ∃ k, i = k + 1 := ⟨i - 1, by omega⟩
      rw [openSlot_moved (by omega) (by omega)]
      exact hmoved previous (by omega) (by omega)

section

variable (h : Layout c t)

include h

theorem inc_le : t.infoInc ≤ 32 := by
  have hpow : 2 ^ (5 - t.infoHashShift) ≤ 2 ^ 5 := Nat.pow_le_pow_right (by decide) (by omega)
  rw [h.inc_eq]
  omega

theorem keyInfo_le (hroomy : Roomy c t) (hv : Vacancy c t key idx) (hidx : idx < slotCount c t) :
    keyInfo c t key idx ≤ 0xFF := by
  have hinc := h.inc_le
  have hbits := h.bitsOf_lt key
  rcases Nat.eq_or_lt_of_le hv.home_le with hhome | hlt
  · rw [keyInfo, ← hhome, infoAt_home]
    omega
  · obtain ⟨previous, rfl⟩ : ∃ k, idx = k + 1 := ⟨idx - 1, by omega⟩
    have hpassed := hv.passed previous (by omega) (by omega)
    have hspace := hroomy previous (by omega)
    rw [keyInfo_succ (by omega)]
    omega

theorem entries_withNode (node : α × β) (hidx : idx ≤ last) (hlast : last < slotCount c t)
    (hgap : t.info last = 0) (info limit : Nat) :
    (entries c (withNode t node info idx last limit)).Perm (node :: entries c t) := by
  have hnone := (h.info_eq_zero_iff hlast).mp hgap
  have hold : entries c t = entriesFrom t.keyVals 0 idx ++ entriesFrom t.keyVals idx (slotCount c t - idx) := by
    have hslots : slotCount c t = idx + (slotCount c t - idx) := by omega
    rw [entries]
    conv_lhs => rw [hslots, entriesFrom_add, Nat.zero_add]
  have hnew : entries c (withNode t node info idx last limit)
      = entriesFrom t.keyVals 0 idx ++ node :: entriesFrom t.keyVals idx (slotCount c t - idx) :=
    entriesFrom_openSlot hidx hlast hnone
  rw [hnew, hold]
  exact List.perm_middle

theorem withNode_occupied (hv : Vacancy c t node.1 idx) (hidx : idx ≤ last) (i : Nat) (node' : α × β)
    (hi : i < slotCount c t) (hnode : openSlot t.keyVals id (some node) idx last i = some node') :
    homeOf c (t.mask + 1) node'.1 ≤ i ∧
      openSlot t.info (· + t.infoInc) (keyInfo c t node.1 idx) idx last i = keyInfo c t node'.1 i := by
  rcases Nat.lt_trichotomy i idx with hlt | rfl | hgt
  · rw [openSlot_before hlt] at hnode ⊢
    exact h.occupied i node' hi hnode
  · rw [openSlot_new] at hnode ⊢
    cases hnode
    exact ⟨hv.home_le, rfl⟩
  · rcases Nat.lt_or_ge last i with hafter | hmoved
    · rw [openSlot_after hidx hafter] at hnode ⊢
      exact h.occupied i node' hi hnode
    · obtain ⟨previous, rfl⟩ : ∃ k, i = k + 1 := ⟨i - 1, by omega⟩
      rw [openSlot_moved (by omega) (by omega)] at hnode ⊢
      obtain ⟨hhome, hinfo⟩ := h.occupied previous node' (by omega) hnode
      exact ⟨by omega, by rw [hinfo, keyInfo_succ hhome]⟩

theorem withNode_vacant (hidx : idx ≤ last) (hfull : ∀ i, idx ≤ i → i < last → t.info i ≠ 0) (info i : Nat)
    (hi : i < slotCount c t) (hnone : openSlot t.keyVals id (some node) idx last i = none) :
    openSlot t.info (· + t.infoInc) info idx last i = 0 := by
  rcases Nat.lt_trichotomy i idx with hlt | rfl | hgt
  · rw [openSlot_before hlt] at hnone ⊢
    exact h.vacant i hi hnone
  · rw [openSlot_new] at hnone
    cases hnone
  · rcases Nat.lt_or_ge last i with hafter | hmoved
    · rw [openSlot_after hidx hafter] at hnone ⊢
      exact h.vacant i hi hnone
    · obtain ⟨previous, rfl⟩ : ∃ k, i = k + 1 := ⟨i - 1, by omega⟩
      rw [openSlot_moved (by omega) (by omega)] at hnone
      exact absurd (h.vacant previous (by omega) hnone) (hfull previous (by omega) (by omega))

theorem withNode (hmax : t.maxNumElementsAllowed = c.calcMaxNumElementsAllowed (t.mask + 1))
    (hroomy : Roomy c t) (hload : t.numElements < c.calcMaxNumElementsAllowed (t.mask + 1))
    (hv : Vacancy c t node.1 idx) (habsent : Absent c t node.1) (hidx : idx ≤ last)
    (hlast : last < slotCount c t) (hgap : t.info last = 0) (hfull : ∀ i, idx ≤ i → i < last → t.info i ≠ 0)
    {limit : Nat} (hlimit : LimitKept t (keyInfo c t node.1 idx) idx last limit) :
    Layout c (HashTable.withNode t node (keyInfo c t node.1 idx) idx last limit) := by
  have hperm := h.entries_withNode node hidx hlast hgap (keyInfo c t node.1 idx) limit
  have hinfo := h.keyInfo_le hroomy hv (by omega)
  exact { h with
    vacant := h.withNode_vacant hidx hfull _
    occupied := h.withNode_occupied hv hidx
    ordered := by
      apply h.ordered.insert hv.home_le hidx (h.bitsOf_lt node.1) hv.passed hv.less _ hgap
      intro i hi hilast
      obtain ⟨node', hnode'⟩ := Option.ne_none_iff_exists'.mp (mt (h.vacant i (by omega)) (hfull i hi hilast))
      rw [(h.occupied i node' (by omega) hnode').2]
      exact inc_le_keyInfo c t node'.1 i
    sentinel := by
      change openSlot t.info (· + t.infoInc) _ idx last (slotCount c t) = 1
      rw [openSlot_after hidx hlast]
      exact h.sentinel
    padding := by
      intro i hi
      change openSlot t.info (· + t.infoInc) _ idx last i = 0
      rw [openSlot_after hidx (hlast.trans hi)]
      exact h.padding i hi
    byte := by
      intro i
      apply withNode_info (P := (· ≤ 0xFF)) hidx hinfo _ i (h.byte i)
      intro j hj hjlast
      exact hroomy j (by omega)
    size := by
      rw [hperm.length_eq, List.length_cons, ← h.size]
      rfl
    load := hload
    limit := by
      rcases hlimit with ⟨hzero, _⟩ | ⟨hlimit, hspace, hspaces⟩
      · exact .inl hzero
      · refine .inr ⟨hlimit.trans hmax, fun i hi => ?_⟩
        exact withNode_info (P := (· + t.infoInc ≤ 0xFF)) hidx hspace hspaces i (hroomy i hi)
    distinct := by
      rw [distinct_iff_of_perm hperm, List.pairwise_cons]
      exact ⟨habsent, h.distinct⟩ }

end

theorem full_of_limit {info limit : Nat} (hidx : idx ≤ last)
    (hlast : last < slotCount c t) (hlimit : LimitKept t info idx last limit)
    (hmax : t.maxNumElementsAllowed ≠ 0) (hzero : limit = 0) :
    ¬ Roomy c (HashTable.withNode t node info idx last limit) := by
  intro hroomy
  rcases hlimit with ⟨_, hfull | ⟨i, hi, hilast, hfull⟩⟩ | ⟨hlimit, _⟩
  · have hspace : openSlot t.info (· + t.infoInc) info idx last idx + t.infoInc ≤ 0xFF :=
      hroomy idx (hidx.trans_lt hlast)
    rw [openSlot_new] at hspace
    omega
  · have hspace : openSlot t.info (· + t.infoInc) info idx last (i + 1) + t.infoInc ≤ 0xFF :=
      hroomy (i + 1) (show i + 1 < slotCount c t by omega)
    rw [openSlot_moved hi hilast] at hspace
    omega
  · omega

theorem putNode_eq (h : Layout c t) (hmax : t.maxNumElementsAllowed = c.calcMaxNumElementsAllowed (t.mask + 1))
    (hroomy : Roomy c t) (hload : t.numElements < c.calcMaxNumElementsAllowed (t.mask + 1))
    (hv : Vacancy c t node.1 idx) (habsent : Absent c t node.1) :
    ∃ last limit, idx ≤ last ∧ last < slotCount c t ∧ putNode c t node (keyInfo c t node.1 idx) idx
        = some (HashTable.withNode t node (keyInfo c t node.1 idx) idx last limit) ∧
      Layout c (HashTable.withNode t node (keyInfo c t node.1 idx) idx last limit) ∧
      (entries c (HashTable.withNode t node (keyInfo c t node.1 idx) idx last limit)).Perm (node :: entries c t) ∧
      (limit = 0 → ¬ Roomy c (HashTable.withNode t node (keyInfo c t node.1 idx) idx last limit)) := by
  obtain ⟨last, info, hrun, hidx, hlast, hgap, hfull⟩ := h.nextWhileFull_eq hload hv
  obtain ⟨limit, hput, hlimit⟩ := HashTable.putNode_eq node
    (h.keyInfo_le hroomy hv (by omega)) hidx ⟨info, hrun⟩ fun i hi hilast => hroomy i (by omega)
  exact ⟨last, limit, hidx, hlast, hput, h.withNode hmax hroomy hload hv habsent hidx hlast hgap hfull hlimit,
    h.entries_withNode node hidx hlast hgap _ limit,
    full_of_limit hidx hlast hlimit (by omega)⟩

end Layout

/-! ## Taking a node out -/

theorem shiftDownLoop_eq (left : Nat) (hbyte : ∀ i, t.info i ≤ 0xFF) (hidx : idx ≤ last)
    (hleft : last + 2 ≤ idx + left) (hdown : ∀ i, idx ≤ i → i < last → 2 * t.infoInc ≤ t.info (i + 1))
    (hstop : t.info (last + 1) < 2 * t.infoInc) :
    shiftDownLoop left t idx = some { t with
      info := closeSlot t.info (· - t.infoInc) 0 idx last
      keyVals := closeSlot t.keyVals id none idx last } := by
  induction left generalizing t idx with
  | zero => omega
  | succ left ih =>
    obtain ⟨left, rfl⟩ : ∃ k, left = k + 1 := ⟨left - 1, by omega⟩
    rw [shiftDownLoop]
    rcases Nat.eq_or_lt_of_le hidx with rfl | hlt
    · rw [if_neg (by omega), closeSlot_self, closeSlot_self]
    · have hbyte' := hbyte (idx + 1)
      have hunit := hdown idx le_rfl hlt
      rw [if_pos hunit, Nat.mod_eq_of_lt (by omega), ih]
      · rw [← closeSlot_update t.info (· - t.infoInc) 0 hlt, ← closeSlot_update t.keyVals id none hlt]
        rfl
      · intro i
        dsimp only
        rw [update_apply]
        split
        · have := hbyte (idx + 1)
          omega
        · exact hbyte i
      · omega
      · omega
      · intro i hi hilast
        dsimp only
        rw [update_of_ne (by omega)]
        exact hdown i (by omega) hilast
      · dsimp only
        rw [update_of_ne (by omega)]
        exact hstop

theorem destroyNode_eq (c : Config α) (t : Table α β) :
    destroyNode c t = { t with pool := (destroyNode c t).pool } := by
  rw [destroyNode]
  split <;> rfl

def withoutNode (c : Config α) (t : Table α β) (idx last : Nat) : Table α β :=
  { t with
    info := closeSlot t.info (· - t.infoInc) 0 idx last
    keyVals := closeSlot t.keyVals id none idx last
    numElements := t.numElements - 1
    pool := (destroyNode c t).pool }

theorem entries_split (hidx : idx < slotCount c t) (hnode : t.keyVals idx = some node) :
    entries c t = entriesFrom t.keyVals 0 idx
      ++ node :: entriesFrom t.keyVals (idx + 1) (slotCount c t - (idx + 1)) := by
  rw [entries, entriesFrom_split t.keyVals hidx, hnode]
  rfl

theorem entries_withoutNode (c : Config α) (t : Table α β) (hidx : idx ≤ last) (hlast : last < slotCount c t) :
    entries c (withoutNode c t idx last)
      = entriesFrom t.keyVals 0 idx ++ entriesFrom t.keyVals (idx + 1) (slotCount c t - (idx + 1)) :=
  entriesFrom_closeSlot_all hidx hlast

namespace Layout

theorem exists_last (h : Layout c t) (hidx : idx < slotCount c t) :
    ∃ last, idx ≤ last ∧ last < slotCount c t ∧ t.info (last + 1) < 2 * t.infoInc ∧
      ∀ i, idx ≤ i → i < last → 2 * t.infoInc ≤ t.info (i + 1) := by
  have htwo := h.two_le_inc
  have hsentinel := h.sentinel
  have hexists : ∃ last, idx ≤ last ∧ t.info (last + 1) < 2 * t.infoInc := by
    refine ⟨slotCount c t - 1, by omega, ?_⟩
    rw [Nat.sub_add_cancel (by omega)]
    omega
  classical
  obtain ⟨hle, hless⟩ := Nat.find_spec hexists
  have hbound : Nat.find hexists ≤ slotCount c t - 1 := by
    apply Nat.find_min' hexists
    rw [Nat.sub_add_cancel (by omega)]
    omega
  refine ⟨Nat.find hexists, hle, by omega, hless, fun i hi hilast => ?_⟩
  have hmin := Nat.find_min hexists hilast
  omega

theorem home_le_of_down (h : Layout c t) (hi : i + 1 < slotCount c t) (hdown : 2 * t.infoInc ≤ t.info (i + 1))
    (hnode : t.keyVals (i + 1) = some node) :
    homeOf c (t.mask + 1) node.1 ≤ i ∧ t.info (i + 1) = keyInfo c t node.1 i + t.infoInc := by
  obtain ⟨hhome, hinfo⟩ := h.occupied (i + 1) node hi hnode
  have hle : homeOf c (t.mask + 1) node.1 ≤ i := by
    by_contra hgt
    have hbits := h.bitsOf_lt node.1
    rw [hinfo, keyInfo, show i + 1 = homeOf c (t.mask + 1) node.1 by omega, infoAt_home] at hdown
    omega
  exact ⟨hle, by rw [hinfo, keyInfo_succ hle]⟩

theorem withoutNode_info_le (t : Table α β) (bound : Nat) (hidx : idx ≤ last) (hlast : last < n)
    (hinfo : ∀ i < n, t.info i ≤ bound) (i : Nat) (hi : i < n) :
    closeSlot t.info (· - t.infoInc) 0 idx last i ≤ bound := by
  rcases Nat.lt_or_ge i idx with hlt | hge
  · rw [closeSlot_before hidx hlt]
    exact hinfo i hi
  · rcases Nat.lt_trichotomy i last with hin | rfl | hafter
    · rw [closeSlot_moved hge hin]
      have := hinfo (i + 1) (by omega)
      omega
    · rw [closeSlot_last]
      exact Nat.zero_le _
    · rw [closeSlot_after hafter]
      exact hinfo i hi

section
variable (h : Layout c t) (hidx : idx ≤ last) (hlast : last < slotCount c t)
  (hdown : ∀ i, idx ≤ i → i < last → 2 * t.infoInc ≤ t.info (i + 1))
include h hidx hlast hdown

theorem withoutNode_occupied (i : Nat) (hi : i < slotCount c t)
    (hnode : closeSlot t.keyVals id none idx last i = some node) :
    homeOf c (t.mask + 1) node.1 ≤ i ∧ closeSlot t.info (· - t.infoInc) 0 idx last i = keyInfo c t node.1 i := by
  rcases Nat.lt_or_ge i idx with hlt | hge
  · rw [closeSlot_before hidx hlt] at hnode ⊢
    exact h.occupied i node hi hnode
  · rcases Nat.lt_trichotomy i last with hin | rfl | hafter
    · rw [closeSlot_moved hge hin] at hnode ⊢
      obtain ⟨hhome, hinfo⟩ := h.home_le_of_down (by omega) (hdown i hge hin) hnode
      exact ⟨hhome, by rw [hinfo, Nat.add_sub_cancel]⟩
    · rw [closeSlot_last] at hnode
      cases hnode
    · rw [closeSlot_after hafter] at hnode ⊢
      exact h.occupied i node hi hnode

theorem withoutNode_vacant (i : Nat) (hi : i < slotCount c t) (hnone : closeSlot t.keyVals id none idx last i = none) :
    closeSlot t.info (· - t.infoInc) 0 idx last i = 0 := by
  rcases Nat.lt_or_ge i idx with hlt | hge
  · rw [closeSlot_before hidx hlt] at hnone ⊢
    exact h.vacant i hi hnone
  · rcases Nat.lt_trichotomy i last with hin | rfl | hafter
    · rw [closeSlot_moved hge hin] at hnone
      have hzero := h.vacant (i + 1) (by omega) hnone
      have hunits := hdown i hge hin
      have htwo := h.two_le_inc
      omega
    · rw [closeSlot_last]
    · rw [closeSlot_after hafter] at hnone ⊢
      exact h.vacant i hi hnone

theorem withoutNode (hstop : t.info (last + 1) < 2 * t.infoInc) (hnode : t.keyVals idx = some node) :
    Layout c (HashTable.withoutNode c t idx last) := by
  have hold := entries_split (hidx.trans_lt hlast) hnode
  have hnew := entries_withoutNode c t hidx hlast
  have hsize := h.size
  exact { h with
    vacant := h.withoutNode_vacant hidx hlast hdown
    occupied := fun i _ => h.withoutNode_occupied hidx hlast hdown i
    ordered := h.ordered.remove hidx hdown hstop
    sentinel := by
      change closeSlot t.info (· - t.infoInc) 0 idx last (slotCount c t) = 1
      rw [closeSlot_after hlast]
      exact h.sentinel
    padding := by
      intro i hi
      change closeSlot t.info (· - t.infoInc) 0 idx last i = 0
      rw [closeSlot_after (hlast.trans hi)]
      exact h.padding i hi
    byte := by
      intro i
      exact withoutNode_info_le t 0xFF hidx (n := last + i + 1) (by omega) (fun i _ => h.byte i) i (by omega)
    size := by
      rw [hold, List.length_append, List.length_cons] at hsize
      rw [hnew, List.length_append]
      change t.numElements - 1 = _
      omega
    load := (Nat.sub_le _ 1).trans h.load
    limit := by
      refine h.limit.imp_right fun ⟨hlimit, hroomy⟩ => ⟨hlimit, fun i hi => ?_⟩
      have hinc := h.inc_le
      have hle := withoutNode_info_le t (0xFF - t.infoInc) hidx hlast (fun i hi => by have := hroomy i hi; omega) i hi
      change closeSlot t.info (· - t.infoInc) 0 idx last i + t.infoInc ≤ 0xFF
      omega
    distinct := by
      have hdistinct := h.distinct
      rw [hold, distinct_iff_of_perm List.perm_middle, List.pairwise_cons] at hdistinct
      rw [hnew]
      exact hdistinct.2 }

end

theorem shiftDown_eq (h : Layout c t) (hidx : idx < slotCount c t) (hnode : t.keyVals idx = some node) :
    ∃ last, idx ≤ last ∧ last < slotCount c t ∧ shiftDown c t idx
        = some { HashTable.withoutNode c t idx last with numElements := t.numElements } ∧
      Layout c (HashTable.withoutNode c t idx last) := by
  obtain ⟨last, hle, hlast, hstop, hdown⟩ := h.exists_last hidx
  have hbytes := h.infoBytes_eq
  refine ⟨last, hle, hlast, ?_, h.withoutNode hle hlast hdown hstop hnode⟩
  rw [shiftDown, destroyNode_eq]
  exact shiftDownLoop_eq (infoBytes c t - idx) h.byte hle (by omega) hdown hstop

end Layout

end Ktl.HashTable
