import Ktl.HashTableNodes
import Mathlib.Tactic.IntervalCases

/-!
The infos eight at a time: `try_increase_info` halves them all in one shift and
mask, and an iterator skips empty slots by the trailing zeroes of a word.
-/
namespace Ktl.HashTable

open RobinHood

variable {α β : Type*} {t : Table α β}

/-! ## Bytes of a word -/

variable {info : Nat → Nat}

theorem loadWord_byte (hbyte : ∀ i, info i ≤ 0xFF) (idx : Nat) (hk : k < 8) :
    loadWord info idx >>> (8 * k) % 2 ^ 8 = info (idx + k) := by
  have h0 := hbyte idx
  have h1 := hbyte (idx + 1)
  have h2 := hbyte (idx + 2)
  have h3 := hbyte (idx + 3)
  have h4 := hbyte (idx + 4)
  have h5 := hbyte (idx + 5)
  have h6 := hbyte (idx + 6)
  have h7 := hbyte (idx + 7)
  rw [Nat.shiftRight_eq_div_pow, loadWord]
  rcases Nat.eq_zero_or_pos k with rfl | hpos
  · rw [Nat.add_zero idx]
    omega
  · interval_cases k <;> omega

theorem halved_byte (word : Nat) (hk : k < 8) :
    ((word >>> 1) &&& 0x7f7f7f7f7f7f7f7f) >>> (8 * k) % 2 ^ 8 = word >>> (8 * k) % 2 ^ 8 / 2 := by
  have hmask : ∀ k < 8, ∀ j < 8, Nat.testBit 0x7f7f7f7f7f7f7f7f (8 * k + j) = decide (j < 7) := by
    decide
  apply Nat.eq_of_testBit_eq
  intro j
  rw [Nat.testBit_mod_two_pow, Nat.testBit_shiftRight, Nat.testBit_and, Nat.testBit_shiftRight,
    ← Nat.shiftRight_one, Nat.testBit_shiftRight, Nat.testBit_mod_two_pow, Nat.testBit_shiftRight,
    show 8 * k + (1 + j) = 1 + (8 * k + j) by omega]
  by_cases hj : j < 8
  · have hlow : decide (1 + j < 8) = decide (j < 7) := decide_eq_decide.mpr (by omega)
    rw [hmask k hk j hj, decide_eq_true hj, hlow, Bool.true_and, Bool.and_comm]
  · simp (disch := omega) only [decide_eq_false, Bool.false_and]

theorem storeWord_halved (hbyte : ∀ i, info i ≤ 0xFF) (idx i : Nat) :
    storeWord info idx ((loadWord info idx >>> 1) &&& 0x7f7f7f7f7f7f7f7f) i
      = if idx ≤ i ∧ i < idx + 8 then info i / 2 else info i := by
  rw [storeWord]
  split_ifs with hin
  · have hbytes := halved_byte (loadWord info idx) (show i - idx < 8 by omega)
    rw [loadWord_byte hbyte idx (by omega), Nat.add_sub_cancel' hin.1] at hbytes
    exact hbytes
  · rfl

theorem halveInfos_apply (words : Nat) (hbyte : ∀ i, info i ≤ 0xFF) (idx i : Nat) :
    halveInfos words info idx i = if idx ≤ i ∧ i < idx + 8 * words then info i / 2 else info i := by
  induction words generalizing info idx with
  | zero => rw [halveInfos, if_neg (by omega)]
  | succ words ih =>
    have hbyte' : ∀ i, storeWord info idx ((loadWord info idx >>> 1) &&& 0x7f7f7f7f7f7f7f7f) i ≤ 0xFF := by
      intro i
      have := hbyte i
      rw [storeWord_halved hbyte]
      split <;> omega
    rw [halveInfos, ih hbyte', storeWord_halved hbyte]
    by_cases hin : idx ≤ i ∧ i < idx + 8
    · rw [if_neg (by omega), if_pos hin, if_pos (by omega)]
    · by_cases hrest : idx + 8 ≤ i ∧ i < idx + 8 + 8 * words
      · rw [if_pos hrest, if_neg hin, if_pos (by omega)]
      · rw [if_neg hrest, if_neg hin, if_neg (by omega)]

/-! ## Smaller units -/

namespace Layout

theorem inc_eq_two_mul (h : Layout c t) (hinc : 2 < t.infoInc) :
    t.infoHashShift ≤ 3 ∧ t.infoInc = 2 * 2 ^ (5 - (t.infoHashShift + 1)) := by
  have hshift := h.shift_le
  have hle : t.infoHashShift ≤ 3 := by
    by_contra hgt
    rw [h.inc_eq, show t.infoHashShift = 4 by omega] at hinc
    omega
  refine ⟨hle, ?_⟩
  rw [h.inc_eq, ← Nat.pow_succ', show 5 - t.infoHashShift = 5 - (t.infoHashShift + 1) + 1 by omega]

theorem infoAt_half (inc home bits idx : Nat) :
    infoAt (2 * inc) home bits idx / 2 = infoAt inc home (bits / 2) idx := by
  rw [infoAt, infoAt, Nat.mul_left_comm, Nat.mul_add_div (by decide)]

theorem tryIncreaseInfo_eq (h : Layout c t) (hinc : 2 < t.infoInc) :
    ∃ t', tryIncreaseInfo c t = some t' ∧ Layout c t' ∧ t'.keyVals = t.keyVals ∧ t'.mask = t.mask ∧
      t'.numElements = t.numElements ∧ t'.array = t.array ∧ t'.pool = t.pool ∧
      t'.maxNumElementsAllowed = c.calcMaxNumElementsAllowed (t.mask + 1) ∧ Roomy c t' := by
  obtain ⟨hshift, hdouble⟩ := h.inc_eq_two_mul hinc
  obtain ⟨inc, hhalf⟩ : ∃ inc, inc = 2 ^ (5 - (t.infoHashShift + 1)) := ⟨_, rfl⟩
  rw [← hhalf] at hdouble
  obtain ⟨info, hinfo⟩ : ∃ info, info = Function.update
      (halveInfos ((slotCount c t + 7) / 8) t.info 0) (slotCount c t) 1 := ⟨_, rfl⟩
  have hunit : t.infoInc >>> 1 = inc := by
    rw [Nat.shiftRight_one, hdouble]
    omega
  have hslot : ∀ i < slotCount c t, info i = t.info i / 2 := by
    intro i hi
    rw [hinfo, Function.update_of_ne (by omega), halveInfos_apply _ h.byte, if_pos (by omega)]
  have hsentinel : info (slotCount c t) = 1 := by
    rw [hinfo, Function.update_self]
  have hpadding : ∀ i, slotCount c t < i → info i = 0 := by
    intro i hi
    rw [hinfo, Function.update_of_ne (by omega), halveInfos_apply _ h.byte, h.padding i hi]
    split <;> rfl
  have hroomy : ∀ i < slotCount c t, info i + inc ≤ 0xFF := by
    intro i hi
    have hbyte := h.byte i
    have hle := h.inc_le
    rw [hslot i hi]
    omega
  have hkey : ∀ key i, keyInfo c t key i / 2 =
      infoAt inc (homeOf c (t.mask + 1) key) (bitsOf c (t.infoHashShift + 1) key) i := by
    intro key i
    rw [keyInfo, hdouble, infoAt_half, bitsOf, Nat.div_div_eq_div_mul, ← Nat.pow_succ]
    rfl
  refine ⟨{ t with
    infoInc := inc
    infoHashShift := t.infoHashShift + 1
    info := info
    maxNumElementsAllowed := c.calcMaxNumElementsAllowed (t.mask + 1) },
    ?_, ?_, rfl, rfl, rfl, rfl, rfl, rfl, hroomy⟩
  · rw [tryIncreaseInfo, if_neg (by omega)]
    dsimp only
    rw [hunit, ← hinfo]
  · exact { h with
      shift_le := Nat.succ_le_succ hshift
      inc_eq := hhalf
      vacant := by
        intro i hi hnone
        change info i = 0
        rw [hslot i hi, h.vacant i hi hnone]
      occupied := by
        intro i node hi hnode
        obtain ⟨hhome, hinfoi⟩ := h.occupied i node hi hnode
        refine ⟨hhome, (hslot i hi).trans ?_⟩
        rw [hinfoi]
        exact hkey node.1 i
      ordered := by
        have hord := h.ordered
        rw [hdouble] at hord
        apply hord.halve hslot
        intro i hi
        rcases Nat.eq_or_lt_of_le hi with rfl | hlt
        · omega
        · rw [hpadding i hlt]
          omega
      sentinel := hsentinel
      padding := hpadding
      byte := by
        intro i
        change info i ≤ _
        rcases Nat.lt_trichotomy i (slotCount c t) with hi | rfl | hi
        · exact (Nat.le_add_right _ inc).trans (hroomy i hi)
        · omega
        · rw [hpadding i hi]
          omega
      limit := .inr ⟨rfl, hroomy⟩ }

end Layout

/-! ## Iteration -/

theorem countTrailingZeroes_mul (bits a word : Nat) :
    countTrailingZeroes (a + bits) (2 ^ a * word) = a + countTrailingZeroes bits word := by
  induction a with
  | zero => simp
  | succ a ih =>
    have heven : 2 ^ (a + 1) * word = 2 * (2 ^ a * word) := by
      rw [Nat.pow_succ', Nat.mul_assoc]
    rw [Nat.succ_add, countTrailingZeroes, heven, if_neg (by omega), Nat.mul_div_cancel_left _ (by decide), ih]
    omega

theorem countTrailingZeroes_le (hj : j < bits) (hword : word % 2 ^ (j + 1) ≠ 0) :
    countTrailingZeroes bits word ≤ j := by
  induction j generalizing bits word with
  | zero =>
    obtain ⟨bits, rfl⟩ : ∃ k, bits = k + 1 := ⟨bits - 1, by omega⟩
    rw [countTrailingZeroes, if_pos (by omega)]
  | succ j ih =>
    obtain ⟨bits, rfl⟩ : ∃ k, bits = k + 1 := ⟨bits - 1, by omega⟩
    rw [countTrailingZeroes]
    split_ifs with heven
    · omega
    · have hhalf : word / 2 % 2 ^ (j + 1) ≠ 0 := by
        rw [Nat.pow_succ', Nat.mod_mul] at hword
        omega
      have hrest := ih (Nat.lt_of_succ_lt_succ hj) hhalf
      omega

theorem countTrailingZeroes_loadWord (hbyte : ∀ i, info i ≤ 0xFF) (hk : k < 8)
    (hzero : ∀ i < k, info (idx + i) = 0) (hinfo : info (idx + k) ≠ 0) :
    countTrailingZeroes 64 (loadWord info idx) / 8 = k := by
  have hhigh := loadWord_byte hbyte idx hk
  have hlow : loadWord info idx % 2 ^ (8 * k) = 0 := by
    have h0 := hzero 0
    have h1 := hzero 1
    have h2 := hzero 2
    have h3 := hzero 3
    have h4 := hzero 4
    have h5 := hzero 5
    have h6 := hzero 6
    rw [loadWord]
    interval_cases k <;> simp only [Nat.add_zero] at * <;> omega
  have hword : loadWord info idx = 2 ^ (8 * k) * (loadWord info idx >>> (8 * k)) := by
    rw [Nat.shiftRight_eq_div_pow, Nat.mul_div_cancel' (Nat.dvd_of_mod_eq_zero hlow)]
  have hrest : countTrailingZeroes (64 - 8 * k) (loadWord info idx >>> (8 * k)) ≤ 7 := by
    apply countTrailingZeroes_le (by omega)
    rw [hhigh]
    exact hinfo
  have hcount := countTrailingZeroes_mul (64 - 8 * k) (8 * k) (loadWord info idx >>> (8 * k))
  rw [← hword, Nat.add_sub_cancel' (by omega)] at hcount
  omega

theorem loadWord_eq_zero_iff (info : Nat → Nat) (idx : Nat) : loadWord info idx = 0 ↔ ∀ i < 8, info (idx + i) = 0 := by
  constructor
  · intro hzero i hi
    rw [loadWord] at hzero
    rcases Nat.eq_zero_or_pos i with rfl | hpos
    · rw [Nat.add_zero]
      omega
    · interval_cases i <;> omega
  · intro hall
    have h0 := hall 0 (by decide)
    have h1 := hall 1 (by decide)
    have h2 := hall 2 (by decide)
    have h3 := hall 3 (by decide)
    have h4 := hall 4 (by decide)
    have h5 := hall 5 (by decide)
    have h6 := hall 6 (by decide)
    have h7 := hall 7 (by decide)
    rw [Nat.add_zero] at h0
    rw [loadWord]
    omega

theorem fastForward_eq (hbyte : ∀ i, t.info i ≤ 0xFF) (left : Nat) (hidx : idx ≤ stop) (hstop : t.info stop ≠ 0)
    (hbefore : ∀ i, idx ≤ i → i < stop → t.info i = 0) (hleft : stop + 8 ≤ idx + left) :
    fastForward t left idx = some stop := by
  induction left using Nat.strongRecOn generalizing idx with
  | ind left ih =>
    obtain ⟨left, rfl⟩ : ∃ k, left = k + 8 := ⟨left - 8, by omega⟩
    rw [fastForward]
    rcases Nat.lt_or_ge stop (idx + 8) with hnear | hfar
    · obtain ⟨k, rfl⟩ : ∃ k, stop = idx + k := ⟨stop - idx, by omega⟩
      have hword : loadWord t.info idx ≠ 0 := by
        rw [Ne, loadWord_eq_zero_iff]
        exact fun hall => hstop (hall k (by omega))
      rw [if_neg hword, countTrailingZeroes_loadWord hbyte (by omega) _ hstop]
      exact fun i hi => hbefore (idx + i) (by omega) (by omega)
    · have hword : loadWord t.info idx = 0 := by
        rw [loadWord_eq_zero_iff]
        exact fun i hi => hbefore (idx + i) (by omega) (by omega)
      rw [if_pos hword]
      exact ih left (by omega) hfar (fun i hi => hbefore i (by omega)) (by omega)

namespace Layout

theorem exists_next (h : Layout c t) (hidx : idx ≤ slotCount c t) :
    ∃ stop, idx ≤ stop ∧ stop ≤ slotCount c t ∧ t.info stop ≠ 0 ∧ (∀ i, idx ≤ i → i < stop → t.info i = 0) ∧
      entriesFrom t.keyVals idx (slotCount c t - idx) = entriesFrom t.keyVals stop (slotCount c t - stop) := by
  have hexists : ∃ stop, idx ≤ stop ∧ t.info stop ≠ 0 := by
    refine ⟨slotCount c t, hidx, ?_⟩
    rw [h.sentinel]
    exact Nat.one_ne_zero
  classical
  obtain ⟨hle, hinfo⟩ := Nat.find_spec hexists
  have hbound : Nat.find hexists ≤ slotCount c t := by
    apply Nat.find_min' hexists
    rw [h.sentinel]
    exact ⟨hidx, Nat.one_ne_zero⟩
  have hbefore : ∀ i, idx ≤ i → i < Nat.find hexists → t.info i = 0 := by
    intro i hi histop
    by_contra hne
    exact Nat.find_min hexists histop ⟨hi, hne⟩
  refine ⟨Nat.find hexists, hle, hbound, hinfo, hbefore, ?_⟩
  have hcount : slotCount c t - idx = (Nat.find hexists - idx) + (slotCount c t - Nat.find hexists) := by omega
  have hnone : entriesFrom t.keyVals idx (Nat.find hexists - idx) = [] := by
    apply entriesFrom_eq_nil
    intro i hi histop
    exact (h.info_eq_zero_iff (by omega)).mp (hbefore i hi (by omega))
  rw [hcount, entriesFrom_add, hnone, List.nil_append, Nat.add_sub_cancel' hle]

theorem visitFrom_eq (h : Layout c t) (left : Nat) (hidx : idx ≤ slotCount c t) (hinfo : t.info idx ≠ 0)
    (hleft : slotCount c t ≤ idx + left) :
    visitFrom c t left idx = some (entriesFrom t.keyVals idx (slotCount c t - idx)) := by
  induction left generalizing idx with
  | zero =>
    have hsame : idx = slotCount c t := by omega
    rw [visitFrom, h.endIdx_eq, if_pos hsame, hsame, Nat.sub_self]
    rfl
  | succ left ih =>
    rw [visitFrom, h.endIdx_eq]
    rcases Nat.eq_or_lt_of_le hidx with hsame | hlt
    · rw [if_pos hsame, hsame, Nat.sub_self]
      rfl
    · obtain ⟨node, hnode⟩ := Option.ne_none_iff_exists'.mp (mt (h.vacant idx hlt) hinfo)
      obtain ⟨stop, hstop, hslot, hinfo', hbefore, hrest⟩ := h.exists_next hlt
      have hbytes := h.infoBytes_eq
      have hnext : nextIdx c t idx = some stop :=
        fastForward_eq h.byte (infoBytes c t - (idx + 1)) hstop hinfo' hbefore (by omega)
      have hcount : slotCount c t - idx = slotCount c t - (idx + 1) + 1 := by omega
      simp (disch := omega) only [if_neg, hnode, Option.bind_some, hnext, ih, Option.map_some, hcount,
        entriesFrom_succ, hrest]
      rfl

theorem visitAll_eq (h : Layout c t) : visitAll c t = some (entries c t) := by
  rw [visitAll, beginIdx, h.endIdx_eq]
  split_ifs with hzero
  · have hnil := List.eq_nil_of_length_eq_zero (h.size ▸ hzero)
    have hinfo : t.info (slotCount c t) ≠ 0 := by
      rw [h.sentinel]
      exact Nat.one_ne_zero
    rw [Option.bind_some, h.visitFrom_eq _ le_rfl hinfo (by omega), Nat.sub_self, hnil]
    rfl
  · obtain ⟨stop, hstop, hslot, hinfo, hbefore, hall⟩ := h.exists_next (Nat.zero_le (slotCount c t))
    have hbytes := h.infoBytes_eq
    rw [fastForward_eq h.byte (infoBytes c t) hstop hinfo hbefore (by omega), Option.bind_some,
      h.visitFrom_eq _ hslot hinfo (by omega), ← hall, Nat.sub_zero, entries]

theorem visitFrom_next (h : Layout c t) (hidx : idx < slotCount c t) :
    ∃ after, (if t.info idx ≠ 0 then some idx else nextIdx c t idx) = some after ∧
      visitFrom c t (endIdx c t) after = some (entriesFrom t.keyVals idx (slotCount c t - idx)) := by
  have hbytes := h.infoBytes_eq
  rw [h.endIdx_eq]
  by_cases hinfo : t.info idx ≠ 0
  · exact ⟨idx, if_pos hinfo, h.visitFrom_eq _ hidx.le hinfo (by omega)⟩
  · obtain ⟨stop, hstop, hslot, hstopinfo, hbefore, hrest⟩ := h.exists_next hidx
    have hnext : nextIdx c t idx = some stop :=
      fastForward_eq h.byte _ hstop hstopinfo hbefore (by omega)
    have hcount : slotCount c t - idx = slotCount c t - (idx + 1) + 1 := by omega
    have hnone := (h.info_eq_zero_iff hidx).mp (not_not.mp hinfo)
    refine ⟨stop, by rw [if_neg hinfo, hnext], ?_⟩
    rw [h.visitFrom_eq _ hslot hstopinfo (by omega), hcount, entriesFrom_succ, hnone, Option.toList_none,
      List.nil_append, hrest]

end Layout

end Ktl.HashTable
