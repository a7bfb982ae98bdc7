import Ktl.HashTableGrowth

/-!
The loop of an insertion. Each round halves the units of the infos or doubles the array, and
an array of twice the size has space unless its buckets are crowded.
-/
namespace Ktl.HashTable

open RobinHood Relation

variable {α β : Type*} {c : Config α} {t : Table α β} {s : State α β}

/-! ## What happens to the storage -/

structure SameBlocks (s s' : State α β) : Prop where
  mask : s'.mask = s.mask
  array : s'.array = s.array
  allocator : s'.pool.allocator = s.pool.allocator
  chunks : s'.pool.listForFree = s.pool.listForFree
  heap : s'.heap = s.heap

/-- How an operation uses the heap: not at all, for a larger chunk, or for another array. -/
inductive StorageStep (c : Config α) : State α β → State α β → Prop
  | same {s s' : State α β} (h : SameBlocks s s') : StorageStep c s s'
  | chunk (s : State α β) : StorageStep c s (performAllocation c s)
  | array {s new : State α β} {numBuckets : Nat} (hmask : new.mask + 1 = numBuckets) (hpos : new.mask ≠ 0)
      (h : SameStorage (withArray c numBuckets s) new) : StorageStep c s (dropArray c s new)

abbrev Stored (c : Config α) : State α β → State α β → Prop := ReflTransGen (StorageStep c)

theorem SameStorage.sameBlocks (h : SameStorage s s') : SameBlocks s s' := by
  obtain ⟨hmask, harray, hpool, hheap⟩ := h
  exact ⟨hmask, harray, by rw [hpool], by rw [hpool], hheap⟩

theorem Rehashed.stored (h : Rehashed c numBuckets s s') : Stored c s s' := by
  obtain ⟨new, hstorage, rfl⟩ := h.storage
  have hmask := h.mask
  have hpos := h.layout.mask_pos
  rw [dropArray_toTable] at hmask hpos
  exact .single (.array hmask (Nat.lt_of_lt_of_le (show 0 < 7 by decide) hpos).ne' hstorage)

theorem newNode_toTable (c : Config α) (s : State α β) :
    (newNode c s).toTable = { s.toTable with pool := (newNode c s).pool } := by
  rw [newNode]
  dsimp only
  split
  · rfl
  · split <;> rfl

theorem newNode_stored (c : Config α) (s : State α β) : Stored c s (newNode c s) := by
  rw [newNode]
  dsimp only
  split
  · exact .refl
  · split
    · exact .tail (.single (.chunk s)) (.same ⟨rfl, rfl, rfl, rfl, rfl⟩)
    · exact .single (.same ⟨rfl, rfl, rfl, rfl, rfl⟩)

structure Constructs (c : Config α) (construct : State α β → State α β) : Prop where
  toTable : ∀ s, (construct s).toTable = { s.toTable with pool := (construct s).pool }
  stored : ∀ s, Stored c s (construct s)

theorem constructs_newNode (c : Config α) : Constructs c (newNode c : State α β → State α β) :=
  ⟨newNode_toTable c, newNode_stored c⟩
theorem constructs_id (c : Config α) : Constructs c (id : State α β → State α β) :=
  ⟨fun _ => rfl, fun _ => .refl⟩

/-! ## A table without an array -/

namespace Fresh

section

variable (h : Fresh t)

include h

theorem keyToIdx_eq (key : α) : ∃ info, 32 ≤ info ∧ keyToIdx c t key = (info, 0) := by
  refine ⟨t.infoInc + (hashOf c key &&& infoMask) >>> t.infoHashShift, ?_, ?_⟩
  · rw [h.infoInc, initialInfoInc]
    exact Nat.le_add_right _ _
  · rw [keyToIdx, h.mask, Nat.and_zero]
    rfl

theorem infoBytes_eq : infoBytes c t = 9 := by
  rw [infoBytes, slotCount_of_mask c h.mask]
  rfl

theorem probe_eq (key : α) : ∃ info idx, probe c t key = some (.absent info idx) := by
  obtain ⟨info, hinfo, hkey⟩ := h.keyToIdx_eq (c := c) key
  refine ⟨info, 0, ?_⟩
  rw [probe, hkey, h.infoBytes_eq]
  simp [nextWhileLess, nextWhile, probeEqual, h.info, show info ≠ 0 by omega]

theorem findIdx_eq (key : α) : findIdx c t key = some (endIdx c t) := by
  obtain ⟨info, hinfo, hkey⟩ := h.keyToIdx_eq (c := c) key
  rw [findIdx, hkey, h.infoBytes_eq]
  simp [findLoop, hit, h.info, h.infoInc, initialInfoInc, show info ≠ 0 by omega]

theorem eraseLoop_eq (key : α) :
    eraseLoop c t key (infoBytes c t - (keyToIdx c t key).2) (keyToIdx c t key).1 (keyToIdx c t key).2 = some none := by
  obtain ⟨info, hinfo, hkey⟩ := h.keyToIdx_eq (c := c) key
  rw [hkey, h.infoBytes_eq]
  simp [eraseLoop, hit, h.info, h.infoInc, initialInfoInc, show info ≠ 0 by omega]

theorem absent (key : α) : Absent c t key := by
  intro node hnode
  rw [h.entries_eq] at hnode
  cases hnode

end

theorem stored_withArray (h : Fresh s.toTable) : Stored c s (withArray c initialNumElements s) := by
  have hdrop : dropArray c s (withArray c initialNumElements s) = withArray c initialNumElements s :=
    if_pos h.mask
  exact hdrop ▸ .single (.array rfl (show initialNumElements - 1 ≠ 0 by decide) ⟨rfl, rfl, rfl, rfl⟩)

end Fresh

/-! ## Growing -/

theorem Config.calcMaxNumElementsAllowed_lt (c : Config α) (hpos : 0 < numBuckets) :
    c.calcMaxNumElementsAllowed numBuckets < numBuckets := by
  have hlt := c.loadFactor_lt
  rw [calcMaxNumElementsAllowed]
  split
  · rw [Nat.div_lt_iff_lt_mul (by decide)]
    exact Nat.mul_lt_mul_of_pos_left hlt hpos
  · have := Nat.mul_le_mul_left (numBuckets / 100) (Nat.le_of_lt_succ hlt)
    omega

theorem Config.calcMaxNumElementsAllowed_le (c : Config α) (numBuckets : Nat) :
    c.calcMaxNumElementsAllowed numBuckets ≤ numBuckets := by
  rcases Nat.eq_zero_or_pos numBuckets with rfl | hpos
  · simp [calcMaxNumElementsAllowed]
  · exact (c.calcMaxNumElementsAllowed_lt hpos).le

def Grows (c : Config α) (t : Table α β) : Prop :=
  t.maxNumElementsAllowed ≤ t.numElements ∧
    ¬ (t.numElements < c.calcMaxNumElementsAllowed (t.mask + 1) ∧ 2 < t.infoInc) ∧
    c.calcMaxNumElementsAllowed (t.mask + 1) ≤ 2 * t.numElements

def Rehashable (c : Config α) (t : Table α β) (numBuckets : Nat) : Prop :=
  Room c numBuckets ∧ ¬ CrowdedIn c numBuckets (entries c t).dropLast

def GrowthSafe (c : Config α) (t : Table α β) : Prop :=
  if t.mask = 0 then
    Room c initialNumElements ∧ (c.calcMaxNumElementsAllowed initialNumElements = 0 → Room c (initialNumElements * 2))
  else Grows c t → Rehashable c t ((t.mask + 1) * 2) ∧
      -- a second time, if the larger array is crowded as well
      (CrowdedIn c ((t.mask + 1) * 2) (entries c t) →
        c.calcMaxNumElementsAllowed ((t.mask + 1) * 2) ≤ 2 * t.numElements →
        Room c ((t.mask + 1) * 4) ∧ ¬ CrowdedIn c ((t.mask + 1) * 4) (entries c t))

structure Calm (c : Config α) (t : Table α β) : Prop where
  layout : Layout c t
  load : t.numElements < c.calcMaxNumElementsAllowed (t.mask + 1)
  space : t.numElements < t.maxNumElementsAllowed ∨ 2 < t.infoInc

theorem Calm.growthSafe (h : Calm c t) : GrowthSafe c t := by
  have hpos := h.layout.mask_pos
  rw [GrowthSafe, if_neg (by omega)]
  rintro ⟨hspace, hstuck, _⟩
  exact absurd ⟨h.load, h.space.resolve_left (by omega)⟩ hstuck

namespace Layout

theorem increaseSize_calm (h : Calm c s.toTable) (hinc : 2 < s.infoInc) :
    ∃ t, increaseSize c s = .returned () { s with toTable := t } ∧ Layout c t ∧
      entries c t = entries c s.toTable ∧ t.numElements = s.numElements ∧ t.mask = s.mask ∧
      t.maxNumElementsAllowed = c.calcMaxNumElementsAllowed (t.mask + 1) ∧ Roomy c t ∧
      SameStorage s { s with toTable := t } := by
  obtain ⟨t, htry, ht, hnodes, hmask, hnum, harray, hpool, hmax, hroomy⟩ :=
    h.layout.tryIncreaseInfo_eq hinc
  have hpos := h.layout.mask_pos
  have hentries : entries c t = entries c s.toTable := by
    rw [entries, entries, slotCount, slotCount, hmask, hnodes]
  refine ⟨t, ?_, ht, hentries, hnum, hmask, by rw [hmask, hmax], hroomy, hmask, harray, hpool, rfl⟩
  rw [increaseSize, if_neg (by omega)]
  dsimp only
  rw [if_pos h.load, htry]

theorem increaseSize_of_not_calm (h : Layout c s.toTable)
    (hstuck : ¬ (s.numElements < c.calcMaxNumElementsAllowed (s.mask + 1) ∧ 2 < s.infoInc)) :
    increaseSize c s = if 2 * s.numElements < c.calcMaxNumElementsAllowed (s.mask + 1)
      then .overflowError s else rehashPowerOfTwo c ((s.mask + 1) * 2) s := by
  have hpos := h.mask_pos
  have hlt := Config.two_pow_lt h.room
  have hload := h.load
  have hle := c.calcMaxNumElementsAllowed_le (s.mask + 1)
  have hnone : (if s.numElements < c.calcMaxNumElementsAllowed (s.mask + 1) then
      tryIncreaseInfo c s.toTable else none) = none := by
    split_ifs with hfits
    · exact if_pos (not_lt.mp fun hinc => hstuck ⟨hfits, hinc⟩)
    · rfl
  rw [increaseSize, if_neg (by omega)]
  dsimp only
  rw [hnone, Nat.mod_eq_of_lt (show s.numElements * 2 < 2 ^ 64 by omega),
    Nat.mod_eq_of_lt (show (s.mask + 1) * 2 < 2 ^ 64 by omega), Nat.mul_comm s.numElements]

theorem buckets_double (h : Layout c t) :
    (∃ k, 3 ≤ k ∧ (t.mask + 1) * 2 = 2 ^ k) ∧ ∃ k, 3 ≤ k ∧ (t.mask + 1) * 4 = 2 ^ k := by
  obtain ⟨k, hk, hmask⟩ := h.buckets
  refine ⟨⟨k + 1, by omega, by rw [hmask, Nat.pow_succ]⟩, k + 2, by omega, ?_⟩
  rw [hmask, Nat.pow_succ, Nat.pow_succ]
  omega

theorem load_double (h : Layout c t) : t.numElements < c.calcMaxNumElementsAllowed ((t.mask + 1) * 2) := by
  have hpos := h.mask_pos
  exact h.load.trans_lt (c.calcMaxNumElementsAllowed_lt_double (by omega))

end Layout

theorem Rehashed.numElements_eq (h : Layout c s.toTable) (h' : Rehashed c numBuckets s s') :
    s'.numElements = s.numElements := by
  rw [h'.layout.size, h.size, h'.perm.length_eq]

theorem Layout.calm (h : Layout c t) (htight : Tight c t)
    (hload : t.numElements < c.calcMaxNumElementsAllowed (t.mask + 1))
    (hspread : ¬ CrowdedIn c (t.mask + 1) (entries c t)) : Calm c t := by
  refine ⟨h, hload, ?_⟩
  rcases h.limit with hzero | ⟨hmax, _⟩
  · right
    by_contra hinc
    exact hspread (h.crowded_of_full (not_lt.mp hinc) ((htight hzero).resolve_left (by omega)))
  · left
    rw [hmax]
    exact hload

theorem Rehashed.calm (h : Layout c s.toTable) (h' : Rehashed c numBuckets s s')
    (hload : s.numElements < c.calcMaxNumElementsAllowed numBuckets)
    (hspread : ¬ CrowdedIn c numBuckets (entries c s.toTable)) : Calm c s'.toTable := by
  apply h'.layout.calm h'.tight
  · rw [h'.numElements_eq h, h'.mask]
    exact hload
  · rw [h'.mask, crowdedIn_iff_of_perm h'.perm]
    exact hspread

/-! ## The loop -/

section
variable {construct : State α β → State α β}

/-- The node is in the table, or the table has the nodes it had. -/
def InsertedOrThrew (c : Config α) (node : α × β) (s : State α β) : Call (State α β) (Nat × Bool) → Prop
  | .returned (idx, inserted) s' => inserted = true ∧ Layout c s'.toTable ∧ idx < slotCount c s'.toTable ∧
      s'.keyVals idx = some node ∧ (entries c s'.toTable).Perm (node :: entries c s.toTable) ∧ Stored c s s'
  | .overflowError s' => Layout c s'.toTable ∧ (entries c s'.toTable).Perm (entries c s.toTable) ∧ Stored c s s'
  | .undefined => False

theorem InsertedOrThrew.of_perm (hperm : (entries c s'.toTable).Perm (entries c s.toTable))
    (hstored : Stored c s s') (h : InsertedOrThrew c node s' call) : InsertedOrThrew c node s call := by
  cases call with
  | returned value s₁ =>
    obtain ⟨hinserted, hlayout, hidx, hnode, hperm', hstored'⟩ := h
    exact ⟨hinserted, hlayout, hidx, hnode, hperm'.trans (hperm.cons node), hstored.trans hstored'⟩
  | overflowError s₁ =>
    obtain ⟨hlayout, hperm', hstored'⟩ := h
    exact ⟨hlayout, hperm'.trans hperm, hstored.trans hstored'⟩
  | undefined => exact h

theorem absent_of_perm (hperm : (entries c t').Perm (entries c t)) (h : Absent c t key) : Absent c t' key :=
  fun node hnode => h node (hperm.subset hnode)

theorem insertLoop_succ (construct : State α β → State α β) (h : Layout c s.toTable)
    (habsent : Absent c s.toTable node.1) (rounds : Nat) :
    ∃ idx, Vacancy c s.toTable node.1 idx ∧ insertLoop c node construct (rounds + 1) s =
      if s.maxNumElementsAllowed ≤ s.numElements then
        (increaseSize c s).andThen fun _ s => insertLoop c node construct rounds s
      else .ofOption <| (putNode c s.toTable node (keyInfo c s.toTable node.1 idx) idx).map fun t =>
        ((idx, true), construct { s with toTable := t }) := by
  obtain ⟨result, hprobe, hres⟩ := h.probe_eq node.1
  cases result with
  | found idx =>
    obtain ⟨_, other, _, hmem, hkey⟩ := h.mem_of_isAt hres
    rw [habsent other hmem] at hkey
    cases hkey
  | absent info idx =>
    obtain ⟨rfl, hv, _⟩ := hres
    refine ⟨idx, hv, ?_⟩
    rw [insertLoop, hprobe]

def Placed (c : Config α) (node : α × β) (s : State α β) (call : Call (State α β) (Nat × Bool)) : Prop :=
  ∃ idx s', call = .returned (idx, true) s' ∧ InsertedOrThrew c node s (.returned (idx, true) s') ∧
    s'.mask = s.mask ∧ Tight c s'.toTable

theorem Placed.insertedOrThrew (h : Placed c node s call) : InsertedOrThrew c node s call := by
  obtain ⟨idx, s', rfl, hinserted, _⟩ := h
  exact hinserted

theorem insertLoop_grow (h : Layout c s.toTable) (habsent : Absent c s.toTable node.1)
    (hspace : s.maxNumElementsAllowed ≤ s.numElements)
    (hstuck : ¬ (s.numElements < c.calcMaxNumElementsAllowed (s.mask + 1) ∧ 2 < s.infoInc))
    (hsafe : c.calcMaxNumElementsAllowed (s.mask + 1) ≤ 2 * s.numElements →
      Rehashable c s.toTable ((s.mask + 1) * 2)) (rounds : Nat)
    (hnext : ∀ s', c.calcMaxNumElementsAllowed (s.mask + 1) ≤ 2 * s.numElements → Rehashed c ((s.mask + 1) * 2) s s' →
      InsertedOrThrew c node s' (insertLoop c node construct rounds s')) :
    InsertedOrThrew c node s (insertLoop c node construct (rounds + 1) s) := by
  obtain ⟨idx, _, hround⟩ := insertLoop_succ construct h habsent rounds
  rw [hround, if_pos hspace, h.increaseSize_of_not_calm hstuck]
  by_cases hhalf : 2 * s.numElements < c.calcMaxNumElementsAllowed (s.mask + 1)
  · rw [if_pos hhalf]
    exact ⟨h, .refl _, .refl⟩
  · have hgrows := not_lt.mp hhalf
    obtain ⟨hroom, hspread⟩ := hsafe hgrows
    obtain ⟨s', hrun, hrehashed⟩ :=
      (rehashPowerOfTwo_eq (.inr h) hroom h.buckets_double.1 h.load_double.le).1 hspread
    rw [if_neg hhalf, hrun]
    exact (hnext s' hgrows hrehashed).of_perm hrehashed.perm hrehashed.stored

theorem not_calm (h : Layout c t) (hcalm : ¬ Calm c t) : t.maxNumElementsAllowed ≤ t.numElements ∧
      ¬ (t.numElements < c.calcMaxNumElementsAllowed (t.mask + 1) ∧ 2 < t.infoInc) := by
  constructor
  · by_contra hspace
    have hmax := (h.limit.resolve_left (by omega)).1
    exact hcalm ⟨h, by omega, .inl (by omega)⟩
  · rintro ⟨hload, hinc⟩
    exact hcalm ⟨h, hload, .inr hinc⟩

theorem growthSafe_withArray
    (hnext : c.calcMaxNumElementsAllowed initialNumElements = 0 → Room c (initialNumElements * 2)) :
    GrowthSafe c (withArray c initialNumElements s).toTable := by
  have hmask : (withArray c initialNumElements s).mask ≠ 0 := show initialNumElements - 1 ≠ 0 by decide
  rw [GrowthSafe, if_neg hmask, entries_withArray]
  have hnil : ∀ numBuckets, ¬ CrowdedIn c numBuckets ([] : List (α × β)) :=
    fun numBuckets hcrowd => ne_nil_of_crowdedIn hcrowd rfl
  rintro ⟨_, _, hgrows⟩
  refine ⟨⟨hnext (Nat.le_zero.mp hgrows), ?_⟩, fun hcrowd => absurd hcrowd (hnil _)⟩
  rw [entries_withArray]
  exact hnil _

section

variable (hconstruct : Constructs c construct)

include hconstruct

theorem insertLoop_put (h : Layout c s.toTable) (habsent : Absent c s.toTable node.1)
    (hspace : s.numElements < s.maxNumElementsAllowed) (rounds : Nat) :
    Placed c node s (insertLoop c node construct (rounds + 1) s) := by
  obtain ⟨idx, hv, hround⟩ := insertLoop_succ construct h habsent rounds
  obtain ⟨hmax, hroomy⟩ := h.limit.resolve_left (by omega)
  obtain ⟨last, limit, hidx, hlast, hput, hlayout, hperm, htight⟩ :=
    h.putNode_eq hmax hroomy (by omega) hv habsent
  rw [hround, if_neg (by omega), hput, Option.map_some]
  obtain ⟨t, ht⟩ : ∃ t, t = withNode s.toTable node (keyInfo c s.toTable node.1 idx) idx last limit :=
    ⟨_, rfl⟩
  have htable := hconstruct.toTable { s with toTable := t }
  have hsame : SameBlocks s { s with toTable := t } := by
    rw [ht]
    exact ⟨rfl, rfl, rfl, rfl, rfl⟩
  have hnode : t.keyVals idx = some node := by
    rw [ht]
    exact openSlot_new
  have hslots : idx < slotCount c t := by
    rw [ht]
    exact hidx.trans_lt hlast
  have htight : Tight c t := by
    rw [ht]
    exact fun hzero => .inr (htight hzero)
  rw [← ht] at hlayout hperm ⊢
  refine ⟨idx, _, rfl, ⟨rfl, ?_, ?_, ?_, ?_, .trans (.single (.same hsame)) (hconstruct.stored _)⟩, ?_, ?_⟩
  · rw [htable]
    exact hlayout.withStorage _ _
  · rw [htable]
    exact hslots
  · rw [htable]
    exact hnode
  · rw [htable]
    exact hperm
  · rw [htable]
    exact hsame.mask
  · rw [htable]
    exact htight

theorem insertLoop_calm (h : Calm c s.toTable) (habsent : Absent c s.toTable node.1) (rounds : Nat) :
    Placed c node s (insertLoop c node construct (rounds + 2) s) := by
  by_cases hspace : s.numElements < s.maxNumElementsAllowed
  · exact insertLoop_put hconstruct h.layout habsent hspace (rounds + 1)
  · obtain ⟨t, hgrow, ht, hentries, hnum, hmask, hmax, hroomy, hstorage⟩ :=
      Layout.increaseSize_calm h (h.space.resolve_left hspace)
    obtain ⟨idx, _, hround⟩ := insertLoop_succ construct h.layout habsent (rounds + 1)
    have hload := h.load
    have hnext : Placed c node { s with toTable := t }
        (insertLoop c node construct (rounds + 1) { s with toTable := t }) := by
      apply insertLoop_put hconstruct ht
      · rw [Absent, hentries]
        exact habsent
      · rw [hnum, hmax, hmask]
        exact hload
    rw [hround, if_pos (by omega), hgrow]
    obtain ⟨idx, s', hrun, hinserted, hmask', htight⟩ := hnext
    exact ⟨idx, s', hrun, hinserted.of_perm (by rw [hentries]) (.single (.same hstorage.sameBlocks)),
      hmask'.trans hmask, htight⟩

theorem insertLoop_layout (h : Layout c s.toTable) (habsent : Absent c s.toTable node.1)
    (hsafe : GrowthSafe c s.toTable) (rounds : Nat) :
    InsertedOrThrew c node s (insertLoop c node construct (rounds + 4) s) := by
  have hpos := h.mask_pos
  rw [GrowthSafe, if_neg (by omega)] at hsafe
  by_cases hcalm : Calm c s.toTable
  · exact (insertLoop_calm hconstruct hcalm habsent (rounds + 2)).insertedOrThrew
  obtain ⟨hspace, hstuck⟩ := not_calm h hcalm
  refine insertLoop_grow h habsent hspace hstuck (fun hgrows => (hsafe ⟨hspace, hstuck, hgrows⟩).1) _ ?_
  intro s₂ hgrows hrehashed
  have h₂ := hrehashed.layout
  have habsent₂ := absent_of_perm hrehashed.perm habsent
  have hnum := hrehashed.numElements_eq h
  have hmask := hrehashed.mask
  by_cases hcalm₂ : Calm c s₂.toTable
  · exact (insertLoop_calm hconstruct hcalm₂ habsent₂ (rounds + 1)).insertedOrThrew
  -- the larger array is crowded, so the next one must not be
  have hcrowded : CrowdedIn c ((s.mask + 1) * 2) (entries c s.toTable) := by
    by_contra hspread
    exact hcalm₂ (hrehashed.calm h h.load_double hspread)
  have hfour : (s₂.mask + 1) * 2 = (s.mask + 1) * 4 := by omega
  obtain ⟨hspace₂, hstuck₂⟩ := not_calm h₂ hcalm₂
  have hsecond := (hsafe ⟨hspace, hstuck, hgrows⟩).2 hcrowded
  rw [← hnum, ← hmask, ← hfour] at hsecond
  have hspread₂ : c.calcMaxNumElementsAllowed (s₂.mask + 1) ≤ 2 * s₂.numElements →
      ¬ CrowdedIn c ((s₂.mask + 1) * 2) (entries c s₂.toTable) := by
    intro hgrows₂
    rw [crowdedIn_iff_of_perm hrehashed.perm]
    exact (hsecond hgrows₂).2
  refine insertLoop_grow h₂ habsent₂ hspace₂ hstuck₂ (fun hgrows₂ => ⟨(hsecond hgrows₂).1, ?_⟩) _ ?_
  · exact fun hcrowd => hspread₂ hgrows₂ (hcrowd.of_subperm (List.dropLast_sublist _).subperm)
  · intro s₄ hgrows₂ hrehashed₂
    exact (insertLoop_calm hconstruct (hrehashed₂.calm h₂ h₂.load_double (hspread₂ hgrows₂))
      (absent_of_perm hrehashed₂.perm habsent₂) rounds).insertedOrThrew

theorem doInsert_absent (hinv : Inv c s.toTable) (habsent : Absent c s.toTable node.1)
    (hsafe : GrowthSafe c s.toTable) : InsertedOrThrew c node s (doInsert c node construct s) := by
  rcases hinv with hfresh | h
  · rw [GrowthSafe, if_pos hfresh.mask] at hsafe
    obtain ⟨info, idx, hprobe⟩ := hfresh.probe_eq (c := c) node.1
    obtain ⟨_, hlayout⟩ := layout_withArray hsafe.1 ⟨3, le_rfl, rfl⟩ s
    have habsent' : Absent c (withArray c initialNumElements s).toTable node.1 := by
      intro other hother
      rw [entries_withArray] at hother
      cases hother
    have hnext := insertLoop_layout hconstruct hlayout habsent' (growthSafe_withArray hsafe.2) 315
    have hround : doInsert c node construct s = insertLoop c node construct 319 (withArray c initialNumElements s) := by
      rw [doInsert, insertRounds, insertLoop, hprobe]
      dsimp only
      rw [if_pos (by rw [hfresh.maxNumElementsAllowed]; exact Nat.zero_le _), increaseSize, if_pos hfresh.mask,
        initData_eq hsafe.1]
      rfl
    rw [hround]
    refine hnext.of_perm ?_ hfresh.stored_withArray
    rw [entries_withArray, hfresh.entries_eq]
  · exact insertLoop_layout hconstruct h habsent hsafe 316

end

theorem doInsert_present (construct : State α β → State α β) (h : Layout c s.toTable)
    (hmem : node ∈ entries c s.toTable) (hkey : c.keyEqual key node.1 = true) (value : β) :
    ∃ idx, doInsert c (key, value) construct s = .returned (idx, false) s ∧
      idx < slotCount c s.toTable ∧ ∃ node', s.keyVals idx = some node' ∧ node' ∈ entries c s.toTable ∧
      c.keyEqual key node'.1 = true := by
  obtain ⟨result, hprobe, hres⟩ := h.probe_eq key
  cases result with
  | found idx =>
    obtain ⟨hidx, node', hnode', hmem', hkey'⟩ := h.mem_of_isAt hres
    refine ⟨idx, ?_, hidx, node', hnode', hmem', hkey'⟩
    rw [doInsert, insertRounds, insertLoop, hprobe]
  | absent info idx =>
    have habsent := hres.2.2 node hmem
    rw [hkey] at habsent
    cases habsent

end

end Ktl.HashTable
