import Ktl.HashTableWords

/-!
Rehashing. An insertion into the new array gives up if some info has no space for a further
unit and the units cannot be made smaller. This happens exactly if, before the last
insertion, some neighbouring buckets are the homes of at least 127 more nodes than they are.
-/
namespace Ktl.HashTable

open RobinHood List

variable {α β : Type*} {t : Table α β} {node : α × β}

def maxDistance : Nat := 126

def CrowdedIn (c : Config α) (numBuckets : Nat) (nodes : List (α × β)) : Prop :=
  Crowded maxDistance (fun node => homeOf c numBuckets node.1) nodes

/-- An array that was filled by insertions only: the limit is zero only for want of
space. -/
def Tight (c : Config α) (t : Table α β) : Prop :=
  t.maxNumElementsAllowed = 0 → c.calcMaxNumElementsAllowed (t.mask + 1) = 0 ∨ ¬ Roomy c t

theorem crowdedIn_iff_of_perm (hperm : nodes.Perm nodes') :
    CrowdedIn c numBuckets nodes ↔ CrowdedIn c numBuckets nodes' :=
  ⟨Crowded.of_subperm hperm.subperm, Crowded.of_subperm hperm.symm.subperm⟩

/-! ## Distances -/

namespace Layout

theorem packed (h : Layout c t) :
    Packed (slotCount c t) (fun node : α × β => homeOf c (t.mask + 1) node.1) t.keyVals := by
  constructor
  · intro i node hi hnode
    exact (h.occupied i node hi hnode).1
  · intro i node hi hnode hhome
    have hinfo := (h.occupied (i + 1) node hi hnode).2
    have htwo := two_mul_le_infoAt t.infoInc (bitsOf c t.infoHashShift node.1)
      (show homeOf c (t.mask + 1) node.1 < i + 1 by omega)
    rw [← keyInfo, ← hinfo] at htwo
    have hnext := h.ordered.next i
    have hinc := h.two_le_inc
    obtain ⟨hislot, other, hother⟩ := h.node_of_inc_le i (by omega)
    refine ⟨other, hother, ?_⟩
    obtain ⟨hotherhome, hotherinfo⟩ := h.occupied i other hislot hother
    -- the info in front is not less, so the home is not later
    by_contra hlater
    have hbits := h.bitsOf_lt other.1
    rw [hinfo, keyInfo_succ hhome, hotherinfo] at hnext
    have hless : keyInfo c t other.1 i < keyInfo c t node.1 i := by
      rw [keyInfo, keyInfo, infoAt, infoAt]
      have hdist : (i - homeOf c (t.mask + 1) other.1 + 1 + 1) * t.infoInc
          ≤ (i - homeOf c (t.mask + 1) node.1 + 1) * t.infoInc := Nat.mul_le_mul_right _ (by omega)
      rw [Nat.add_mul, Nat.one_mul] at hdist
      omega
    have hunit := inc_le_keyInfo c t node.1 i
    omega

theorem crowded_of_full (h : Layout c t) (hinc : t.infoInc ≤ 2) (hfull : ¬ Roomy c t) :
    CrowdedIn c (t.mask + 1) (entries c t) := by
  have htwo := h.two_le_inc
  simp only [Roomy, not_forall] at hfull
  obtain ⟨i, hi, hinfo⟩ := hfull
  obtain ⟨node, hnode⟩ := Option.ne_none_iff_exists'.mp (mt (h.vacant i hi) (by omega))
  obtain ⟨hhome, hnodeinfo⟩ := h.occupied i node hi hnode
  have hbits := h.bitsOf_lt node.1
  apply h.packed.crowded hi hnode
  rw [keyInfo, infoAt] at hnodeinfo
  have hunit : t.infoInc = 2 := by omega
  rw [hunit] at hnodeinfo hbits hinfo
  rw [maxDistance]
  omega

theorem not_crowded (h : Layout c t) (hspace : t.maxNumElementsAllowed ≠ 0 ∨ 2 < t.infoInc) :
    ¬ CrowdedIn c (t.mask + 1) (entries c t) := by
  apply h.packed.not_crowded
  intro i node hi hnode
  have hfar := h.distance_mul_le hi hnode
  have hbyte := h.byte i
  have htwo := h.two_le_inc
  by_contra hge
  rw [maxDistance] at hge
  have hdist : 127 * t.infoInc ≤ (i - homeOf c (t.mask + 1) node.1 + 1) * t.infoInc :=
    Nat.mul_le_mul_right _ (by omega)
  rcases hspace with hlimit | hinc
  · rcases h.limit with hzero | ⟨_, hroomy⟩
    · exact hlimit hzero
    · have := hroomy i hi
      omega
  · omega

end Layout

/-! ## A new array -/

def withArray (c : Config α) (numBuckets : Nat) (s : State α β) : State α β where
  keyVals _ := none
  info idx := if idx = c.calcNumElementsWithBuffer numBuckets then 1 else 0
  numElements := 0
  mask := numBuckets - 1
  maxNumElementsAllowed := c.calcMaxNumElementsAllowed numBuckets
  infoInc := initialInfoInc
  infoHashShift := 0
  array := s.heap.next
  pool := s.pool
  heap := s.heap.allocate s.pool.allocator (c.calcNumBytesTotal (c.calcNumElementsWithBuffer numBuckets))

theorem initData_eq (hroom : Room c numBuckets) (s : State α β) :
    initData c numBuckets s = .returned () (withArray c numBuckets s) := by
  have htotal := Config.calcNumBytesTotal_eq hroom
  rw [initData, if_pos (by omega)]
  rfl

theorem layout_of_cleared (hbuckets : ∃ k, 3 ≤ k ∧ t.mask + 1 = 2 ^ k) (hroom : Room c (t.mask + 1))
    (hshift : t.infoHashShift = 0) (hinc : t.infoInc = 32) (hnone : ∀ i < slotCount c t, t.keyVals i = none)
    (hinfo : ∀ i, t.info i = if i = slotCount c t then 1 else 0) (hzero : t.numElements = 0)
    (hlimit : t.maxNumElementsAllowed = 0 ∨ t.maxNumElementsAllowed = c.calcMaxNumElementsAllowed (t.mask + 1)) :
    Layout c t ∧ entries c t = [] := by
  have hentries : entries c t = [] := entriesFrom_eq_nil fun i _ hi => hnone i (by omega)
  have hvacant : ∀ i, i ≠ slotCount c t → t.info i = 0 := fun i hi => (hinfo i).trans (if_neg hi)
  have hsmall : ∀ i, t.info i ≤ 1 := by
    intro i
    rw [hinfo]
    split <;> decide
  refine ⟨?_, hentries⟩
  constructor
  · exact hbuckets
  · exact hroom
  · rw [hshift]
    exact Nat.zero_le _
  · rw [hinc, hshift]
    rfl
  · exact fun i hi _ => hvacant i hi.ne
  · intro i node hi hnode
    rw [hnone i hi] at hnode
    cases hnode
  · rw [hinc]
    exact ⟨(hsmall 0).trans_lt (by decide), fun i => .inr ((hsmall (i + 1)).trans_lt (by decide))⟩
  · exact (hinfo _).trans (if_pos rfl)
  · exact fun i hi => hvacant i hi.ne'
  · exact fun i => (hsmall i).trans (by decide)
  · rw [hzero, hentries]
    rfl
  · rw [hzero]
    exact Nat.zero_le _
  · refine hlimit.imp_right fun hmax => ⟨hmax, fun i hi => ?_⟩
    rw [hvacant i hi.ne, hinc]
    decide
  · rw [hentries]
    exact List.Pairwise.nil

theorem entries_withArray (numBuckets : Nat) (s : State α β) : entries c (withArray c numBuckets s).toTable = [] :=
  entriesFrom_eq_nil fun _ _ _ => rfl

theorem layout_withArray (hroom : Room c numBuckets) (hbuckets : ∃ k, 3 ≤ k ∧ numBuckets = 2 ^ k) (s : State α β) :
    (withArray c numBuckets s).mask + 1 = numBuckets ∧ Layout c (withArray c numBuckets s).toTable := by
  have hmask : (withArray c numBuckets s).mask + 1 = numBuckets := by
    obtain ⟨k, _, rfl⟩ := hbuckets
    exact Nat.sub_add_cancel Nat.one_le_two_pow
  refine ⟨hmask, (layout_of_cleared ?_ ?_ rfl rfl (fun _ _ => rfl) ?_ rfl (.inr ?_)).1⟩
  · rwa [hmask]
  · rwa [hmask]
  · rw [slotCount, hmask]
    exact fun _ => rfl
  · rw [hmask]
    rfl

/-! ## Inserting the old nodes -/

def SameStorage (s s' : State α β) : Prop :=
  s'.mask = s.mask ∧ s'.array = s.array ∧ s'.pool = s.pool ∧ s'.heap = s.heap

theorem SameStorage.trans (h : SameStorage s₁ s₂) (h' : SameStorage s₂ s₃) : SameStorage s₁ s₃ :=
  ⟨h'.1.trans h.1, h'.2.1.trans h.2.1, h'.2.2.1.trans h.2.2.1, h'.2.2.2.trans h.2.2.2⟩

theorem insertMove_stuck (node : α × β) (hlimit : s.maxNumElementsAllowed = 0) (hinc : s.infoInc ≤ 2) :
    insertMove c node s = .overflowError s := by
  rw [insertMove]
  dsimp only
  rw [if_pos hlimit, tryIncreaseInfo, if_pos hinc]

theorem Layout.insertMove_ready (h : Layout c t)
    (hmax : t.maxNumElementsAllowed = c.calcMaxNumElementsAllowed (t.mask + 1)) (hroomy : Roomy c t)
    (hload : t.numElements < c.calcMaxNumElementsAllowed (t.mask + 1)) (habsent : Absent c t node.1) :
    ∃ info idx t', nextWhileLessOrEqual t (infoBytes c t - (keyToIdx c t node.1).2)
          (keyToIdx c t node.1).1 (keyToIdx c t node.1).2 = some (info, idx) ∧
      putNode c t node (info % 256) idx = some t' ∧ Layout c t' ∧
      (entries c t').Perm (node :: entries c t) ∧ Tight c t' ∧
      t'.mask = t.mask ∧ t'.array = t.array ∧ t'.pool = t.pool := by
  obtain ⟨idx, hwalk, hv⟩ := h.nextWhileLessOrEqual_eq node.1
  obtain ⟨last, limit, hidx, hlast, hput, hlayout, hperm, htight⟩ :=
    h.putNode_eq hmax hroomy hload hv habsent
  have hinfo := h.keyInfo_le hroomy hv (by omega)
  refine ⟨keyInfo c t node.1 idx, idx, _, ?_, ?_, hlayout, hperm, fun hzero => .inr (htight hzero),
    rfl, rfl, rfl⟩
  · rw [h.keyToIdx_eq, hwalk]
  · rw [Nat.mod_eq_of_lt (by omega), hput]

theorem Layout.insertMove_eq (h : Layout c s.toTable) (hspace : s.maxNumElementsAllowed ≠ 0 ∨ 2 < s.infoInc)
    (hload : s.numElements < c.calcMaxNumElementsAllowed (s.mask + 1)) (habsent : Absent c s.toTable node.1) :
    ∃ idx s', insertMove c node s = .returned idx s' ∧ Layout c s'.toTable ∧
      (entries c s'.toTable).Perm (node :: entries c s.toTable) ∧ Tight c s'.toTable ∧
      SameStorage s s' := by
  -- the table that the node goes to
  obtain ⟨t, hready, ht, hmax, hroomy, hnodes, hmask, hnum, harray, hpool⟩ : ∃ t : Table α β,
      (if s.maxNumElementsAllowed = 0 then tryIncreaseInfo c s.toTable else some s.toTable) = some t ∧
      Layout c t ∧ t.maxNumElementsAllowed = c.calcMaxNumElementsAllowed (t.mask + 1) ∧ Roomy c t ∧
      t.keyVals = s.keyVals ∧ t.mask = s.mask ∧ t.numElements = s.numElements ∧ t.array = s.array ∧
      t.pool = s.pool := by
    by_cases hzero : s.maxNumElementsAllowed = 0
    · have hinc : 2 < s.infoInc := hspace.resolve_left (fun hne => hne hzero)
      obtain ⟨t, htry, ht, hnodes, hmask, hnum, harray, hpool, hmax, hroomy⟩ := h.tryIncreaseInfo_eq hinc
      rw [← hmask] at hmax
      exact ⟨t, by rw [if_pos hzero, htry], ht, hmax, hroomy, hnodes, hmask, hnum, harray, hpool⟩
    · obtain ⟨hmax, hroomy⟩ := h.limit.resolve_left hzero
      exact ⟨s.toTable, if_neg hzero, h, hmax, hroomy, rfl, rfl, rfl, rfl, rfl⟩
  have hentries : entries c t = entries c s.toTable := by
    rw [entries, entries, slotCount, slotCount, hmask, hnodes]
  have habsent' : Absent c t node.1 := by
    rw [Absent, hentries]
    exact habsent
  rw [← hnum, ← hmask] at hload
  obtain ⟨info, idx, t', hwalk, hput, hlayout, hperm, htight, hmask', harray', hpool'⟩ :=
    ht.insertMove_ready hmax hroomy hload habsent'
  refine ⟨idx, { s with toTable := t' }, ?_, hlayout, hentries ▸ hperm, htight,
    hmask'.trans hmask, harray'.trans harray, hpool'.trans hpool, rfl⟩
  rw [insertMove]
  dsimp only
  rw [hready]
  dsimp only
  rw [hwalk, Option.bind_some]
  dsimp only
  rw [hput]
  rfl

def insertAll (c : Config α) : List (α × β) → State α β → Call (State α β) Unit
  | [], s => .returned () s
  | node :: rest, s => (insertMove c node s).andThen fun _ s => insertAll c rest s

theorem moveNodes_eq (old : Table α β) (slots : List Nat) (s : State α β)
    (hold : ∀ i ∈ slots, old.info i = 0 ↔ old.keyVals i = none) :
    moveNodes c old slots s = insertAll c (slots.filterMap old.keyVals) s := by
  induction slots generalizing s with
  | nil => rfl
  | cons idx rest ih =>
    have hrest : ∀ i ∈ rest, old.info i = 0 ↔ old.keyVals i = none :=
      fun i hi => hold i (mem_cons_of_mem idx hi)
    have hidx := hold idx mem_cons_self
    rw [moveNodes]
    cases hnode : old.keyVals idx with
    | none =>
      rw [if_neg (not_not.mpr (hidx.mpr hnode)), filterMap_cons_none hnode, ih s hrest]
    | some node =>
      rw [if_pos (mt hidx.mp (by simp [hnode])), filterMap_cons_some hnode, insertAll]
      dsimp only
      congr 1
      funext _ s
      exact ih s hrest

/-- The insertions give up if all nodes but the last do not spread, and then some are missing. -/
structure Inserted (c : Config α) (nodes : List (α × β)) (s s' : State α β) : Prop where
  layout : Layout c s'.toTable
  perm : (entries c s'.toTable).Perm (nodes ++ entries c s.toTable)
  tight : Tight c s'.toTable
  storage : SameStorage s s'

theorem Layout.numElements_eq_of_perm (nodes : List (α × β)) (h : Layout c t) (h' : Layout c t')
    (hperm : (entries c t').Perm (nodes ++ entries c t)) : t'.numElements = nodes.length + t.numElements := by
  rw [h.size, h'.size, hperm.length_eq, length_append]

theorem insertAll_eq (nodes : List (α × β)) (h : Layout c s.toTable) (htight : Tight c s.toTable)
    (hload : nodes.length + s.numElements ≤ c.calcMaxNumElementsAllowed (s.mask + 1))
    (hdistinct : (nodes ++ entries c s.toTable).Pairwise fun x y => c.keyEqual x.1 y.1 = false) :
    (¬ CrowdedIn c (s.mask + 1) (nodes.dropLast ++ entries c s.toTable) ∨ nodes = [] →
      ∃ s', insertAll c nodes s = .returned () s' ∧ Inserted c nodes s s') ∧
    (CrowdedIn c (s.mask + 1) (nodes.dropLast ++ entries c s.toTable) → nodes ≠ [] →
      ∃ s', insertAll c nodes s = .overflowError s' ∧ s'.numElements < nodes.length + s.numElements ∧
        Layout c s'.toTable) := by
  induction nodes generalizing s with
  | nil =>
    refine ⟨fun _ => ⟨s, rfl, h, .refl _, htight, rfl, rfl, rfl, rfl⟩, fun _ hne => absurd rfl hne⟩
  | cons node rest ih =>
    rw [length_cons] at hload
    rw [cons_append, pairwise_cons] at hdistinct
    by_cases hspace : s.maxNumElementsAllowed ≠ 0 ∨ 2 < s.infoInc
    · have habsent : Absent c s.toTable node.1 :=
        fun other hother => hdistinct.1 other (mem_append_right rest hother)
      obtain ⟨idx, s₁, hinsert, hlayout, hperm, htight₁, hstorage⟩ :=
        h.insertMove_eq hspace (by omega) habsent
      have hnum : s₁.numElements = 1 + s.numElements :=
        Layout.numElements_eq_of_perm [node] h hlayout hperm
      have hmask := hstorage.1
      have hmiddle := (hperm.append_left rest).trans perm_middle
      have hdistinct₁ : (rest ++ entries c s₁.toTable).Pairwise fun x y => c.keyEqual x.1 y.1 = false := by
        rw [distinct_iff_of_perm hmiddle, pairwise_cons]
        exact hdistinct
      obtain ⟨hdone, hgiveup⟩ := ih hlayout htight₁ (by rw [hmask]; omega) hdistinct₁
      have hnext : insertAll c (node :: rest) s = insertAll c rest s₁ := by
        rw [insertAll, hinsert]
        rfl
      -- the nodes that are in the array when the last one is inserted
      have hcrowded : rest ≠ [] → (CrowdedIn c (s.mask + 1) ((node :: rest).dropLast ++ entries c s.toTable) ↔
          CrowdedIn c (s₁.mask + 1) (rest.dropLast ++ entries c s₁.toTable)) := by
        intro hne
        rw [hmask, dropLast_cons_of_ne_nil hne, cons_append]
        exact (crowdedIn_iff_of_perm ((hperm.append_left rest.dropLast).trans perm_middle)).symm
      rw [hnext, length_cons]
      constructor
      · intro hspread
        have hspread' : ¬ CrowdedIn c (s₁.mask + 1) (rest.dropLast ++ entries c s₁.toTable) ∨ rest = [] := by
          by_cases hnil : rest = []
          · exact .inr hnil
          · rw [← hcrowded hnil]
            exact .inl (hspread.resolve_right (cons_ne_nil node rest))
        obtain ⟨s', hrun, hinserted⟩ := hdone hspread'
        exact ⟨s', hrun, hinserted.layout, hinserted.perm.trans hmiddle, hinserted.tight,
          hstorage.trans hinserted.storage⟩
      · intro hcrowd _
        have hne : rest ≠ [] := by
          rintro rfl
          exact h.not_crowded hspace hcrowd
        obtain ⟨s', hrun, hless, hlayout'⟩ := hgiveup ((hcrowded hne).mp hcrowd) hne
        exact ⟨s', hrun, by omega, hlayout'⟩
    · obtain ⟨hzero, hinc⟩ := not_or.mp hspace
      have hfull := (htight (not_not.mp hzero)).resolve_left (by omega)
      have hcrowd := h.crowded_of_full (not_lt.mp hinc) hfull
      constructor
      · rintro (hspread | hnil)
        · exact absurd (hcrowd.of_subperm (sublist_append_right _ _).subperm) hspread
        · cases hnil
      · intro _ _
        refine ⟨s, ?_, by rw [length_cons]; omega, h⟩
        rw [insertAll, insertMove_stuck node (not_not.mp hzero) (not_lt.mp hinc)]
        rfl

/-! ## Rehashing -/

structure Fresh (t : Table α β) : Prop where
  keyVals : t.keyVals = fun _ => none
  info : t.info = fun _ => 0
  numElements : t.numElements = 0
  mask : t.mask = 0
  maxNumElementsAllowed : t.maxNumElementsAllowed = 0
  infoInc : t.infoInc = initialInfoInc
  infoHashShift : t.infoHashShift = 0

def Inv (c : Config α) (t : Table α β) : Prop := Fresh t ∨ Layout c t

theorem slotCount_of_mask (c : Config α) (hmask : t.mask = 0) : slotCount c t = 1 := by
  have hlt := c.loadFactor_lt
  have hmax : c.calcMaxNumElementsAllowed 1 = 0 := by
    rw [Config.calcMaxNumElementsAllowed, if_pos (by decide), Nat.one_mul]
    exact Nat.div_eq_of_lt hlt
  rw [slotCount, hmask, Nat.zero_add, Config.calcNumElementsWithBuffer, hmax]
  rfl

theorem Fresh.entries_eq (h : Fresh t) : entries c t = [] :=
  entriesFrom_eq_nil fun i _ _ => by rw [h.keyVals]

theorem Layout.withStorage (h : Layout c t) (array : Nat) (pool : Pool) :
    Layout c { t with array := array, pool := pool } :=
  ⟨h.buckets, h.room, h.shift_le, h.inc_eq, h.vacant, h.occupied, h.ordered, h.sentinel, h.padding,
    h.byte, h.size, h.load, h.limit, h.distinct⟩

theorem addOrFree_toTable (c : Config α) (s : State α β) (block numBytes : Nat) : (addOrFree c s block numBytes).toTable
      = { s.toTable with pool := (addOrFree c s block numBytes).pool } := by
  rw [addOrFree]
  split <;> rfl

def dropArray (c : Config α) (old new : State α β) : State α β :=
  if old.mask = 0 then new
  else addOrFree c new old.array (c.calcNumBytesTotal (slotCount c old.toTable))

theorem dropArray_toTable (c : Config α) (old new : State α β) :
    (dropArray c old new).toTable = { new.toTable with pool := (dropArray c old new).pool } := by
  rw [dropArray]
  split
  · rfl
  · exact addOrFree_toTable c new _ _

structure Rehashed (c : Config α) (numBuckets : Nat) (s s' : State α β) : Prop where
  layout : Layout c s'.toTable
  mask : s'.mask + 1 = numBuckets
  perm : (entries c s'.toTable).Perm (entries c s.toTable)
  tight : Tight c s'.toTable
  storage : ∃ new, SameStorage (withArray c numBuckets s) new ∧ s' = dropArray c s new

theorem rehashed_of_inserted (hbuckets : (withArray c numBuckets s).mask + 1 = numBuckets)
    (h : Inserted c (entries c s.toTable) (withArray c numBuckets s) new) :
    Rehashed c numBuckets s (dropArray c s new) := by
  have htable := dropArray_toTable c s new
  have hentries : entries c (dropArray c s new).toTable = entries c new.toTable := by
    rw [htable]
    rfl
  constructor
  · rw [htable]
    exact h.layout.withStorage _ _
  · rw [htable]
    exact (congrArg (· + 1) h.storage.1).trans hbuckets
  · have hperm := h.perm
    rw [entries_withArray, append_nil] at hperm
    rw [hentries]
    exact hperm
  · rw [htable]
    exact h.tight
  · exact ⟨new, h.storage, rfl⟩

theorem ne_nil_of_crowdedIn (h : CrowdedIn c numBuckets nodes) : nodes ≠ [] := by
  rintro rfl
  obtain ⟨a, b, _, hcount⟩ := h
  exact Nat.not_lt_zero _ hcount

theorem rehashPowerOfTwo_eq (hinv : Inv c s.toTable) (hroom : Room c numBuckets)
    (hbuckets : ∃ k, 3 ≤ k ∧ numBuckets = 2 ^ k) (hload : s.numElements ≤ c.calcMaxNumElementsAllowed numBuckets) :
    (¬ CrowdedIn c numBuckets (entries c s.toTable).dropLast →
      ∃ s', rehashPowerOfTwo c numBuckets s = .returned () s' ∧ Rehashed c numBuckets s s') ∧
    (CrowdedIn c numBuckets (entries c s.toTable).dropLast →
      ∃ s', rehashPowerOfTwo c numBuckets s = .overflowError s' ∧ s'.numElements < s.numElements ∧
        Layout c s'.toTable) := by
  obtain ⟨hmask, hlayout⟩ := layout_withArray hroom hbuckets s
  have htight : Tight c (withArray c numBuckets s).toTable := by
    intro hzero
    left
    rw [hmask]
    exact hzero
  rcases hinv with hfresh | h
  · have hslots := slotCount_of_mask c hfresh.mask
    have hnil := hfresh.entries_eq (c := c)
    have hrun : rehashPowerOfTwo c numBuckets s = .returned () (withArray c numBuckets s) := by
      rw [rehashPowerOfTwo, hslots, initData_eq hroom]
      rfl
    have hdrop : dropArray c s (withArray c numBuckets s) = withArray c numBuckets s := if_pos hfresh.mask
    rw [hrun, hnil]
    constructor
    · intro _
      refine ⟨_, rfl, hdrop ▸ rehashed_of_inserted hmask ⟨hlayout, ?_, htight, rfl, rfl, rfl, rfl⟩⟩
      rw [hnil]
      exact .refl _
    · intro hcrowd
      exact absurd rfl (ne_nil_of_crowdedIn hcrowd)
  · have hpos := h.mask_pos
    have hslots := h.slotCount_eq
    have hnodes : (range (slotCount c s.toTable)).filterMap s.keyVals = entries c s.toTable := by
      rw [range_eq_range']
      rfl
    have hrun : rehashPowerOfTwo c numBuckets s
        = (insertAll c (entries c s.toTable) (withArray c numBuckets s)).andThen fun _ new =>
          .returned () (dropArray c s new) := by
      have hdrop : ∀ new, dropArray c s new = addOrFree c new s.array (c.calcNumBytesTotal (slotCount c s.toTable)) :=
        fun new => if_neg (by omega)
      rw [rehashPowerOfTwo, initData_eq hroom]
      simp only [Call.andThen, hdrop]
      rw [if_pos (by omega), moveNodes_eq _ _ _ fun i hi => h.info_eq_zero_iff (mem_range.mp hi), hnodes]
    obtain ⟨hdone, hgiveup⟩ := insertAll_eq (entries c s.toTable) hlayout htight (by
        rw [hmask, ← h.size]
        exact hload)
      (by
        rw [entries_withArray, append_nil]
        exact h.distinct)
    rw [hmask, entries_withArray, append_nil] at hdone hgiveup
    rw [hrun]
    constructor
    · intro hspread
      obtain ⟨new, hnew, hinserted⟩ := hdone (.inl hspread)
      exact ⟨dropArray c s new, by rw [hnew]; rfl, rehashed_of_inserted hmask hinserted⟩
    · intro hcrowd
      have hne : entries c s.toTable ≠ [] := by
        intro hnil
        rw [hnil] at hcrowd
        exact ne_nil_of_crowdedIn hcrowd rfl
      obtain ⟨new, hnew, hless, hlayout'⟩ := hgiveup hcrowd hne
      refine ⟨new, by rw [hnew]; rfl, ?_, hlayout'⟩
      rw [← h.size] at hless
      exact hless

end Ktl.HashTable
