import Ktl.FiniteMap
import Ktl.HashTableInsert
import Ktl.Runs

/-!
The table as a finite map. Every operation answers like a map with the entries of the table
and leaves those that the map has afterwards, or throws `overflow_error` and leaves those it
had. Only a rehash into crowded buckets, or into an array whose size does not fit into
`size_t`, loses nodes.
-/
namespace Ktl.HashTable

open RobinHood Relation Runs Function List

variable {α β : Type*} {c : Config α} {s : State α β} {key : α}

/-! ## Operations and answers -/

inductive Op (α β : Type*) where
  | insert (key : α) (value : β)
  | emplace (key : α) (value : β)
  | tryEmplace (key : α) (value : β)
  | insertOrAssign (key : α) (value : β)
  | subscript (key : α)
  | eraseKey (key : α)
  | eraseAt (idx : Nat)
  | find (key : α)
  | count (key : α)
  | clear
  | reserve (count : Nat)
  | rehash (count : Nat)
  deriving DecidableEq

/-- What a caller sees of a result: the node behind an iterator, or all nodes from
it on. -/
inductive Answer (α β : Type*) where
  | done
  | placed (node : Option (α × β)) (inserted : Bool)
  | value (value : Option β)
  | found (node : Option (α × β))
  | number (number : Nat)
  | rest (nodes : Option (List (α × β)))
  deriving DecidableEq

def nodeAt (c : Config α) (t : Table α β) (idx : Nat) : Option (α × β) :=
  if idx = endIdx c t then none else t.keyVals idx

def perform [Inhabited β] (c : Config α) (op : Op α β) (s : State α β) : Call (State α β) (Answer α β) :=
  match op with
  | .insert key value => (insert c key value s).andThen fun (idx, inserted) s =>
      .returned (.placed (nodeAt c s.toTable idx) inserted) s
  | .emplace key value => (emplace c key value s).andThen fun (idx, inserted) s =>
      .returned (.placed (nodeAt c s.toTable idx) inserted) s
  | .tryEmplace key value => (tryEmplace c key value s).andThen fun (idx, inserted) s =>
      .returned (.placed (nodeAt c s.toTable idx) inserted) s
  | .insertOrAssign key value => (insertOrAssign c key value s).andThen fun (idx, inserted) s =>
      .returned (.placed (nodeAt c s.toTable idx) inserted) s
  | .subscript key => (doCreateByKey c key s).andThen fun idx s =>
      .returned (.value ((nodeAt c s.toTable idx).map Prod.snd)) s
  | .eraseKey key => (eraseKey c key s).andThen fun number s => .returned (.number number) s
  | .eraseAt idx => (eraseAt c idx s).andThen fun idx s =>
      .returned (.rest (visitFrom c s.toTable (endIdx c s.toTable) idx)) s
  | .find key => (find c key s).andThen fun idx s => .returned (.found (nodeAt c s.toTable idx)) s
  | .count key => (count c key s).andThen fun number s => .returned (.number number) s
  | .clear => .returned .done (clear c s)
  | .reserve count => (reserve c count s).andThen fun _ s => .returned .done s
  | .rehash count => (rehash c count s).andThen fun _ s => .returned .done s

def Valid (c : Config α) (t : Table α β) : Op α β → Prop
  | .eraseAt idx => idx < endIdx c t ∧ t.keyVals idx ≠ none
  | _ => True

def Safe (c : Config α) (t : Table α β) : Op α β → Prop
  | .insert key _ | .emplace key _ | .tryEmplace key _ | .insertOrAssign key _ | .subscript key =>
    Absent c t key → GrowthSafe c t
  | .reserve count =>
    newSize c count t ≠ 0 → t.mask + 1 < newSize c count t → Rehashable c t (newSize c count t)
  | .rehash count => newSize c count t ≠ 0 → Rehashable c t (newSize c count t)
  | _ => True

def Answers [Inhabited β] (c : Config α) (t : Table α β) (m m' : List (α × β)) : Op α β → Answer α β → Prop
  | .insert key value, answer | .emplace key value, answer | .tryEmplace key value, answer =>
    match FiniteMap.lookup c.keyEqual m key with
    | some node => answer = .placed (some node) false ∧ m'.Perm m
    | none => answer = .placed (some (key, value)) true ∧ m'.Perm ((key, value) :: m)
  | .insertOrAssign key value, answer =>
    match FiniteMap.lookup c.keyEqual m key with
    | some node => answer = .placed (some (node.1, value)) false ∧ m'.Perm (FiniteMap.assign c.keyEqual m key value)
    | none => answer = .placed (some (key, value)) true ∧ m'.Perm ((key, value) :: m)
  | .subscript key, answer =>
    match FiniteMap.lookup c.keyEqual m key with
    | some node => answer = .value (some node.2) ∧ m'.Perm m
    | none => answer = .value (some default) ∧ m'.Perm ((key, default) :: m)
  | .eraseKey key, answer =>
    answer = .number (if (FiniteMap.lookup c.keyEqual m key).isSome then 1 else 0) ∧
      m'.Perm (FiniteMap.erase c.keyEqual m key)
  -- the iterator goes on with the nodes behind the one that was erased
  | .eraseAt idx, answer => ∃ before node after, t.keyVals idx = some node ∧
      m = before ++ node :: after ∧ answer = .rest (some after) ∧ m' = before ++ after
  | .find key, answer => answer = .found (FiniteMap.lookup c.keyEqual m key) ∧ m' = m
  | .count key, answer =>
    answer = .number (if (FiniteMap.lookup c.keyEqual m key).isSome then 1 else 0) ∧ m' = m
  | .clear, answer => answer = .done ∧ m' = []
  | .reserve _, answer | .rehash _, answer => answer = .done ∧ m'.Perm m

def Behaves [Inhabited β] (c : Config α) (op : Op α β) (s : State α β) : Call (State α β) (Answer α β) → Prop
  | .returned answer s' => Inv c s'.toTable ∧
      Answers c s.toTable (entries c s.toTable) (entries c s'.toTable) op answer ∧ Stored c s s'
  | .overflowError s' => Inv c s'.toTable ∧ (entries c s'.toTable).Perm (entries c s.toTable) ∧ Stored c s s'
  | .undefined => False

/-! ## Keys of the content -/

theorem keyEquivalence (c : Config α) : FiniteMap.Equivalence c.keyEqual :=
  ⟨c.keyEqual_symm, c.keyEqual_trans⟩

theorem Inv.distinct (h : Inv c t) : FiniteMap.Distinct c.keyEqual (entries c t) := by
  rcases h with hfresh | h
  · rw [hfresh.entries_eq]
    exact List.Pairwise.nil
  · exact h.distinct

theorem Absent.lookup_eq (h : Absent c t key) : FiniteMap.lookup c.keyEqual (entries c t) key = none :=
  FiniteMap.lookup_eq_none h

theorem Inv.lookup_eq (h : Inv c t) (hmem : node ∈ entries c t) (hkey : c.keyEqual key node.1 = true) :
    FiniteMap.lookup c.keyEqual (entries c t) key = some node :=
  FiniteMap.lookup_of_mem (keyEquivalence c) h.distinct hmem hkey

theorem present_or_absent (c : Config α) (t : Table α β) (key : α) :
    (∃ node ∈ entries c t, c.keyEqual key node.1 = true) ∨ Absent c t key := by
  by_cases h : ∃ node ∈ entries c t, c.keyEqual key node.1 = true
  · exact .inl h
  · refine .inr fun node hnode => ?_
    rw [← Bool.not_eq_true]
    exact fun hkey => h ⟨node, hnode, hkey⟩

theorem Inv.layout_of_mem (h : Inv c t) (hmem : node ∈ entries c t) : Layout c t := by
  rcases h with hfresh | h
  · rw [hfresh.entries_eq] at hmem
    cases hmem
  · exact h

theorem Inv.findIdx_eq (h : Inv c t) (key : α) :
    (∃ idx node, findIdx c t key = some idx ∧ idx ≠ endIdx c t ∧ idx < slotCount c t ∧
      t.keyVals idx = some node ∧ node ∈ entries c t ∧ c.keyEqual key node.1 = true) ∨
    findIdx c t key = some (endIdx c t) ∧ Absent c t key := by
  rcases h with hfresh | h
  · exact .inr ⟨hfresh.findIdx_eq key, hfresh.absent key⟩
  · have hend := h.endIdx_eq
    rcases h.findIdx_eq key with ⟨idx, node, hfind, hidx, hnode⟩ | ⟨hfind, habsent⟩
    · exact .inl ⟨idx, node, hfind, by omega, hidx, hnode⟩
    · exact .inr ⟨by rw [hfind, hend], habsent⟩

theorem Layout.nodeAt_eq (h : Layout c t) (hidx : idx < slotCount c t) : nodeAt c t idx = t.keyVals idx := by
  rw [nodeAt, h.endIdx_eq, if_neg (by omega)]
theorem nodeAt_endIdx (c : Config α) (t : Table α β) : nodeAt c t (endIdx c t) = none := if_pos rfl

theorem sameBlocks_destroyNode (c : Config α) (s : State α β) :
    SameBlocks s { s with toTable := destroyNode c s.toTable } := by
  rw [destroyNode]
  split <;> exact ⟨rfl, rfl, rfl, rfl, rfl⟩

/-! ## Insertions -/

def Inserts (c : Config α) (key : α) (value : β) (s : State α β) (call : Call (State α β) (Nat × Bool)) :
    Prop :=
  (∃ node ∈ entries c s.toTable, c.keyEqual key node.1 = true ∧ ∃ idx s', call = .returned (idx, false) s' ∧
    idx < slotCount c s.toTable ∧ s.keyVals idx = some node ∧
    s'.toTable = { s.toTable with pool := s'.pool } ∧ Stored c s s') ∨
  Absent c s.toTable key ∧ InsertedOrThrew c (key, value) s call

theorem doInsert_inserts (hconstruct : Constructs c construct) (hinv : Inv c s.toTable) (value : β)
    (hsafe : Absent c s.toTable key → GrowthSafe c s.toTable) :
    Inserts c key value s (doInsert c (key, value) construct s) := by
  rcases present_or_absent c s.toTable key with ⟨node, hmem, hkey⟩ | habsent
  · obtain ⟨idx, hrun, hidx, node', hnode', hmem', hkey'⟩ :=
      doInsert_present construct (hinv.layout_of_mem hmem) hmem hkey value
    exact .inl ⟨node', hmem', hkey', idx, s, hrun, hidx, hnode', rfl, .refl⟩
  · exact .inr ⟨habsent, doInsert_absent hconstruct hinv habsent (hsafe habsent)⟩

theorem Inv.withPool (h : Inv c t) (pool : Pool) : Inv c { t with pool := pool } := by
  rcases h with hfresh | h
  · exact .inl ⟨hfresh.keyVals, hfresh.info, hfresh.numElements, hfresh.mask,
      hfresh.maxNumElementsAllowed, hfresh.infoInc, hfresh.infoHashShift⟩
  · exact .inr (h.withStorage t.array pool)

section
variable (hinv : Inv c s.toTable) (value : β) (hsafe : Absent c s.toTable key → GrowthSafe c s.toTable)
include hinv value hsafe

theorem insert_inserts : Inserts c key value s (insert c key value s) :=
  doInsert_inserts (constructs_newNode c) hinv value hsafe

theorem emplace_inserts : Inserts c key value s (emplace c key value s) := by
  have htable := newNode_toTable c s
  have hinserts : Inserts c key value (newNode c s) (doInsert c (key, value) id (newNode c s)) := by
    apply doInsert_inserts (constructs_id c)
    · rw [htable]
      exact hinv.withPool _
    · rw [htable]
      exact hsafe
  rw [emplace]
  rcases hinserts with ⟨node, hmem, hkey, idx, s', hcall, hidx, hnode, htable', hstored⟩ | ⟨habsent, hinserted⟩
  · left
    rw [htable] at hmem hidx hnode
    refine ⟨node, hmem, hkey, idx, { s' with toTable := destroyNode c s'.toTable }, ?_, hidx, hnode, ?_, ?_⟩
    · rw [hcall]
      rfl
    · dsimp only
      rw [destroyNode_eq, htable', htable]
    · refine ((newNode_stored c s).trans hstored).tail (.same ?_)
      exact sameBlocks_destroyNode c s'
  · right
    rw [htable] at habsent
    refine ⟨habsent, ?_⟩
    have hsame : entries c (newNode c s).toTable = entries c s.toTable := by
      rw [htable]
      rfl
    have hinserted := hinserted.of_perm (.of_eq hsame) (newNode_stored c s)
    generalize doInsert c (key, value) id (newNode c s) = call at hinserted ⊢
    cases call with
    | returned result s' =>
      obtain ⟨idx, inserted⟩ := result
      obtain ⟨rfl, hrest⟩ := hinserted
      exact ⟨rfl, hrest⟩
    | overflowError s' => exact hinserted
    | undefined => exact hinserted

theorem tryEmplace_inserts : Inserts c key value s (tryEmplace c key value s) := by
  rw [tryEmplace]
  rcases hinv.findIdx_eq key with ⟨idx, node, hfind, hne, hidx, hnode, hmem, hkey⟩ | ⟨hfind, _⟩
  · rw [hfind]
    dsimp only
    rw [if_neg hne]
    exact .inl ⟨node, hmem, hkey, idx, s, rfl, hidx, hnode, rfl, .refl⟩
  · rw [hfind]
    dsimp only
    rw [if_pos rfl]
    exact emplace_inserts hinv value hsafe

end

theorem Inserts.behaves (hinv : Inv c s.toTable) (h : Inserts c key value s call) :
    (∃ node, FiniteMap.lookup c.keyEqual (entries c s.toTable) key = some node ∧
      ∃ idx s', call = .returned (idx, false) s' ∧ Inv c s'.toTable ∧ nodeAt c s'.toTable idx = some node ∧
        entries c s'.toTable = entries c s.toTable ∧ Stored c s s') ∨
    FiniteMap.lookup c.keyEqual (entries c s.toTable) key = none ∧
      ((∃ idx s', call = .returned (idx, true) s' ∧ Inv c s'.toTable ∧ nodeAt c s'.toTable idx = some (key, value) ∧
        (entries c s'.toTable).Perm ((key, value) :: entries c s.toTable) ∧ Stored c s s') ∨
      ∃ s', call = .overflowError s' ∧ Inv c s'.toTable ∧
        (entries c s'.toTable).Perm (entries c s.toTable) ∧ Stored c s s') := by
  rcases h with ⟨node, hmem, hkey, idx, s', hcall, hidx, hnode, htable, hstored⟩ | ⟨habsent, hinserted⟩
  · left
    have hlayout := (hinv.layout_of_mem hmem).withStorage s.array s'.pool
    refine ⟨node, hinv.lookup_eq hmem hkey, idx, s', hcall, ?_, ?_, ?_, hstored⟩
    · rw [htable]
      exact .inr hlayout
    · rw [htable, hlayout.nodeAt_eq hidx]
      exact hnode
    · rw [htable]
      rfl
  · right
    refine ⟨habsent.lookup_eq, ?_⟩
    cases call with
    | returned result s' =>
      obtain ⟨idx, inserted⟩ := result
      obtain ⟨rfl, hlayout, hidx, hnode, hperm, hstored⟩ := hinserted
      exact .inl ⟨idx, s', rfl, .inr hlayout, by rw [hlayout.nodeAt_eq hidx, hnode], hperm, hstored⟩
    | overflowError s' =>
      obtain ⟨hlayout, hperm, hstored⟩ := hinserted
      exact .inr ⟨s', rfl, .inr hlayout, hperm, hstored⟩
    | undefined => exact hinserted.elim

/-! ## Assignments and erasures -/

theorem Layout.assign (h : Layout c t) (hidx : idx < slotCount c t) (hnode : t.keyVals idx = some node) (value : β) :
    Layout c { t with keyVals := update t.keyVals idx (some (node.1, value)) } ∧
      entries c { t with keyVals := update t.keyVals idx (some (node.1, value)) }
        = entriesFrom t.keyVals 0 idx ++ (node.1, value)
          :: entriesFrom t.keyVals (idx + 1) (slotCount c t - (idx + 1)) := by
  have hold := entries_split hidx hnode
  have hnew : entries c { t with keyVals := update t.keyVals idx (some (node.1, value)) }
      = entriesFrom t.keyVals 0 idx ++ (node.1, value)
          :: entriesFrom t.keyVals (idx + 1) (slotCount c t - (idx + 1)) := by
    have hfront : entriesFrom (update t.keyVals idx (some (node.1, value))) 0 idx = entriesFrom t.keyVals 0 idx :=
      entriesFrom_congr fun i _ hi => update_of_ne (by omega) _ _
    have hback : entriesFrom (update t.keyVals idx (some (node.1, value))) (idx + 1)
        (slotCount c t - (idx + 1)) = entriesFrom t.keyVals (idx + 1) (slotCount c t - (idx + 1)) :=
      entriesFrom_congr fun i hi _ => update_of_ne (by omega) _ _
    rw [entries]
    change entriesFrom (update t.keyVals idx (some (node.1, value))) 0 (slotCount c t) = _
    rw [entriesFrom_split _ hidx, hfront, hback, update_self]
    rfl
  refine ⟨?_, hnew⟩
  have hdistinct := h.distinct
  rw [hold, distinct_iff_of_perm perm_middle, pairwise_cons] at hdistinct
  exact { h with
    vacant := by
      intro i hi hnone
      dsimp only at hnone
      by_cases hsame : i = idx
      · rw [hsame, update_self] at hnone
        cases hnone
      · rw [update_of_ne hsame] at hnone
        exact h.vacant i hi hnone
    occupied := by
      intro i node' hi hnode'
      dsimp only at hnode'
      by_cases hsame : i = idx
      · rw [hsame, update_self] at hnode'
        cases hnode'
        rw [hsame]
        exact h.occupied idx node hidx hnode
      · rw [update_of_ne hsame] at hnode'
        exact h.occupied i node' hi hnode'
    size := by
      have hsize := h.size
      rw [hold, length_append, length_cons] at hsize
      rw [hnew, length_append, length_cons]
      exact hsize
    distinct := by
      rw [hnew, distinct_iff_of_perm perm_middle, pairwise_cons]
      exact hdistinct }

theorem entries_middle (hidx : idx < slotCount c t) (hnode : t.keyVals idx = some node) :
    ∃ before after, entries c t = before ++ node :: after ∧
      after = entriesFrom t.keyVals (idx + 1) (slotCount c t - (idx + 1)) ∧
      ∀ last, idx ≤ last → last < slotCount c t → entries c (withoutNode c t idx last) = before ++ after :=
  ⟨_, _, entries_split hidx hnode, rfl, fun _ hle hlast => entries_withoutNode c t hle hlast⟩

theorem sameBlocks_withoutNode (c : Config α) (s : State α β) (idx last : Nat) :
    SameBlocks s { s with toTable := withoutNode c s.toTable idx last } := by
  obtain ⟨_, _, hallocator, hchunks, _⟩ := sameBlocks_destroyNode c s
  exact ⟨rfl, rfl, hallocator, hchunks, rfl⟩

theorem destroyNodes_pool (c : Config α) (t : Table α β) : (destroyNodes c t).pool.allocator = t.pool.allocator ∧
      (destroyNodes c t).pool.listForFree = t.pool.listForFree := by
  rw [destroyNodes]
  dsimp only
  split <;> exact ⟨rfl, rfl⟩

theorem Layout.clear (h : Layout c s.toTable) (hsome : s.numElements ≠ 0) :
    Layout c (HashTable.clear c s).toTable ∧ entries c (HashTable.clear c s).toTable = [] ∧
      SameBlocks s (HashTable.clear c s) := by
  have hbytes := h.infoBytes_eq
  rw [infoBytes] at hbytes
  have hrun : HashTable.clear c s = { s with
      keyVals := fun idx => if idx < slotCount c s.toTable then none else s.keyVals idx
      info := fun idx => if idx = slotCount c s.toTable then 1
        else if idx < slotCount c s.toTable + 8 then 0 else s.info idx
      numElements := 0
      infoInc := initialInfoInc
      infoHashShift := 0
      pool := (destroyNodes c s.toTable).pool } := by
    rw [← hbytes]
    exact if_neg hsome
  rw [hrun, ← and_assoc]
  refine ⟨layout_of_cleared h.buckets h.room rfl rfl (fun _ hi => if_pos hi) ?_ rfl (h.limit.imp_right And.left), ?_⟩
  · intro i
    change (if i = slotCount c s.toTable then 1 else _) = if i = slotCount c s.toTable then 1 else 0
    split
    · rfl
    · split
      · rfl
      · exact h.padding i (by omega)
  · have hpool := destroyNodes_pool c s.toTable
    exact ⟨rfl, rfl, hpool.1, hpool.2, rfl⟩

/-! ## Sizes -/

theorem reserveSize_eq (c : Config α) (minElementsAllowed doublings : Nat) {newSize : Nat}
    (hsize : newSize = 0 ∨ ∃ k, 3 ≤ k ∧ k < 64 ∧ 64 ≤ k + doublings ∧ newSize = 2 ^ k) :
    reserveSize c minElementsAllowed doublings newSize = 0 ∨
      (∃ k, 3 ≤ k ∧ reserveSize c minElementsAllowed doublings newSize = 2 ^ k) ∧
      minElementsAllowed ≤ c.calcMaxNumElementsAllowed (reserveSize c minElementsAllowed doublings newSize) := by
  induction doublings generalizing newSize with
  | zero =>
    rcases hsize with rfl | ⟨k, _, hk, hle, _⟩
    · exact .inl rfl
    · omega
  | succ doublings ih =>
    rw [reserveSize]
    split_ifs with hstop
    · apply ih
      rcases hsize with rfl | ⟨k, hk, hk64, hle, rfl⟩
      · exact .inl rfl
      · rcases Nat.lt_or_ge (k + 1) 64 with hlt | hge
        · refine .inr ⟨k + 1, by omega, hlt, by omega, ?_⟩
          rw [← Nat.pow_succ, Nat.mod_eq_of_lt (Nat.pow_lt_pow_right (by decide) hlt)]
        · left
          rw [show k = 63 by omega]
          rfl
    · rcases hsize with rfl | ⟨k, hk, _, _, rfl⟩
      · exact .inl rfl
      · refine .inr ⟨⟨k, hk, rfl⟩, ?_⟩
        have hpos := (Nat.two_pow_pos k).ne'
        by_contra hless
        exact hstop ⟨by omega, hpos⟩

theorem reserveSize_lt (c : Config α) (minElementsAllowed doublings : Nat) {newSize : Nat}
    (hsize : newSize < 2 ^ 64) : reserveSize c minElementsAllowed doublings newSize < 2 ^ 64 := by
  induction doublings generalizing newSize with
  | zero => exact hsize
  | succ doublings ih =>
    rw [reserveSize]
    split
    · exact ih (Nat.mod_lt _ (by decide))
    · exact hsize

theorem newSize_eq {number : Nat} (hne : newSize c number t ≠ 0) : (∃ k, 3 ≤ k ∧ newSize c number t = 2 ^ k) ∧
      t.numElements ≤ c.calcMaxNumElementsAllowed (newSize c number t) := by
  obtain ⟨hbuckets, hload⟩ := (reserveSize_eq c (max number t.numElements) 64
    (.inr ⟨3, le_rfl, by decide, by decide, rfl⟩)).resolve_left hne
  exact ⟨hbuckets, (le_max_right _ _).trans hload⟩

theorem Inv.size_eq (h : Inv c t) : t.numElements = (entries c t).length := by
  rcases h with hfresh | h
  · rw [hfresh.entries_eq, hfresh.numElements]
    rfl
  · exact h.size

theorem Inv.visitAll_eq (h : Inv c t) : visitAll c t = some (entries c t) := by
  rcases h with hfresh | h
  · have hend : endIdx c t = 0 := if_pos hfresh.mask
    rw [visitAll, beginIdx, if_pos hfresh.numElements, Option.bind_some, hend, visitFrom, hend, if_pos rfl,
      hfresh.entries_eq]
  · exact h.visitAll_eq

/-! ## Every operation -/

section
variable [Inhabited β]

section
variable (hinv : Inv c s.toTable)
include hinv

theorem Inserts.behaves_placed (h : Inserts c key value s call)
    (hop : op = .insert key value ∨ op = .emplace key value ∨ op = .tryEmplace key value) :
    Behaves c op s (call.andThen fun (idx, inserted) s =>
      .returned (.placed (nodeAt c s.toTable idx) inserted) s) := by
  rcases h.behaves hinv with ⟨node, hlookup, idx, s', rfl, hinv', hnode, hentries, hstored⟩ |
    ⟨hlookup, ⟨idx, s', rfl, hinv', hnode, hperm, hstored⟩ | ⟨s', rfl, hinv', hperm, hstored⟩⟩
  · rcases hop with rfl | rfl | rfl <;>
      exact ⟨hinv', by simp only [Answers, hlookup, hnode, hentries, List.Perm.refl, and_self], hstored⟩
  · rcases hop with rfl | rfl | rfl <;>
      exact ⟨hinv', by simp only [Answers, hlookup, hnode, true_and]; exact hperm, hstored⟩
  · exact ⟨hinv', hperm, hstored⟩

theorem subscript_behaves (hsafe : Absent c s.toTable key → GrowthSafe c s.toTable) :
    Behaves c (.subscript key) s (perform c (.subscript key) s) := by
  have hinserts := doInsert_inserts (constructs_newNode c) hinv default hsafe
  rw [perform, doCreateByKey]
  rcases hinserts.behaves hinv with ⟨node, hlookup, idx, s', hcall, hinv', hnode, hentries, hstored⟩ |
    ⟨hlookup, ⟨idx, s', hcall, hinv', hnode, hperm, hstored⟩ | ⟨s', hcall, hinv', hperm, hstored⟩⟩
  · rw [hcall]
    refine ⟨hinv', ?_, hstored⟩
    simp [Answers, hlookup, hnode, hentries, List.Perm.refl]
  · rw [hcall]
    refine ⟨hinv', ?_, hstored⟩
    simp only [Answers, hlookup, hnode, Option.map_some, true_and]
    exact hperm
  · rw [hcall]
    exact ⟨hinv', hperm, hstored⟩

theorem insertOrAssign_behaves (value : β) (hsafe : Absent c s.toTable key → GrowthSafe c s.toTable) :
    Behaves c (.insertOrAssign key value) s (perform c (.insertOrAssign key value) s) := by
  rw [perform, insertOrAssign]
  rcases hinv.findIdx_eq key with ⟨idx, node, hfind, hne, hidx, hnode, hmem, hkey⟩ | ⟨hfind, habsent⟩
  · rw [hfind]
    dsimp only
    rw [if_neg hne, hnode]
    have h := hinv.layout_of_mem hmem
    obtain ⟨hlayout, hentries⟩ := h.assign hidx hnode value
    have hold := entries_split hidx hnode
    have hdistinct := h.distinct
    rw [hold] at hdistinct
    refine ⟨.inr hlayout, ?_, .single (.same ⟨rfl, rfl, rfl, rfl, rfl⟩)⟩
    have hat : nodeAt c { s.toTable with
        keyVals := update s.keyVals idx (some (node.1, value)) } idx = some (node.1, value) := by
      rw [hlayout.nodeAt_eq hidx]
      exact update_self ..
    have hassign := FiniteMap.assign_middle (keyEquivalence c) hdistinct hkey value
    simp only [Answers, hinv.lookup_eq hmem hkey]
    rw [hold, hassign]
    exact ⟨by rw [hat], .of_eq hentries⟩
  · rw [hfind]
    dsimp only
    rw [if_pos rfl]
    rcases (emplace_inserts hinv value hsafe).behaves hinv with
      ⟨node, hlookup, _⟩ |
      ⟨hlookup, ⟨idx, s', hcall, hinv', hnode, hperm, hstored⟩ | ⟨s', hcall, hinv', hperm, hstored⟩⟩
    · rw [habsent.lookup_eq] at hlookup
      cases hlookup
    · rw [hcall]
      refine ⟨hinv', ?_, hstored⟩
      simp only [Answers, hlookup, hnode, true_and]
      exact hperm
    · rw [hcall]
      exact ⟨hinv', hperm, hstored⟩

theorem eraseKey_behaves : Behaves c (.eraseKey key) s (perform c (.eraseKey key) s) := by
  have hnone : Absent c s.toTable key → Behaves c (.eraseKey key) s (.returned (.number 0) s) := by
    intro habsent
    refine ⟨hinv, ?_, .refl⟩
    simp only [Answers, habsent.lookup_eq, FiniteMap.erase_of_absent habsent]
    exact ⟨rfl, .refl _⟩
  rw [perform, eraseKey]
  dsimp only
  rcases hinv with hfresh | h
  · rw [hfresh.eraseLoop_eq]
    exact hnone (hfresh.absent key)
  · have hhome := h.homeOf_lt key
    have hbytes := h.infoBytes_eq
    obtain ⟨found, hrun, hfound⟩ := h.eraseLoop_eq (infoBytes c s.toTable - homeOf c (s.mask + 1) key)
      (le_refl (homeOf c (s.mask + 1) key)) hhome (by omega)
    rw [h.keyToIdx_eq, hrun]
    cases found with
    | none => exact hnone (h.absent_of_searched hfound)
    | some idx =>
      obtain ⟨hidx, node, hnode, hmem, hkey⟩ := h.mem_of_isAt hfound.2
      obtain ⟨last, hle, hlast, hshift, hlayout⟩ := h.shiftDown_eq hidx hnode
      obtain ⟨before, after, hold, _, hnew⟩ := entries_middle hidx hnode
      have hdistinct := h.distinct
      rw [hold] at hdistinct
      dsimp only
      rw [hshift]
      refine ⟨.inr hlayout, ?_, .single (.same (sameBlocks_withoutNode c s idx last))⟩
      simp only [Answers, Inv.lookup_eq (.inr h) hmem hkey]
      rw [hold, FiniteMap.erase_middle (keyEquivalence c) hdistinct hkey]
      exact ⟨rfl, .of_eq (hnew last hle hlast)⟩

theorem eraseAt_behaves (hvalid : Valid c s.toTable (.eraseAt idx)) :
    Behaves c (.eraseAt idx) s (perform c (.eraseAt idx) s) := by
  obtain ⟨hend, hnonempty⟩ := hvalid
  obtain ⟨node, hnode⟩ := Option.ne_none_iff_exists'.mp hnonempty
  rcases hinv with hfresh | h
  · rw [hfresh.keyVals] at hnode
    cases hnode
  · rw [h.endIdx_eq] at hend
    obtain ⟨last, hle, hlast, hshift, hlayout⟩ := h.shiftDown_eq hend hnode
    obtain ⟨before, after, hold, hafter, hnew⟩ := entries_middle hend hnode
    obtain ⟨next, hnext, hrest⟩ := hlayout.visitFrom_next hend
    have hbehind : entriesFrom (withoutNode c s.toTable idx last).keyVals idx (slotCount c s.toTable - idx)
        = after := by
      rw [hafter]
      exact entriesFrom_closeSlot hle hlast
    have hrun : eraseAt c idx s = .returned next { s with toTable := withoutNode c s.toTable idx last } := by
      rw [eraseAt, hshift, Option.bind_some]
      change Call.ofOption (((if (withoutNode c s.toTable idx last).info idx ≠ 0 then some idx
        else nextIdx c (withoutNode c s.toTable idx last) idx)).map fun after =>
          (after, { s with toTable := withoutNode c s.toTable idx last })) = _
      rw [hnext]
      rfl
    rw [perform, hrun]
    refine ⟨.inr hlayout, ⟨before, node, after, hnode, hold, ?_, hnew last hle hlast⟩,
      .single (.same (sameBlocks_withoutNode c s idx last))⟩
    rw [hrest]
    exact congrArg (fun nodes => Answer.rest (some nodes)) hbehind

theorem find_behaves : Behaves c (.find key) s (perform c (.find key) s) := by
  rw [perform, find]
  rcases hinv.findIdx_eq key with ⟨idx, node, hfind, hne, _, hnode, hmem, hkey⟩ | ⟨hfind, habsent⟩
  · rw [hfind]
    refine ⟨hinv, ⟨?_, rfl⟩, .refl⟩
    rw [hinv.lookup_eq hmem hkey, nodeAt, if_neg hne, hnode]
  · rw [hfind]
    refine ⟨hinv, ⟨?_, rfl⟩, .refl⟩
    rw [habsent.lookup_eq, nodeAt_endIdx]

theorem count_behaves : Behaves c (.count key) s (perform c (.count key) s) := by
  rw [perform, count]
  rcases hinv.findIdx_eq key with ⟨idx, node, hfind, hne, _, _, hmem, hkey⟩ | ⟨hfind, habsent⟩
  · rw [hfind]
    refine ⟨hinv, ⟨?_, rfl⟩, .refl⟩
    rw [hinv.lookup_eq hmem hkey, if_pos hne]
    rfl
  · rw [hfind]
    refine ⟨hinv, ⟨?_, rfl⟩, .refl⟩
    rw [habsent.lookup_eq, if_neg (not_not.mpr rfl)]
    rfl

theorem clear_behaves : Behaves c .clear s (perform c .clear s) := by
  rw [perform]
  by_cases hzero : s.numElements = 0
  · have hsame : clear c s = s := if_pos hzero
    rw [hsame]
    refine ⟨hinv, ⟨rfl, ?_⟩, .refl⟩
    rcases hinv with hfresh | h
    · exact hfresh.entries_eq
    · exact eq_nil_of_length_eq_zero (h.size ▸ hzero)
  · have h := hinv.resolve_left fun hfresh => hzero hfresh.numElements
    obtain ⟨hlayout, hentries, hblocks⟩ := h.clear hzero
    exact ⟨.inr hlayout, ⟨rfl, hentries⟩, .single (.same hblocks)⟩

theorem reserveOrRehash_behaves (hop : op = .reserve number ∨ op = .rehash number)
    (hsafe : newSize c number s.toTable ≠ 0 → force = true ∨ s.mask + 1 < newSize c number s.toTable →
      Rehashable c s.toTable (newSize c number s.toTable)) :
    Behaves c op s ((reserveOrRehash c number force s).andThen fun _ s => .returned .done s) := by
  rw [reserveOrRehash]
  have hanswer : ∀ s' : State α β, (entries c s'.toTable).Perm (entries c s.toTable) →
      Answers c s.toTable (entries c s.toTable) (entries c s'.toTable) op .done := by
    intro s' hperm
    rcases hop with rfl | rfl <;> exact ⟨rfl, hperm⟩
  by_cases hzero : newSize c number s.toTable = 0
  · rw [if_pos hzero]
    exact ⟨hinv, .refl _, .refl⟩
  · rw [if_neg hzero]
    obtain ⟨hbuckets, hload⟩ := newSize_eq hzero
    by_cases hneeded : force = true ∨ s.mask + 1 < newSize c number s.toTable
    · obtain ⟨hroom, hspread⟩ := hsafe hzero hneeded
      obtain ⟨s', hrun, hrehashed⟩ :=
        (rehashPowerOfTwo_eq hinv hroom hbuckets hload).1 hspread
      rw [if_pos hneeded, hrun]
      exact ⟨.inr hrehashed.layout, hanswer s' hrehashed.perm, hrehashed.stored⟩
    · rw [if_neg hneeded]
      exact ⟨hinv, hanswer s (.refl _), .refl⟩

end

theorem perform_behaves (op : Op α β) (hinv : Inv c s.toTable) (hvalid : Valid c s.toTable op)
    (hsafe : Safe c s.toTable op) : Behaves c op s (perform c op s) := by
  cases op with
  | insert key value => exact (insert_inserts hinv value hsafe).behaves_placed hinv (.inl rfl)
  | emplace key value => exact (emplace_inserts hinv value hsafe).behaves_placed hinv (.inr (.inl rfl))
  | tryEmplace key value => exact (tryEmplace_inserts hinv value hsafe).behaves_placed hinv (.inr (.inr rfl))
  | insertOrAssign key value => exact insertOrAssign_behaves hinv value hsafe
  | subscript key => exact subscript_behaves hinv hsafe
  | eraseKey key => exact eraseKey_behaves hinv
  | eraseAt idx => exact eraseAt_behaves hinv hvalid
  | find key => exact find_behaves hinv
  | count key => exact count_behaves hinv
  | clear => exact clear_behaves hinv
  | reserve number =>
    exact reserveOrRehash_behaves hinv (.inl rfl) fun hne hneeded =>
      hsafe hne (hneeded.resolve_left Bool.false_ne_true)
  | rehash number => exact reserveOrRehash_behaves hinv (.inr rfl) fun hne _ => hsafe hne

theorem rehash_behaves_iff {count : Nat} (hinv : Inv c s.toTable) (hroom : Room c (newSize c count s.toTable)) :
    Behaves c (.rehash count) s (perform c (.rehash count) s) ↔ Safe c s.toTable (.rehash count) := by
  refine ⟨fun hbehaves hne => ⟨hroom, fun hcrowd => ?_⟩, perform_behaves (.rehash count) hinv trivial⟩
  obtain ⟨hbuckets, hload⟩ := newSize_eq hne
  obtain ⟨s', hcall, hless, _⟩ := (rehashPowerOfTwo_eq hinv hroom hbuckets hload).2 hcrowd
  have hthrown : perform c (.rehash count) s = .overflowError s' := by
    rw [perform, rehash, reserveOrRehash, if_neg hne, if_pos (.inl rfl), hcall]
    rfl
  rw [hthrown] at hbehaves
  obtain ⟨hinv', hperm, _⟩ := hbehaves
  have hlen := hperm.length_eq
  rw [← hinv'.size_eq, ← hinv.size_eq] at hlen
  omega

/-! ## Runs -/

def step (c : Config α) (s : State α β) (op : Op α β) : Option (State α β) :=
  match perform c op s with
  | .returned _ s' | .overflowError s' => some s'
  | .undefined => none

def start (pool : Pool) (heap : Heap) : State α β := { emptyTable pool with heap := heap }

omit [Inhabited β] in
theorem inv_start (c : Config α) (pool : Pool) (heap : Heap) : Inv c (start pool heap : State α β).toTable :=
  .inl ⟨rfl, rfl, rfl, rfl, rfl, rfl, rfl⟩

/-- Every valid and safe operation keeps the layout. -/
theorem step_inv (hinv : Inv c s.toTable) (hok : Valid c s.toTable op ∧ Safe c s.toTable op)
    (hstep : step c s op = some s') : Inv c s'.toTable ∧ Stored c s s' := by
  have hbehaves := perform_behaves op hinv hok.1 hok.2
  rw [step] at hstep
  cases hcall : perform c op s with
  | returned answer s₁ | overflowError s₁ =>
    rw [hcall] at hstep hbehaves
    cases hstep
    exact ⟨hbehaves.1, hbehaves.2.2⟩
  | undefined =>
    rw [hcall] at hstep
    cases hstep

/-- After every run whose rehashes do not lose nodes, the table has the entries of a finite map,
iterates over each once, and the next operation behaves like that of the map. For a rehash to a size
that fits into `size_t` the condition is exact. -/
theorem table_refines_map {pool : Pool} {heap : Heap} {ops : List (Op α β)}
    (hrun : Run (step c) (fun s op => Valid c s.toTable op ∧ Safe c s.toTable op) (start pool heap) ops s) :
    FiniteMap.Distinct c.keyEqual (entries c s.toTable) ∧ s.numElements = (entries c s.toTable).length ∧
      visitAll c s.toTable = some (entries c s.toTable) ∧
      (∀ op, Valid c s.toTable op → Safe c s.toTable op → Behaves c op s (perform c op s)) ∧
      ∀ count, Room c (newSize c count s.toTable) →
        (Behaves c (.rehash count) s (perform c (.rehash count) s) ↔ Safe c s.toTable (.rehash count)) := by
  have hinv := hrun.invariant (I := fun s => Inv c s.toTable)
      (fun s op s' hinv hok hstep => (step_inv hinv hok hstep).1) (inv_start c pool heap)
  exact ⟨hinv.distinct, hinv.size_eq, hinv.visitAll_eq,
    fun op hvalid hsafe => perform_behaves op hinv hvalid hsafe, fun count hroom => rehash_behaves_iff hinv hroom⟩

/-! ## Nodes that are lost -/

theorem run_inserts (nodes : List (α × β)) (h : Layout c s.toTable) (htight : Tight c s.toTable)
    (hload : nodes.length + s.numElements ≤ c.calcMaxNumElementsAllowed (s.mask + 1))
    (hhomes : ((nodes ++ entries c s.toTable).map fun node => homeOf c (s.mask + 1) node.1).Nodup) :
    ∃ s', Run (step c) (fun s op => Valid c s.toTable op ∧ Safe c s.toTable op) s
        (nodes.map fun node => .insert node.1 node.2) s' ∧
      Layout c s'.toTable ∧ (entries c s'.toTable).Perm (nodes ++ entries c s.toTable) := by
  induction nodes generalizing s with
  | nil => exact ⟨s, .nil s, h, .refl _⟩
  | cons node rest ih =>
    rw [length_cons] at hload
    rw [cons_append, map_cons, nodup_cons] at hhomes
    have hspread : ¬ CrowdedIn c (s.mask + 1) (entries c s.toTable) :=
      not_crowded_of_nodup (by decide) (hhomes.2.sublist ((sublist_append_right rest _).map _))
    have habsent : Absent c s.toTable node.1 := by
      intro other hother
      rw [← Bool.not_eq_true]
      intro hkey
      refine hhomes.1 (mem_map.mpr ⟨other, mem_append_right rest hother, ?_⟩)
      exact (homeOf_eq_of_keyEqual hkey (s.mask + 1)).symm
    have hcalm := h.calm htight (by omega) hspread
    obtain ⟨idx, s₁, hcall, ⟨_, hlayout, _, _, hperm, _⟩, hmask, htight₁⟩ :=
      insertLoop_calm (constructs_newNode c) hcalm habsent 318
    have hstep : step c s (.insert node.1 node.2) = some s₁ := by
      rw [step, perform, insert, doInsert, insertRounds, hcall]
      rfl
    have hnum : s₁.numElements = 1 + s.numElements := Layout.numElements_eq_of_perm [node] h hlayout hperm
    have hmiddle := (hperm.append_left rest).trans perm_middle
    have hhomes₁ : ((rest ++ entries c s₁.toTable).map fun node => homeOf c (s₁.mask + 1) node.1).Nodup := by
      rw [hmask, (hmiddle.map _).nodup_iff, map_cons, nodup_cons]
      exact hhomes
    obtain ⟨s', hrun, hlayout', hperm'⟩ := ih hlayout htight₁ (by rw [hmask]; omega) hhomes₁
    exact ⟨s', .cons ⟨trivial, fun _ => hcalm.growthSafe⟩ hstep hrun, hlayout', hperm'.trans hmiddle⟩

/-- Every key of this table is a multiple of 256 buckets away from the others. -/
def spacedConfig : Config Nat where
  isFlat := true
  hasher key := BitVec.ofNat 64 (8192 * key)
  mix := id
  keyEqual x y := decide (x = y)
  maxLoadFactor100 := 80
  nodeSize := 16
  alignment := 16
  alignedSize := 16
  keyEqual_refl _ := decide_eq_true rfl
  keyEqual_symm _ _ h := decide_eq_true (of_decide_eq_true h).symm
  keyEqual_trans _ _ _ h h' := decide_eq_true ((of_decide_eq_true h).trans (of_decide_eq_true h'))
  hasher_eq _ _ h := congrArg (fun key => BitVec.ofNat 64 (8192 * key)) (of_decide_eq_true h)
  loadFactor_gt := by decide
  loadFactor_lt := by decide
  nodeSize_pos := by decide
  alignment_pos := by decide
  alignedSize_pos := by decide

def newTable : State Nat Unit := start ⟨0, [], 0⟩ ⟨0, [], []⟩

def spacedInserts : List (Op Nat Unit) :=
  .reserve 20000 :: ((List.range 128).map fun key => (key, ())).map fun node => .insert node.1 node.2

/-- The 128 keys may come in any order. -/
theorem run_spacedInserts_perm {keys : List Nat} (hkeys : keys.Perm (List.range 128)) :
    ∃ s, Run (step spacedConfig) (fun s op => Valid spacedConfig s.toTable op ∧ Safe spacedConfig s.toTable op)
        newTable (.reserve 20000 :: (keys.map fun key => (key, ())).map fun node => .insert node.1 node.2) s ∧
      Layout spacedConfig s.toTable ∧ (entries spacedConfig s.toTable).Perm (keys.map fun key => (key, ())) := by
  have hsize : newSize spacedConfig 20000 newTable.toTable = 32768 := by decide +kernel
  have hroom : Room spacedConfig 32768 := by
    rw [Room]
    decide
  have hnil : entries spacedConfig newTable.toTable = [] := entriesFrom_eq_nil fun _ _ _ => rfl
  have hspread : ¬ CrowdedIn spacedConfig 32768 (entries spacedConfig newTable.toTable).dropLast := by
    rw [hnil]
    exact fun hcrowd => ne_nil_of_crowdedIn hcrowd rfl
  obtain ⟨s₁, hcall, hrehashed⟩ := (rehashPowerOfTwo_eq (inv_start spacedConfig ⟨0, [], 0⟩ ⟨0, [], []⟩) hroom
    ⟨15, by decide, rfl⟩ (Nat.zero_le _)).1 hspread
  have hstep : step spacedConfig newTable (.reserve 20000) = some s₁ := by
    rw [step, perform, reserve, reserveOrRehash, hsize, if_neg (by decide), if_pos (.inr (by decide))]
    rw [newTable, hcall]
    rfl
  have hempty := perm_nil.mp (hnil ▸ hrehashed.perm)
  have hnum : s₁.numElements = 0 := by
    rw [hrehashed.layout.size, hempty]
    rfl
  have hhomes : (((range 128).map fun key => (key, ())).map fun node =>
      homeOf spacedConfig (32767 + 1) node.1).Nodup := by decide +kernel
  obtain ⟨s, hrun, hlayout, hperm⟩ := run_inserts (keys.map fun key => (key, ()))
    hrehashed.layout hrehashed.tight
    (by
      rw [hnum, hrehashed.mask, length_map, hkeys.length_eq, length_range]
      decide)
    (by
      rw [hempty, hrehashed.mask, append_nil, ((hkeys.map _).map _).nodup_iff]
      exact hhomes)
  rw [hempty, append_nil] at hperm
  refine ⟨s, .cons ⟨trivial, fun _ _ => ?_⟩ hstep hrun, hlayout, hperm⟩
  rw [hsize]
  exact ⟨hroom, hspread⟩

theorem run_spacedInserts : ∃ s, Run (step spacedConfig)
      (fun s op => Valid spacedConfig s.toTable op ∧ Safe spacedConfig s.toTable op) newTable spacedInserts s ∧
    Layout spacedConfig s.toTable ∧
    (entries spacedConfig s.toTable).Perm ((List.range 128).map fun key => (key, ())) :=
  run_spacedInserts_perm (.refl _)

/-- The run above meets the conditions, so its 128 nodes are visited once each. -/
theorem visitAll_spacedInserts : ∃ s, Run (step spacedConfig)
      (fun s op => Valid spacedConfig s.toTable op ∧ Safe spacedConfig s.toTable op) newTable spacedInserts s ∧
    visitAll spacedConfig s.toTable = some (entries spacedConfig s.toTable) ∧ s.numElements = 128 := by
  obtain ⟨s, hrun, _, hperm⟩ := run_spacedInserts
  obtain ⟨_, hsize, hvisit, _, _⟩ := table_refines_map hrun
  exact ⟨s, hrun, hvisit, by rw [hsize, hperm.length_eq, length_map, length_range]⟩

/-- All keys go to the first of 256 buckets: `rehash(0)` throws when it has moved 127 of them. -/
theorem rehash_loses_nodes : ∃ s s', Run (step spacedConfig) (fun s op => Valid spacedConfig s.toTable op)
      newTable spacedInserts s ∧
    (entries spacedConfig s.toTable).Perm ((List.range 128).map fun key => (key, ())) ∧
    perform spacedConfig (.rehash 0) s = .overflowError s' ∧ s'.numElements < 128 := by
  obtain ⟨s, hrun, hlayout, hperm⟩ := run_spacedInserts
  have hnum : s.numElements = 128 := by
    rw [hlayout.size, hperm.length_eq, length_map, length_range]
  have hsize : newSize spacedConfig 0 s.toTable = 256 := by
    rw [newSize, hnum]
    decide +kernel
  have hcrowd : CrowdedIn spacedConfig 256 (entries spacedConfig s.toTable).dropLast := by
    refine ⟨0, 0, le_rfl, ?_⟩
    rw [countP_eq_length.mpr, length_dropLast, ← hlayout.size, hnum]
    · decide
    · intro node hnode
      have hmem := hperm.subset (dropLast_subset _ hnode)
      obtain ⟨key, hkey, rfl⟩ := mem_map.mp hmem
      have hhome : ∀ key < 128, homeOf spacedConfig 256 key = 0 := by decide +kernel
      have hzero := hhome key (mem_range.mp hkey)
      exact decide_eq_true ⟨Nat.zero_le _, hzero.le⟩
  obtain ⟨s', hcall, hless, _⟩ := (rehashPowerOfTwo_eq (.inr hlayout) (show Room spacedConfig 256 by
      rw [Room]
      decide)
    ⟨8, by decide, rfl⟩
    (by
      rw [hnum]
      decide)).2 hcrowd
  refine ⟨s, s', hrun.mono fun _ _ hok => hok.1, hperm, ?_, hnum ▸ hless⟩
  rw [perform, rehash, reserveOrRehash, hsize, if_neg (by decide), if_pos (.inl rfl), hcall]
  rfl

end

end Ktl.HashTable
