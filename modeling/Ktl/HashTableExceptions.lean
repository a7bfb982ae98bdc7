import Ktl.HashTableInvariant

/-!
Exceptions inside the table, of the copy of a key or a value and of an allocation. A node is
constructed where the table already has made room for it, and `init_data` writes the size
and the mask before it asks for the array, so an exception need not leave the table as it
was.
-/
namespace Ktl.HashTable

open RobinHood Relation Option

variable {α β : Type*} {c : Config α} {s s' : State α β}

/-! ## Calls that may throw -/

structure Faults (α β : Type*) where
  /-- `allocate_bytes`, by the number of the block that it would return -/
  allocation : Nat → Bool
  /-- the copy of the key or the value -/
  copy : Bool
  movedFrom : α × β → α × β

inductive Attempt (σ ρ : Type*) where
  | ended (call : Call σ ρ)
  | threw (state : σ)

def Attempt.andThen {σ ρ ρ' : Type*} (attempt : Attempt σ ρ) (f : ρ → σ → Attempt σ ρ') : Attempt σ ρ' :=
  match attempt with
  | .ended (.returned value state) => f value state
  | .ended (.overflowError state) => .ended (.overflowError state)
  | .ended .undefined => .ended .undefined
  | .threw state => .threw state

def withoutArray (c : Config α) (maxElements : Nat) (s : State α β) : State α β :=
  { s with
    numElements := 0
    mask := maxElements - 1
    maxNumElementsAllowed := c.calcMaxNumElementsAllowed maxElements }

section
variable (c : Config α) (f : Faults α β)

def tryInitData (maxElements : Nat) (s : State α β) : Attempt (State α β) Unit :=
  if f.allocation s.heap.next then .threw (withoutArray c maxElements s)
  else .ended (initData c maxElements s)

def tryRehashPowerOfTwo (numBuckets : Nat) (s : State α β) : Attempt (State α β) Unit :=
  let oldMaxElementsWithBuffer := slotCount c s.toTable
  (tryInitData c f numBuckets s).andThen fun _ new =>
    if 1 < oldMaxElementsWithBuffer then
      .ended <| (moveNodes c s.toTable (List.range oldMaxElementsWithBuffer) new).andThen fun _ new =>
        .returned () (addOrFree c new s.array (c.calcNumBytesTotal oldMaxElementsWithBuffer))
    else .ended (.returned () new)

def tryIncreaseSize (s : State α β) : Attempt (State α β) Unit :=
  if s.mask = 0 then tryInitData c f initialNumElements s
  else
    let maxNumElementsAllowed := c.calcMaxNumElementsAllowed (s.mask + 1)
    let increased :=
      if s.numElements < maxNumElementsAllowed then tryIncreaseInfo c s.toTable else none
    match increased with
    | some t => .ended (.returned () { s with toTable := t })
    | none =>
      if s.numElements * 2 % 2 ^ 64 < maxNumElementsAllowed then .ended (.overflowError s)
      else tryRehashPowerOfTwo c f ((s.mask + 1) * 2 % 2 ^ 64) s

def tryReserveOrRehash (count : Nat) (forceRehash : Bool) (s : State α β) : Attempt (State α β) Unit :=
  let size := newSize c count s.toTable
  if size = 0 then .ended (.overflowError s)
  else if forceRehash ∨ s.mask + 1 < size then tryRehashPowerOfTwo c f size s
  else .ended (.returned () s)

/-- The constructor of a node. One with a pointer gets its cell first, which is lost if the copy
throws. -/
def tryNewNode (s : State α β) : Attempt (State α β) Unit :=
  if !c.isFlat ∧ s.pool.free = 0 ∧ f.allocation s.heap.next then .threw s
  else if f.copy then .threw (newNode c s)
  else .ended (.returned () (newNode c s))

/-- What is left in a slot whose node was moved away. A node with a pointer keeps it. -/
def leftover (node : Option (α × β)) : Option (α × β) := if c.isFlat then node.map f.movedFrom else node

def finishNode (node : α × β) (info idx : Nat) (s : State α β) : State α β :=
  { s with
    keyVals := Function.update s.keyVals idx (some node)
    info := Function.update s.info idx (info % 256)
    numElements := s.numElements + 1 }

/-- The end of an insertion, with the construction of the node where the source has it. -/
def tryPutNode (node : α × β) (construct : State α β → Attempt (State α β) Unit) (insertionInfo insertionIdx : Nat)
    (s : State α β) : Attempt (State α β) (Nat × Bool) :=
  let t := if 0xFF < insertionInfo + s.infoInc then { s.toTable with maxNumElementsAllowed := 0 }
    else s.toTable
  match nextWhileFull t (infoBytes c t - insertionIdx) insertionInfo insertionIdx with
  | none => .ended .undefined
  | some (_, idx) =>
    let t :=
      if idx = insertionIdx then t
      else
        let shifted := shiftUp t idx insertionIdx
        { shifted with
          keyVals := Function.update shifted.keyVals insertionIdx (leftover c f (shifted.keyVals insertionIdx)) }
    (construct { s with toTable := t }).andThen fun _ s =>
      .ended (.returned (insertionIdx, true) (finishNode node insertionInfo insertionIdx s))

def tryInsertLoop (node : α × β) (construct : State α β → Attempt (State α β) Unit) :
    Nat → State α β → Attempt (State α β) (Nat × Bool)
  | 0, _ => .ended .undefined
  | rounds + 1, s =>
    match probe c s.toTable node.1 with
    | none => .ended .undefined
    | some (.found idx) => .ended (.returned (idx, false) s)
    | some (.absent info idx) =>
      if s.maxNumElementsAllowed ≤ s.numElements then
        (tryIncreaseSize c f s).andThen fun _ s => tryInsertLoop node construct rounds s
      else tryPutNode c f node construct info idx s

inductive Request (α β : Type*) where
  | insert (key : α) (value : β)
  | emplace (key : α) (value : β)
  | subscript (key : α)
  | reserve (count : Nat)
  | rehash (count : Nat)

def attempt [Inhabited β] (request : Request α β) (s : State α β) : Attempt (State α β) Unit :=
  match request with
  | .insert key value =>
    (tryInsertLoop c f (key, value) (tryNewNode c f) insertRounds s).andThen fun _ s => .ended (.returned () s)
  | .emplace key value =>
    (tryNewNode c f s).andThen fun _ s =>
      (tryInsertLoop c f (key, value) (fun s => .ended (.returned () s)) insertRounds s).andThen
        fun (_, inserted) s => .ended <| .returned () <|
          if inserted then s else { s with toTable := destroyNode c s.toTable }
  | .subscript key =>
    (tryInsertLoop c f (key, default) (tryNewNode c f) insertRounds s).andThen fun _ s => .ended (.returned () s)
  | .reserve count => tryReserveOrRehash c f count false s
  | .rehash count => tryReserveOrRehash c f count true s

/-- The table and the slot for which an insertion constructs its node. -/
def insertionSlot (key : α) : Nat → State α β → Option (State α β × Nat)
  | 0, _ => none
  | rounds + 1, s =>
    match probe c s.toTable key with
    | some (.absent _ idx) =>
      if s.maxNumElementsAllowed ≤ s.numElements then
        match tryIncreaseSize c f s with
        | .ended (.returned _ s) => insertionSlot key rounds s
        | _ => none
      else some (s, idx)
    | _ => none

def emptySlot (key : α) (s : State α β) : Bool :=
  (insertionSlot c f key insertRounds s).any fun (s, idx) => s.info idx = 0

/-- What throws does so before the table is changed: the construction of a node that is not yet put
or goes to an empty slot, or the allocation of an empty table's array. -/
def Harmless (request : Request α β) (s : State α β) : Prop :=
  match request with
  | .insert key _ | .subscript key => emptySlot c f key s = true
  | .emplace _ _ => (!c.isFlat ∧ s.pool.free = 0 ∧ f.allocation s.heap.next = true) ∨ f.copy = true
  | .reserve count | .rehash count => s.numElements = 0 ∧ newSize c count s.toTable = s.mask + 1

def found (t : Table α β) (key : α) : Option (Option (α × β)) := (findIdx c t key).map (nodeAt c t)

/-- The table is one that the operations make and has the entries that it had, and the storage is in
order. -/
structure Recovered (s s' : State α β) : Prop where
  inv : Inv c s'.toTable
  entries : (entries c s'.toTable).Perm (entries c s.toTable)
  size : s'.numElements = s.numElements
  find : ∀ key, found c s'.toTable key = found c s.toTable key
  iteration : ∃ nodes nodes', visitAll c s.toTable = some nodes ∧ visitAll c s'.toTable = some nodes' ∧
    nodes'.Perm nodes
  /-- later operations answer like those of a map with these entries -/
  later : ∀ [Inhabited β] (op : Op α β), Valid c s'.toTable op → Safe c s'.toTable op →
    Behaves c op s' (perform c op s')
  stored : Stored c s s'

end

/-! ## Tables that are as they were -/

theorem Inv.found_eq (h : Inv c t) (key : α) :
    found c t key = some (FiniteMap.lookup c.keyEqual (entries c t) key) := by
  rw [found]
  rcases h.findIdx_eq key with ⟨idx, node, hfind, hne, _, hnode, hmem, hkey⟩ | ⟨hfind, habsent⟩
  · rw [hfind, h.lookup_eq hmem hkey, map_some, nodeAt, if_neg hne, hnode]
  · rw [hfind, habsent.lookup_eq, map_some, nodeAt_endIdx]

theorem Inv.lookup_of_perm (h : Inv c t) (h' : Inv c t') (hperm : (entries c t').Perm (entries c t)) (key : α) :
    FiniteMap.lookup c.keyEqual (entries c t') key = FiniteMap.lookup c.keyEqual (entries c t) key := by
  rcases present_or_absent c t key with ⟨node, hmem, hkey⟩ | habsent
  · rw [h.lookup_eq hmem hkey, h'.lookup_eq (hperm.symm.subset hmem) hkey]
  · rw [habsent.lookup_eq, (absent_of_perm hperm habsent).lookup_eq]

theorem recovered_of_perm (hinv : Inv c s.toTable) (hinv' : Inv c s'.toTable)
    (hperm : (entries c s'.toTable).Perm (entries c s.toTable)) (hstored : Stored c s s') :
    Recovered c s s' where
  inv := hinv'
  entries := hperm
  size := by rw [hinv.size_eq, hinv'.size_eq, hperm.length_eq]
  find key := by rw [hinv.found_eq, hinv'.found_eq, hinv.lookup_of_perm hinv' hperm]
  iteration := ⟨_, _, hinv.visitAll_eq, hinv'.visitAll_eq, hperm⟩
  later op hvalid hsafe := perform_behaves op hinv' hvalid hsafe
  stored := hstored

/-! ## Without faults -/

theorem Attempt.andThen_eq_threw {σ ρ ρ' : Type*} {a : Attempt σ ρ} {g : ρ → σ → Attempt σ ρ'} {x : σ} :
    a.andThen g = .threw x ↔ a = .threw x ∨ ∃ value y, a = .ended (.returned value y) ∧ g value y = .threw x := by
  match a with
  | .ended (.returned value y) => simp [andThen]
  | .ended (.overflowError y) => simp [andThen]
  | .ended .undefined => simp [andThen]
  | .threw y => simp [andThen]

theorem tryInitData_of_not_fails (hok : f.allocation s.heap.next = false) (n : Nat) :
    tryInitData c f n s = .ended (initData c n s) := by
  rw [tryInitData, hok]
  rfl

theorem tryInitData_of_fails (hfails : f.allocation s.heap.next = true) (n : Nat) :
    tryInitData c f n s = .threw (withoutArray c n s) := by
  rw [tryInitData, if_pos hfails]

theorem tryRehashPowerOfTwo_eq (f : Faults α β) (n : Nat) (s : State α β) :
    tryRehashPowerOfTwo c f n s = .ended (rehashPowerOfTwo c n s) ∧ f.allocation s.heap.next = false ∨
      tryRehashPowerOfTwo c f n s = .threw (withoutArray c n s) ∧ f.allocation s.heap.next = true := by
  cases hfails : f.allocation s.heap.next with
  | true =>
    rw [tryRehashPowerOfTwo, tryInitData_of_fails hfails]
    exact .inr ⟨rfl, rfl⟩
  | false =>
    rw [tryRehashPowerOfTwo, tryInitData_of_not_fails hfails, rehashPowerOfTwo]
    refine .inl ⟨?_, rfl⟩
    cases initData c n s with
    | returned value new =>
      dsimp only [Attempt.andThen, Call.andThen]
      split <;> rfl
    | overflowError new => rfl
    | undefined => rfl

def grownSize (t : Table α β) : Nat :=
  if t.mask = 0 then initialNumElements else (t.mask + 1) * 2 % 2 ^ 64

theorem tryIncreaseSize_eq (f : Faults α β) (s : State α β) : tryIncreaseSize c f s = .ended (increaseSize c s) ∨
      tryIncreaseSize c f s = .threw (withoutArray c (grownSize s.toTable) s) ∧ f.allocation s.heap.next = true := by
  rw [tryIncreaseSize, increaseSize, grownSize]
  by_cases hmask : s.mask = 0
  · simp only [if_pos hmask]
    cases hfails : f.allocation s.heap.next with
    | true => exact .inr ⟨tryInitData_of_fails hfails _, rfl⟩
    | false => exact .inl (tryInitData_of_not_fails hfails _)
  · simp only [if_neg hmask]
    cases (if s.numElements < c.calcMaxNumElementsAllowed (s.mask + 1)
      then tryIncreaseInfo c s.toTable else none) with
    | some t => exact .inl rfl
    | none =>
      by_cases hoverflow : s.numElements * 2 % 2 ^ 64 < c.calcMaxNumElementsAllowed (s.mask + 1)
      · simp only [if_pos hoverflow]
        exact .inl trivial
      · simp only [if_neg hoverflow]
        rcases tryRehashPowerOfTwo_eq f ((s.mask + 1) * 2 % 2 ^ 64) s with ⟨hrun, _⟩ | hfails
        · exact .inl hrun
        · exact .inr hfails

theorem tryNewNode_eq (c : Config α) (f : Faults α β) (s : State α β) :
    ((!c.isFlat ∧ s.pool.free = 0 ∧ f.allocation s.heap.next = true) ∨ f.copy = true) ∧
      (∃ s', tryNewNode c f s = .threw s') ∨
    ¬ ((!c.isFlat ∧ s.pool.free = 0 ∧ f.allocation s.heap.next = true) ∨ f.copy = true) ∧
      tryNewNode c f s = .ended (.returned () (newNode c s)) := by
  rw [tryNewNode]
  split
  · exact .inl ⟨.inl (by assumption), _, rfl⟩
  · split
    · exact .inl ⟨.inr (by assumption), _, rfl⟩
    · exact .inr ⟨not_or.mpr ⟨by assumption, by assumption⟩, rfl⟩

structure Constructed (construct : State α β → Attempt (State α β) Unit) (constructed : State α β → State α β) :
    Prop where
  eq : ∀ s, construct s = .ended (.returned () (constructed s))
  finish : ∀ node info idx s, finishNode node info idx (constructed s) = constructed (finishNode node info idx s)

theorem constructed_id : Constructed (fun s : State α β => .ended (.returned () s)) id :=
  ⟨fun _ => rfl, fun _ _ _ _ => rfl⟩

theorem finishNode_newNode (node : α × β) (info idx : Nat) (s : State α β) :
    finishNode node info idx (newNode c s) = newNode c (finishNode node info idx s) := by
  rw [newNode, newNode]
  split
  · rfl
  · have hpool : (finishNode node info idx s).pool = s.pool := rfl
    rw [hpool]
    dsimp only
    split <;> rfl

variable {construct : State α β → Attempt (State α β) Unit}

theorem tryPutNode_ended {constructed : State α β → State α β} (h : Constructed construct constructed)
    (info idx : Nat) (s : State α β) :
    tryPutNode c f node construct info idx s = .ended (.ofOption <| (putNode c s.toTable node info idx).map fun t =>
          ((idx, true), constructed { s with toTable := t })) := by
  rw [tryPutNode, putNode]
  dsimp only
  generalize (if 0xFF < info + s.infoInc then { s.toTable with maxNumElementsAllowed := 0 } else s.toTable) = t
  rcases nextWhileFull t (infoBytes c t - idx) info idx with _ | ⟨_, last⟩
  · rfl
  · dsimp only
    rw [h.eq]
    simp only [Attempt.andThen, h.finish, map_some, Call.ofOption]
    by_cases hsame : last = idx
    · simp only [if_pos hsame]
      rfl
    · simp [if_neg hsame, finishNode]

section
variable {f : Faults α β} (halloc : ∀ block, f.allocation block = false)
include halloc

theorem tryInsertLoop_ended {construct : State α β → Attempt (State α β) Unit}
    {constructed : State α β → State α β} (h : Constructed construct constructed) (rounds : Nat) (s : State α β) :
    tryInsertLoop c f node construct rounds s = .ended (insertLoop c node constructed rounds s) := by
  induction rounds generalizing s with
  | zero => rfl
  | succ rounds ih =>
    rw [tryInsertLoop, insertLoop]
    rcases probe c s.toTable node.1 with _ | ⟨idx⟩ | ⟨info, idx⟩
    · rfl
    · rfl
    · dsimp only
      split
      · rcases tryIncreaseSize_eq f s with hended | ⟨_, hfails⟩
        · rw [hended]
          cases increaseSize c s with
          | returned value s₁ => exact ih s₁
          | overflowError s₁ => rfl
          | undefined => rfl
        · rw [halloc] at hfails
          cases hfails
      · exact tryPutNode_ended h info idx s

theorem tryReserveOrRehash_ended (count : Nat) (force : Bool) (s : State α β) :
    tryReserveOrRehash c f count force s = .ended (reserveOrRehash c count force s) := by
  rw [tryReserveOrRehash, reserveOrRehash]
  split
  · rfl
  · split
    · rcases tryRehashPowerOfTwo_eq f (newSize c count s.toTable) s with ⟨hended, _⟩ | ⟨_, hfails⟩
      · exact hended
      · rw [halloc] at hfails
        cases hfails
    · rfl

end

def Request.op : Request α β → Op α β
  | .insert key value => .insert key value
  | .emplace key value => .emplace key value
  | .subscript key => .subscript key
  | .reserve count => .reserve count
  | .rehash count => .rehash count

/-- Where nothing throws, a request does what the operation of the table does. -/
theorem attempt_eq_perform [Inhabited β] (halloc : ∀ block, f.allocation block = false)
    (hcopy : f.copy = false) (request : Request α β) (s : State α β) :
    attempt c f request s = .ended ((perform c request.op s).andThen fun _ s => .returned () s) := by
  have hnew : ∀ s, tryNewNode c f s = .ended (.returned () (newNode c s)) := by
    intro s
    rcases tryNewNode_eq c f s with ⟨hfails, _⟩ | ⟨_, hended⟩
    · rw [halloc, hcopy] at hfails
      simp at hfails
    · exact hended
  have hconstructed : Constructed (tryNewNode c f) (newNode c) := ⟨hnew, finishNode_newNode⟩
  cases request with
  | insert key value =>
    rw [attempt, tryInsertLoop_ended halloc hconstructed, Request.op, perform, insert, doInsert]
    cases insertLoop c (key, value) (newNode c) insertRounds s <;> rfl
  | emplace key value =>
    rw [attempt, hnew, Request.op, perform, emplace, doInsert]
    dsimp only [Attempt.andThen]
    rw [tryInsertLoop_ended halloc constructed_id]
    cases insertLoop c (key, value) id insertRounds (newNode c s) <;> rfl
  | subscript key =>
    rw [attempt, tryInsertLoop_ended halloc hconstructed, Request.op, perform, doCreateByKey, doInsert]
    cases insertLoop c (key, default) (newNode c) insertRounds s <;> rfl
  | reserve count =>
    rw [attempt, tryReserveOrRehash_ended halloc, Request.op, perform, reserve]
    cases reserveOrRehash c count false s <;> rfl
  | rehash count =>
    rw [attempt, tryReserveOrRehash_ended halloc, Request.op, perform, rehash]
    cases reserveOrRehash c count true s <;> rfl

/-! ## An array that is not allocated -/

theorem Layout.eq_slotCount (h : Layout c t) (hinfo : t.info idx = 1) : idx = slotCount c t := by
  rcases Nat.lt_trichotomy idx (slotCount c t) with hlt | heq | hgt
  · cases hnode : t.keyVals idx with
    | none => rw [h.vacant idx hlt hnode] at hinfo; cases hinfo
    | some node =>
      have hle := inc_le_keyInfo c t node.1 idx
      have hinc := h.two_le_inc
      rw [← (h.occupied idx node hlt hnode).2] at hle
      omega
  · exact heq
  · rw [h.padding idx hgt] at hinfo
    cases hinfo

theorem Layout.slotCount_lt (h : Layout c t) (h' : Layout c t') (hmask : t.mask < t'.mask) :
    slotCount c t < slotCount c t' := by
  obtain ⟨k, _, hk⟩ := h.buckets
  obtain ⟨l, _, hl⟩ := h'.buckets
  have hkl : k < l := (Nat.pow_lt_pow_iff_right (show 1 < 2 by decide)).mp (by omega)
  have hdouble : 2 ^ (k + 1) ≤ 2 ^ l := Nat.pow_le_pow_right (by decide) hkl
  have hlt := c.calcMaxNumElementsAllowed_lt (show 0 < t.mask + 1 by omega)
  rw [Nat.pow_succ] at hdouble
  rw [h.slotCount_eq, h'.slotCount_eq]
  omega

theorem Layout.mask_eq_of_slotCount (h : Layout c t) (h' : Layout c t')
    (hslots : slotCount c t' = slotCount c t) : t'.mask = t.mask := by
  rcases Nat.lt_trichotomy t.mask t'.mask with hlt | heq | hgt
  · exact absurd hslots (h.slotCount_lt h' hlt).ne'
  · exact heq.symm
  · exact absurd hslots (h'.slotCount_lt h hgt).ne

theorem Inv.eq_of_withoutArray (hpos : 0 < n) (hinv : Inv c s.toTable)
    (hinv' : Inv c (withoutArray c n s).toTable) : n = s.mask + 1 := by
  have hmask : (withoutArray c n s).mask + 1 = n := Nat.sub_add_cancel hpos
  have hinfo : (withoutArray c n s).info = s.info := rfl
  rcases hinv with hfresh | h <;> rcases hinv' with hfresh' | h'
  · rw [← hmask, hfresh.mask, hfresh'.mask]
  · have hone := h'.sentinel
    rw [hinfo, hfresh.info] at hone
    cases hone
  · have hone := h.sentinel
    rw [← hinfo, hfresh'.info] at hone
    cases hone
  · rw [← hmask, h.mask_eq_of_slotCount h' (h.eq_slotCount h'.sentinel)]

theorem Layout.info_of_empty (h : Layout c t) (hempty : t.numElements = 0) (hidx : idx < slotCount c t) :
    t.info idx = 0 := by
  apply h.vacant idx hidx
  rw [h.size, List.length_eq_zero_iff] at hempty
  by_contra hne
  obtain ⟨node, hnode⟩ := ne_none_iff_exists'.mp hne
  have hmem : node ∈ entries c t := mem_entriesFrom.mpr ⟨idx, Nat.zero_le _, by omega, hnode⟩
  rw [hempty] at hmem
  cases hmem

theorem Layout.withoutArray (h : Layout c s.toTable) (hempty : s.numElements = 0) :
    Layout c (withoutArray c (s.mask + 1) s).toTable := by
  have hinc := h.inc_eq ▸ Nat.pow_le_pow_right (by decide) (Nat.sub_le 5 _)
  have hroomy : Roomy c s.toTable := by
    intro idx hidx
    rw [h.info_of_empty hempty hidx]
    omega
  exact { h with
    size := hempty.symm.trans h.size
    load := Nat.zero_le _
    limit := .inr ⟨rfl, hroomy⟩ }

theorem Inv.recovered_withoutArray_iff (hinv : Inv c s.toTable) (hn : 1 < n) :
    Recovered c s (HashTable.withoutArray c n s) ↔ s.numElements = 0 ∧ n = s.mask + 1 := by
  constructor
  · intro hrecovered
    exact ⟨hrecovered.size.symm, hinv.eq_of_withoutArray (by omega) hrecovered.inv⟩
  · rintro ⟨hempty, rfl⟩
    have h := hinv.resolve_left fun hfresh => by
      rw [hfresh.mask] at hn
      omega
    exact recovered_of_perm hinv (.inr (h.withoutArray hempty)) (.refl _) (.single (.same ⟨rfl, rfl, rfl, rfl, rfl⟩))

/-! ## A node that is not constructed -/

def Careful (c : Config α) (construct : State α β → Attempt (State α β) Unit) : Prop :=
  ∀ s s', construct s = .threw s' → s'.toTable = { s.toTable with pool := s'.pool } ∧ Stored c s s'

theorem careful_tryNewNode (c : Config α) (f : Faults α β) : Careful c (tryNewNode c f) := by
  intro s s' hthrew
  rw [tryNewNode] at hthrew
  split at hthrew
  · cases hthrew
    exact ⟨rfl, .refl⟩
  · split at hthrew
    · cases hthrew
      exact ⟨newNode_toTable c s, newNode_stored c s⟩
    · cases hthrew

theorem Layout.withLimit (h : Layout c t) {limit : Nat} (hlimit : limit = 0 ∨ limit = t.maxNumElementsAllowed) :
    Layout c { t with maxNumElementsAllowed := limit } := by
  refine { h with limit := ?_ }
  rcases hlimit with hzero | rfl
  · exact .inl hzero
  · exact h.limit

theorem tryPutNode_construct {info idx : Nat} (hthrew : tryPutNode c f node construct info idx s = .threw s') :
    ∃ s₁, construct s₁ = .threw s' := by
  rw [tryPutNode] at hthrew
  dsimp only at hthrew
  split at hthrew
  · cases hthrew
  · rcases Attempt.andThen_eq_threw.mp hthrew with hconstruct | ⟨_, _, _, hended⟩
    · exact ⟨_, hconstruct⟩
    · cases hended

theorem Layout.length_entries_shifted (h : Layout c t) (hroomy : Roomy c t) (hidx : idx < last)
    (hlast : last < slotCount c t) (hzero : t.info last = 0) (hne : t.info idx ≠ 0) :
    (entries c { shiftUp t last idx with
      keyVals := Function.update (shiftUp t last idx).keyVals idx
        (leftover c f ((shiftUp t last idx).keyVals idx)) }).length = (entries c t).length + 1 := by
  obtain ⟨old, hold⟩ : ∃ old, t.keyVals idx = some old :=
    ne_none_iff_exists'.mp fun hnone => hne (h.vacant idx (by omega) hnone)
  obtain ⟨limit, hinfos, _⟩ := shiftInfosUp_eq idx (last - idx)
    { t with keyVals := shiftNodesUp idx (last - idx) t.keyVals } fun i _ hi => hroomy i (by omega)
  have hmoved : shiftNodesUp idx (last - idx) t.keyVals idx = some old := by
    rw [shiftNodesUp_apply, if_neg (by omega), hold]
  obtain ⟨rest, hrest⟩ : ∃ rest, leftover c f (some old) = some rest := by
    rw [leftover]
    split
    · exact ⟨_, rfl⟩
    · exact ⟨_, rfl⟩
  rw [shiftUp]
  dsimp only
  rw [hinfos]
  dsimp only
  rw [hmoved, hrest, update_shiftNodesUp hidx.le]
  exact (h.entries_withNode rest hidx.le hlast hzero 0 0).length_eq

theorem Layout.tryPutNode_threw {idx : Nat} (hcareful : Careful c construct) (h : Layout c s.toTable)
    (hspace : s.numElements < s.maxNumElementsAllowed) (hv : Vacancy c s.toTable key idx)
    (hthrew : tryPutNode c f node construct (keyInfo c s.toTable key idx) idx s = .threw s') :
    s.info idx = 0 ∧ Grown c s s' ∨
      s.info idx ≠ 0 ∧ (entries c s'.toTable).length = (entries c s.toTable).length + 1 := by
  obtain ⟨hmax, hroomy⟩ := h.limits hspace
  obtain ⟨last, info, hgap, hidx, hlast, hzero, hfull⟩ := h.nextWhileFull_eq (hmax ▸ hspace) hv
  obtain ⟨first, hfirst, hstart⟩ : ∃ first, (first = 0 ∨ first = s.maxNumElementsAllowed) ∧
      (if 0xFF < keyInfo c s.toTable key idx + s.infoInc then { s.toTable with maxNumElementsAllowed := 0 }
        else s.toTable) = { s.toTable with maxNumElementsAllowed := first } := by
    split
    · exact ⟨0, .inl rfl, rfl⟩
    · exact ⟨_, .inr rfl, rfl⟩
  have hgap' : nextWhileFull { s.toTable with maxNumElementsAllowed := first }
      (infoBytes c { s.toTable with maxNumElementsAllowed := first } - idx) (keyInfo c s.toTable key idx) idx
      = some (info, last) := hgap
  rw [tryPutNode, hstart, hgap'] at hthrew
  dsimp only at hthrew
  rcases Attempt.andThen_eq_threw.mp hthrew with hconstruct | ⟨_, _, _, hended⟩
  swap
  · cases hended
  obtain ⟨htable, hstored⟩ := hcareful _ _ hconstruct
  by_cases hsame : last = idx
  · left
    rw [if_pos hsame] at htable hstored
    refine ⟨hsame ▸ hzero, ?_, ?_, ?_⟩
    · rw [htable]
      exact (h.withLimit hfirst).withStorage _ _
    · rw [htable]
      exact .refl _
    · have hlimited : StorageStep c s { s with maxNumElementsAllowed := first } :=
        .same ⟨rfl, rfl, rfl, rfl, rfl⟩
      exact .head hlimited hstored
  · right
    have hne : s.info idx ≠ 0 := hfull idx le_rfl (by omega)
    refine ⟨hne, ?_⟩
    rw [htable, if_neg hsame]
    exact (h.withLimit hfirst).length_entries_shifted hroomy (by omega) hlast hzero hne

/-! ## Insertions that throw -/

theorem Inv.grownSize_ne (hinv : Inv c t) : 0 < grownSize t ∧ grownSize t ≠ t.mask + 1 := by
  rw [grownSize]
  split_ifs with hmask
  · rw [hmask]
    decide
  · have hlt := (hinv.resolve_left fun hfresh => hmask hfresh.mask).double_lt
    rw [Nat.mod_eq_of_lt hlt]
    omega

theorem tryIncreaseSize_threw (hinv : Inv c s.toTable) (hthrew : tryIncreaseSize c f s = .threw s') :
    ¬ Inv c s'.toTable := by
  rcases tryIncreaseSize_eq f s with hended | ⟨hfailed, _⟩
  · rw [hended] at hthrew
    cases hthrew
  · rw [hfailed] at hthrew
    cases hthrew
    exact fun hinv' => hinv.grownSize_ne.2 (hinv.eq_of_withoutArray hinv.grownSize_ne.1 hinv')

theorem tryIncreaseSize_grown (hinv : Inv c s.toTable) (hrun : tryIncreaseSize c f s = .ended (.returned () s₁)) :
    Grown c s s₁ := by
  rcases tryIncreaseSize_eq f s with hended | ⟨hfailed, _⟩
  · rw [hended] at hrun
    exact increaseSize_grown hinv (Attempt.ended.inj hrun)
  · rw [hfailed] at hrun
    cases hrun

theorem tryInsertLoop_threw (hcareful : Careful c construct) (rounds : Nat) (hinv : Inv c s.toTable)
    (hthrew : tryInsertLoop c f node construct rounds s = .threw s') :
    (∃ s₁ idx, insertionSlot c f node.1 rounds s = some (s₁, idx) ∧ (∃ s₂, construct s₂ = .threw s') ∧
      (s₁.info idx = 0 ∧ Grown c s s' ∨
        s₁.info idx ≠ 0 ∧ (entries c s'.toTable).length = (entries c s.toTable).length + 1)) ∨
    insertionSlot c f node.1 rounds s = none ∧ ¬ Inv c s'.toTable := by
  induction rounds generalizing s with
  | zero => cases hthrew
  | succ rounds ih =>
    rw [tryInsertLoop] at hthrew
    rw [insertionSlot]
    match hprobe : probe c s.toTable node.1 with
    | none | some (.found idx) => simp only [hprobe] at hthrew; cases hthrew
    | some (.absent info idx) =>
      simp only [hprobe] at hthrew
      dsimp only
      by_cases hfull : s.maxNumElementsAllowed ≤ s.numElements
      · rw [if_pos hfull] at hthrew ⊢
        rcases Attempt.andThen_eq_threw.mp hthrew with hfailed | ⟨_, s₁, hgrown, hlater⟩
        · rw [hfailed]
          exact .inr ⟨rfl, tryIncreaseSize_threw hinv hfailed⟩
        · have hgrows := tryIncreaseSize_grown hinv hgrown
          rw [hgrown]
          rcases ih (.inr hgrows.layout) hlater with
            ⟨s₂, idx, hslot, hconstruct, ⟨hempty, hrest⟩ | ⟨htaken, hlen⟩⟩ | ⟨hslot, hbroken⟩
          · exact .inl ⟨s₂, idx, hslot, hconstruct, .inl ⟨hempty, hgrows.trans hrest⟩⟩
          · exact .inl ⟨s₂, idx, hslot, hconstruct, .inr ⟨htaken, by rw [hlen, hgrows.perm.length_eq]⟩⟩
          · exact .inr ⟨hslot, hbroken⟩
      · rw [if_neg hfull] at hthrew ⊢
        have h := hinv.resolve_left fun hfresh => hfull (by rw [hfresh.maxNumElementsAllowed]; exact Nat.zero_le _)
        obtain ⟨result, hres, hprobed⟩ := h.probe_eq node.1
        rw [hprobe] at hres
        cases hres
        obtain ⟨rfl, hv, _⟩ := hprobed
        exact .inl ⟨s, idx, rfl, tryPutNode_construct hthrew,
          h.tryPutNode_threw hcareful (not_le.mp hfull) hv hthrew⟩

theorem Inv.recovered_insert_iff (hcareful : Careful c construct) (hinv : Inv c s.toTable)
    (hthrew : tryInsertLoop c f node construct insertRounds s = .threw s') :
    Recovered c s s' ↔ emptySlot c f node.1 s = true := by
  rw [emptySlot]
  rcases tryInsertLoop_threw hcareful insertRounds hinv hthrew with
    ⟨s₁, idx, hslot, _, ⟨hempty, hgrown⟩ | ⟨htaken, hlen⟩⟩ | ⟨hslot, hbroken⟩
  · rw [hslot]
    refine iff_of_true ?_ (by simpa using hempty)
    exact recovered_of_perm hinv (.inr hgrown.layout) hgrown.perm hgrown.stored
  · rw [hslot]
    refine iff_of_false (fun hrecovered => ?_) (by simpa using htaken)
    have := hrecovered.entries.length_eq
    omega
  · rw [hslot]
    exact iff_of_false (fun hrecovered => hbroken hrecovered.inv) (by simp)

section

variable (hinv : Inv c s.toTable)

include hinv

theorem Inv.not_recovered_of_constructed
    (hthrew : tryInsertLoop c f node (fun s => .ended (.returned () s)) insertRounds s = .threw s') :
    ¬ Inv c s'.toTable := by
  have hcareful : Careful c fun s : State α β => .ended (.returned () s) := fun _ _ hnever => nomatch hnever
  rcases tryInsertLoop_threw hcareful insertRounds hinv hthrew with ⟨_, _, _, ⟨_, hnever⟩, _⟩ | ⟨_, hbroken⟩
  · cases hnever
  · exact hbroken

theorem Inv.recovered_emplace_iff [Inhabited β] {value : β} (hthrew : attempt c f (.emplace key value) s = .threw s') :
    Recovered c s s' ↔ Harmless c f (.emplace key value) s := by
  rcases Attempt.andThen_eq_threw.mp hthrew with hfailed | ⟨_, s₁, hnew, hrest⟩
  · obtain ⟨htable, hstored⟩ := careful_tryNewNode c f s s' hfailed
    refine iff_of_true (recovered_of_perm hinv ?_ ?_ hstored) ?_
    · rw [htable]
      exact hinv.withPool _
    · rw [htable]
      exact .refl _
    · rcases tryNewNode_eq c f s with ⟨hharmless, _⟩ | ⟨_, hended⟩
      · exact hharmless
      · rw [hended] at hfailed
        cases hfailed
  · rcases tryNewNode_eq c f s with ⟨_, s₂, hfailed⟩ | ⟨hsound, hended⟩
    · rw [hfailed] at hnew
      cases hnew
    · rw [hended] at hnew
      cases hnew
      have hinv₁ := newNode_toTable c s ▸ hinv.withPool _
      rcases Attempt.andThen_eq_threw.mp hrest with hloop | ⟨_, _, _, hended⟩
      · refine iff_of_false (fun hrecovered => ?_) hsound
        exact hinv₁.not_recovered_of_constructed hloop hrecovered.inv
      · cases hended

theorem Inv.recovered_reserve_iff {count : Nat} (hthrew : tryReserveOrRehash c f count force s = .threw s') :
    Recovered c s s' ↔ s.numElements = 0 ∧ newSize c count s.toTable = s.mask + 1 := by
  rw [tryReserveOrRehash] at hthrew
  split at hthrew
  · cases hthrew
  · rename_i hne
    split at hthrew
    · rcases tryRehashPowerOfTwo_eq f (newSize c count s.toTable) s with ⟨hended, _⟩ | ⟨hfailed, _⟩
      · rw [hended] at hthrew
        cases hthrew
      · rw [hfailed] at hthrew
        cases hthrew
        obtain ⟨⟨k, hk, hsize⟩, _⟩ := newSize_eq hne
        exact hinv.recovered_withoutArray_iff (hsize ▸ Nat.one_lt_two_pow (by omega))
    · cases hthrew

theorem Inv.recovered_iff [Inhabited β] {request : Request α β} (hthrew : attempt c f request s = .threw s') :
    Recovered c s s' ↔ Harmless c f request s := by
  have hinsert : ∀ node : α × β,
      (tryInsertLoop c f node (tryNewNode c f) insertRounds s).andThen (fun _ s => .ended (.returned () s))
        = .threw s' →
      (Recovered c s s' ↔ emptySlot c f node.1 s = true) := by
    intro node hthrew
    rcases Attempt.andThen_eq_threw.mp hthrew with hloop | ⟨_, _, _, hended⟩
    · exact hinv.recovered_insert_iff (careful_tryNewNode c f) hloop
    · cases hended
  cases request with
  | insert key value => exact hinsert (key, value) hthrew
  | emplace key value => exact hinv.recovered_emplace_iff hthrew
  | subscript key => exact hinsert (key, default) hthrew
  | reserve count | rehash count => exact hinv.recovered_reserve_iff hthrew

end

/-! ## Reachable tables -/

section
variable [Inhabited β]

/-- The tables that operations make from a new one, also where some of them threw. -/
inductive Reachable (c : Config α) : State α β → Prop
  | start (pool : Pool) (heap : Heap) : Reachable c (start pool heap)
  | step {s s' : State α β} {op : Op α β} (h : Reachable c s) (hvalid : Valid c s.toTable op)
      (hstep : step c s op = some s') : Reachable c s'
  | threw {s s' : State α β} {f : Faults α β} {request : Request α β} (h : Reachable c s)
      (hharmless : Harmless c f request s) (hthrew : attempt c f request s = .threw s') : Reachable c s'

theorem Reachable.inv (h : Reachable c s) : Inv c s.toTable := by
  induction h with
  | start pool heap => exact inv_start c pool heap
  | step _ hvalid hstep ih =>
    have hleaves := perform_leaves _ ih hvalid
    rw [HashTable.step] at hstep
    split at hstep
    · rename_i hcall
      cases hstep
      rw [hcall] at hleaves
      exact hleaves
    · rename_i hcall
      cases hstep
      rw [hcall] at hleaves
      exact hleaves
    · cases hstep
  | threw _ hharmless hthrew ih => exact ((ih.recovered_iff hthrew).mpr hharmless).inv

/-- After an exception the table is as it was exactly if it was harmless. -/
theorem recovers_iff_harmless {f : Faults α β} {request : Request α β} (hreachable : Reachable c s)
    (hthrew : attempt c f request s = .threw s') : Recovered c s s' ↔ Harmless c f request s :=
  hreachable.inv.recovered_iff hthrew

end

/-! ## Exceptions with and without harm -/

def Attempt.thrown {σ ρ : Type*} : Attempt σ ρ → Option σ
  | .threw state => some state
  | .ended _ => none

theorem Attempt.eq_threw {σ ρ : Type*} {a : Attempt σ ρ} {x : σ} (h : a.thrown = some x) : a = .threw x := by
  cases a with
  | ended call => cases h
  | threw state => rw [some.inj h]

def plainConfig : Config Nat :=
  { spacedConfig with
    hasher := fun key => BitVec.ofNat 64 key
    hasher_eq := fun _ _ h => congrArg (BitVec.ofNat 64) (of_decide_eq_true h) }

def plainTable : State Nat Nat := start ⟨0, [], 0⟩ ⟨0, [], []⟩

def copyFails : Faults Nat Nat := ⟨fun _ => false, true, id⟩

def arrayFails : Faults Nat Nat := ⟨fun _ => true, false, id⟩

/-- A first element that is not copied. -/
theorem recovers_in_empty_slot : ∃ s', attempt plainConfig copyFails (.insert 0 7) plainTable = .threw s' ∧
    Recovered plainConfig plainTable s' := by
  have hsome : (attempt plainConfig copyFails (.insert 0 7) plainTable).thrown.isSome = true := by decide +kernel
  obtain ⟨s', hthrown⟩ := isSome_iff_exists.mp hsome
  have hempty : emptySlot plainConfig copyFails 0 plainTable = true := by decide +kernel
  exact ⟨s', Attempt.eq_threw hthrown, (recovers_iff_harmless (.start _ _) (Attempt.eq_threw hthrown)).mpr hempty⟩

/-- An element is iterated over twice; and `reserve` leaves an empty table. -/
theorem exception_after_shift : ∃ s s₁ s₂, Reachable plainConfig s ∧
    s.numElements = 1 ∧ visitAll plainConfig s.toTable = some [(0, 7)] ∧
    attempt plainConfig copyFails (.insert 1 8) s = .threw s₁ ∧
    s₁.numElements = 1 ∧ visitAll plainConfig s₁.toTable = some [(0, 7), (0, 7)] ∧
    attempt plainConfig arrayFails (.reserve 100) s = .threw s₂ ∧
    s₂.numElements = 0 ∧ visitAll plainConfig s₂.toTable = some [] := by
  have hall : ((step plainConfig plainTable (.insert 0 7)).bind fun s =>
      (attempt plainConfig copyFails (.insert 1 8) s).thrown.bind fun s₁ =>
      (attempt plainConfig arrayFails (.reserve 100) s).thrown.map fun s₂ =>
        [s, s₁, s₂].map fun s => (s.numElements, visitAll plainConfig s.toTable))
      = some [(1, some [(0, 7)]), (1, some [(0, 7), (0, 7)]), (0, some [])] := by decide +kernel
  obtain ⟨s, hstep, hrest⟩ := bind_eq_some_iff.mp hall
  obtain ⟨s₁, hcopy, hrest⟩ := bind_eq_some_iff.mp hrest
  obtain ⟨s₂, harray, hstates⟩ := map_eq_some_iff.mp hrest
  simp only [List.map_cons, List.map_nil, List.cons.injEq, Prod.mk.injEq, and_true] at hstates
  obtain ⟨⟨hsize, hvisit⟩, ⟨hsize₁, hvisit₁⟩, hsize₂, hvisit₂⟩ := hstates
  have hvalid : Valid plainConfig plainTable.toTable (.insert 0 7) := trivial
  exact ⟨s, s₁, s₂, .step (.start _ _) hvalid hstep, hsize, hvisit, Attempt.eq_threw hcopy, hsize₁, hvisit₁,
    Attempt.eq_threw harray, hsize₂, hvisit₂⟩

end Ktl.HashTable
