import Ktl.VectorContents

/-!
Copy assignment and `assign` of a range, which is measured first or taken element by element.
The iterators that are measured are those that are no more than forward iterators.
-/
namespace Ktl.VectorAssignment

open ObjectMemory ObjectValues Ktl.Vector VectorCapacity VectorOwnership List

variable {α : Type}

section

variable (e : Element α) (s : State α)

/-- `assign_range` with a length check, before which the old elements are destroyed. -/
def assignVerified (vs : List α) : Result α :=
  if s.this.capacity < vs.length then
    s.clear.grow e true vs.length vs.length (fun m p => m.constructList p 0 vs) State.keep
  else s.assignRange e vs

/-- `assign_range` of a range that is not measured. -/
def assignEach (vs : List α) : Result α :=
  let s' := s.withMemory (s.memory.assignList s.this.buffer 0 (vs.take s.this.size))
  if s.this.size ≤ vs.length then appendEach e s' (vs.drop s.this.size)
  else
    let m := s'.memory.destroyN s.this.buffer vs.length (s.this.size - vs.length)
    .returned ((s'.withMemory m).setSize vs.length)

/-- The same for iterators of the vector itself, which leave nothing to append. -/
def assignOwn (first last : Nat) : Result α :=
  let m := s.memory.assignN s.this.buffer first 0 (last - first)
  let m := m.destroyN s.this.buffer (last - first) (s.this.size - (last - first))
  .returned ((s.withMemory m).setSize (last - first))

end

inductive Call (α : Type) where
  /-- `v = v` -/
  | self
  /-- `v = other`, with an equal allocator -/
  | copy (other : Impl)
  /-- `v.assign(first, last)` of forward iterators that are not bidirectional -/
  | assignForward (vs : List α)
  /-- of bidirectional or random access iterators -/
  | assignStronger (vs : List α)
  /-- of iterators of the vector itself -/
  | assignOwn (first last : Nat)

def call (e : Element α) (s : State α) : Call α → Result α
  | .self => .returned s
  | .copy other => s.copyAssign e other
  | .assignForward vs => assignVerified e s vs
  | .assignStronger vs => assignEach e s vs
  | .assignOwn first last => assignOwn s first last

def content (s : State α) : List (Option α) := (List.range s.this.size).map (s.memory.read s.this.buffer)

def source (s : State α) : Call α → List (Option α)
  | .self => content s
  | .copy other => content ⟨s.memory, other⟩
  | .assignForward vs | .assignStronger vs => vs.map some
  | .assignOwn first last => (List.range (last - first)).map fun k => s.memory.read s.this.buffer (first + k)

variable {e : Element α} {s : State α} {vs : List α}

structure Usable (e : Element α) (s : State α) : Prop where
  owns : Owns e s.memory s.this
  fresh : Fresh s.memory
  served : ∀ q, s.memory.fails q = false

/-- The operands of the call: another vector has another buffer, and a length is
a `size_type`. -/
def Valid (e : Element α) (s : State α) : Call α → Prop
  | .self | .assignStronger _ => True
  | .copy other => Owns e s.memory other ∧ ∀ q, s.this.buffer = some q → other.buffer ≠ some q
  | .assignForward vs => vs.length < 2 ^ 64
  | .assignOwn first last => first ≤ last ∧ last ≤ s.this.size

/-- A measured range fits over the old elements, or there are none, or a new
buffer is needed. -/
def Apt (v : Impl) (length : Nat) : Prop := v.size < length → length ≤ v.capacity → v.size = 0

def Regular (e : Element α) (s : State α) : Call α → Prop
  | .self | .assignOwn _ _ => True
  | .copy other => Apt s.this other.size
  | .assignForward vs =>
    Apt s.this vs.length ∧ (s.this.capacity < vs.length → vs.length ≤ maxSize ∧ vs.length * e.size < 2 ^ 64)
  | .assignStronger vs =>
    ∀ c ∈ growths s.this.size s.this.capacity (vs.length - s.this.size), c * e.size < 2 ^ 64

def Assigned (m : Memory α) (xs : List (Option α)) (r : Result α) : Prop :=
  ∃ t, r = .returned t ∧ content t = xs ∧ t.memory.misuse = m.misuse

def Spoilt (m : Memory α) (r : Result α) : Prop := ∀ t, r = .returned t → m.misuse < t.memory.misuse

theorem Spoilt.not_assigned (h : Spoilt m r) : ¬ Assigned m ys r := by
  rintro ⟨t, ht, _, hmisuse⟩
  exact (h t ht).ne' hmisuse

theorem Spoilt.of_eq (h : Spoilt m r) (hm : m.misuse = s.memory.misuse) : Spoilt s.memory r := by
  intro t ht
  rw [← hm]
  exact h t ht

theorem content_eq (hsize : t.this.size = vs.length)
    (hread : ∀ k, k < vs.length → t.memory.read t.this.buffer k = vs[k]?) : content t = vs.map some := by
  rw [content, hsize]
  apply ext_getElem
  · simp
  · intro k hk hk'
    have hlt : k < vs.length := by simpa using hk'
    rw [getElem_map, getElem_range, hread k hlt, getElem_map, getElem?_eq_getElem hlt]

theorem overwrite_content (hb : s.this.buffer = some q) (h : Owns e s.memory s.this) (hle : vs.length ≤ s.this.size) :
    content ((s.withMemory ((s.memory.assignList s.this.buffer 0 vs).destroyN s.this.buffer vs.length
      (s.this.size - vs.length))).setSize vs.length) = vs.map some := by
  obtain ⟨hsize, hhas⟩ := (owns_some hb).mp h
  have hassigned := hhas.overwrite 0 vs (by omega) hsize.1
  have hreads := (hassigned.has.truncate hle hsize.1).reads
  apply content_eq rfl
  intro k hk
  simp only [State.setSize, State.withMemory, hb]
  rw [hreads, hassigned.reads, patch, if_neg (by omega), patch, if_pos (by omega), Nat.sub_zero]

section

variable (h : Usable e s) (hfit : vs.length * e.size < 2 ^ 64)

include h hfit

theorem clear_growUnchecked :
    ∃ t, s.clear.growUnchecked e true vs.length vs.length (fun m p => m.constructList p 0 vs) State.keep =
        .returned t ∧ content t = vs.map some := by
  have hclear := clear_keeps h.owns h.fresh
  have hserved : s.clear.memory.fails s.clear.memory.next = false :=
    (congrFun (sameBlocks_destroyN _ _ _).fails _).trans (h.served _)
  have hret := State.growUnchecked_of_not_fails e s.clear true vs.length vs.length
    (fun m p => m.constructList p 0 vs) State.keep hserved
  have hreads := growUnchecked_reads hclear.owns hclear.fresh hfit
    (fills_keep hclear.owns (constructsAt_list vs (by omega))) (fillsWith_list le_rfl) hret
  refine ⟨_, hret, content_eq ?_ fun k _ => congrFun hreads k⟩
  have hlt := lt_of_fits le_rfl hfit
  change (0 + vs.length) % 2 ^ 64 = vs.length
  rw [Nat.zero_add, Nat.mod_eq_of_lt hlt]

theorem assignRange_content (hapt : Apt s.this vs.length) :
    ∃ t, s.assignRange e vs = .returned t ∧ content t = vs.map some := by
  rw [State.assignRange]
  split
  · exact clear_growUnchecked h hfit
  · rename_i hroom
    cases hb : s.this.buffer with
    | none =>
      obtain ⟨hsize, hcap⟩ := (owns_none hb).mp h.owns
      obtain rfl : vs = [] := eq_nil_of_length_eq_zero (by omega)
      exact ⟨_, if_pos (Nat.zero_le _), rfl⟩
    | some q =>
      split
      · rename_i hle
        rw [← hb]
        exact ⟨_, rfl, overwrite_content hb h.owns hle⟩
      · have hzero := hapt (by omega) (by omega)
        obtain ⟨_, hhas⟩ := (owns_some hb).mp h.owns
        have hreads := (hhas.append vs (by omega)).reads
        rw [hzero] at hreads
        refine ⟨_, rfl, content_eq rfl ?_⟩
        intro k hk
        simp only [State.setSize, State.withMemory, hb, hzero, if_true, Nat.sub_zero, take_length]
        rw [hreads, patch, if_pos (by omega), Nat.sub_zero]

theorem assignRange_assigned (hapt : Apt s.this vs.length) : Assigned s.memory (vs.map some) (s.assignRange e vs) := by
  obtain ⟨t, ht, hcontent⟩ := assignRange_content h hfit hapt
  have hkeeps := assignRange_keeps h.owns h.fresh hfit hapt
  rw [ht] at hkeeps
  exact ⟨t, ht, hcontent, hkeeps.misuse⟩

end

theorem assignRange_spoilt (hapt : ¬ Apt s.this vs.length) : Spoilt s.memory (s.assignRange e vs) := by
  obtain ⟨hless, hrest⟩ := Classical.not_imp.mp hapt
  obtain ⟨hroom, hpos⟩ := Classical.not_imp.mp hrest
  intro t ht
  rw [State.assignRange, if_neg hroom.not_gt, if_neg hless.not_ge] at ht
  cases ht
  simp only [if_neg hpos]
  exact (Nat.lt_succ_self _).trans_le (misuse_le_constructList (m := s.memory.blame))

theorem copyAssign_iff (h : Usable e s) (hother : Owns e s.memory other) :
    Assigned s.memory (content ⟨s.memory, other⟩) (s.copyAssign e other) ↔ Apt s.this other.size := by
  obtain ⟨hmemory, hlen⟩ := hother.readN
  have hcontent : (s.memory.readN other.buffer 0 other.size).2.map some = content ⟨s.memory, other⟩ :=
    hother.readN_values.2
  have hfit := (Nat.mul_le_mul_right _ hother.1.1).trans_lt hother.1.2
  simp only [State.copyAssign, hmemory]
  rw [← hcontent]
  rw [← hlen] at hfit
  constructor
  · intro hassigned
    by_contra hapt
    rw [← hlen] at hapt
    exact (assignRange_spoilt hapt).not_assigned hassigned
  · intro hapt
    rw [← hlen] at hapt
    exact assignRange_assigned h hfit hapt

theorem misuse_le_release : s.memory.misuse ≤ s.destroyAndDeallocate.misuse :=
  misuse_le_destroyN.trans misuse_le_deallocate

theorem slots_lt (hwraps : 2 ^ 64 ≤ c * e.size) : c * e.size % 2 ^ 64 / e.size < c := by
  rw [Nat.div_lt_iff_lt_mul e.size_pos]
  exact (Nat.mod_lt _ (by decide)).trans_le hwraps

theorem block_allocated (m : Memory α) (count size : Nat) : (m.allocated count size).block m.next =
      some ⟨count, count * size % 2 ^ 64, count * size % 2 ^ 64 / size, fun _ => none⟩ :=
  Function.update_self _ _ _

theorem clear_grow_spoilt (h : Usable e s) (hbad : ¬ (vs.length ≤ maxSize ∧ vs.length * e.size < 2 ^ 64)) :
    Spoilt s.memory (s.clear.grow e true vs.length vs.length (fun m p => m.constructList p 0 vs) State.keep) := by
  intro t ht
  rw [State.grow] at ht
  split at ht
  · rename_i hmax
    have hwraps := not_lt.mp fun hfit => hbad ⟨hmax, hfit⟩
    have hserved : s.clear.memory.fails s.clear.memory.next = false :=
      (congrFun (sameBlocks_destroyN _ _ _).fails _).trans (h.served _)
    rw [State.growUnchecked_of_not_fails e s.clear _ _ _ _ _ hserved] at ht
    cases ht
    have hslots := slots_lt hwraps
    have hbeyond := misuse_constructList_beyond 0 vs (block_allocated s.clear.memory _ _) (Nat.zero_lt_of_lt hslots)
      (by rwa [Nat.zero_add])
    have hsame := (clear_keeps h.owns h.fresh).misuse
    refine Nat.lt_of_lt_of_le ?_ (misuse_le_release (s := s.clear.withMemory _))
    rw [← hsame]
    exact hbeyond
  · cases ht

theorem assignVerified_iff (h : Usable e s) : Assigned s.memory (vs.map some) (assignVerified e s vs) ↔
      Apt s.this vs.length ∧ (s.this.capacity < vs.length → vs.length ≤ maxSize ∧ vs.length * e.size < 2 ^ 64) := by
  by_cases hless : s.this.capacity < vs.length
  · have hapt : Apt s.this vs.length := fun _ hroom => absurd hless hroom.not_gt
    rw [assignVerified, if_pos hless, and_iff_right hapt, forall_prop_of_true hless]
    constructor
    · intro hassigned
      by_contra hbad
      exact (clear_grow_spoilt h hbad).not_assigned hassigned
    · rintro ⟨hmax, hfit⟩
      have hassigned := assignRange_assigned h hfit hapt
      rw [State.assignRange, if_pos hless] at hassigned
      rwa [State.grow, if_pos hmax]
  · rw [assignVerified, if_neg hless, and_iff_left fun hless' => absurd hless' hless]
    constructor
    · intro hassigned
      by_contra hapt
      exact (assignRange_spoilt hapt).not_assigned hassigned
    · have hfit := (Nat.mul_le_mul_right _ (not_lt.mp hless)).trans_lt h.owns.1.2
      exact assignRange_assigned h hfit

structure Holds (e : Element α) (s : State α) (xs : List α) : Prop extends Usable e s where
  reads : s.memory.read s.this.buffer = fun k => xs[k]?
  size : s.this.size = xs.length

theorem Holds.content_eq (h : Holds e s xs) : content s = xs.map some :=
  VectorAssignment.content_eq h.size fun k _ => congrFun h.reads k

theorem emplaceBack_holds (v : α) (h : Holds e s xs)
    (hfit : s.this.size = s.this.capacity → doubled s.this.capacity * e.size < 2 ^ 64) :
    ∃ t, s.emplaceBack e (.external v) = .returned t ∧ Holds e t (xs ++ [v]) ∧ t.memory.misuse = s.memory.misuse := by
  obtain ⟨t, ht, hfails, _⟩ := emplaceBack_returns (.external v) hfit fun _ => h.served _
  obtain ⟨hcontains, hmisuse⟩ := VectorInsertion.emplaceBack_contains ⟨h.owns, h.fresh, h.reads, h.size⟩ rfl hfit ht
  have hserved : ∀ q, t.memory.fails q = false := fun q => (congrFun hfails q).trans (h.served q)
  exact ⟨t, ht, ⟨⟨hcontains.owns, hcontains.fresh, hserved⟩, hcontains.reads, hcontains.size⟩, hmisuse⟩

theorem appendEach_holds (h : Holds e s xs)
    (hfit : ∀ c ∈ growths s.this.size s.this.capacity vs.length, c * e.size < 2 ^ 64) :
    ∃ t, appendEach e s vs = .returned t ∧ Holds e t (xs ++ vs) ∧ t.memory.misuse = s.memory.misuse := by
  induction vs generalizing s xs with
  | nil =>
    rw [append_nil]
    exact ⟨s, rfl, h, rfl⟩
  | cons v vs ih =>
    obtain ⟨hdouble, hlater⟩ := forall_growths_succ.mp hfit
    obtain ⟨t, ht, hholds, hmisuse⟩ := emplaceBack_holds v h hdouble
    obtain ⟨hsize, hcapacity⟩ := emplaceBack_returned ht hdouble
    obtain ⟨u, hu, hholds', hmisuse'⟩ := ih hholds (by rwa [hsize, hcapacity])
    rw [append_assoc] at hholds'
    exact ⟨u, by rw [appendEach, ht]; exact hu, hholds', hmisuse'.trans hmisuse⟩

theorem misuse_le_growUnchecked (hc : ∀ m p, m.misuse ≤ (construct m p).misuse)
    (ht : ∀ m p, m.misuse ≤ (transfer m p).misuse) :
    s.memory.misuse ≤ (s.growUnchecked e adjust newCapacity adjustment construct transfer).state.memory.misuse := by
  cases hfail : s.memory.fails s.memory.next with
  | true =>
    rw [State.growUnchecked_of_fails e s hfail]
    exact le_rfl
  | false =>
    rw [State.growUnchecked_of_not_fails e s _ _ _ _ _ hfail]
    exact Nat.le_trans ((hc (s.memory.allocated newCapacity e.size) _).trans (ht _ _))
      (misuse_le_release (s := s.withMemory _))

theorem misuse_le_emplaceBack : s.memory.misuse ≤ (s.emplaceBack e (.external v)).state.memory.misuse := by
  rw [State.emplaceBack]
  split
  · rw [State.grow]
    split
    · exact misuse_le_growUnchecked (fun _ _ => misuse_le_access) fun _ _ => misuse_le_transferN
    · exact le_rfl
  · exact misuse_le_access

theorem misuse_le_appendEach (vs : List α) : s.memory.misuse ≤ (appendEach e s vs).state.memory.misuse := by
  induction vs generalizing s with
  | nil => exact le_rfl
  | cons v vs ih =>
    exact Outcome.le_state_andThen (fun s : State α => s.memory.misuse) misuse_le_emplaceBack fun _ => ih

theorem slots_calcGrowth_le (hold : capacity * e.size < 2 ^ 64) (hwraps : 2 ^ 64 ≤ doubled capacity * e.size)
    (hmax : calcGrowth capacity ≤ maxSize) : calcGrowth capacity * e.size % 2 ^ 64 / e.size ≤ capacity := by
  have hnotMax : capacity ≠ maxSize := by
    rintro rfl
    rw [calcGrowth, if_pos rfl] at hmax
    omega
  rw [calcGrowth, if_neg hnotMax]
  by_cases hzero : capacity = 0
  · subst hzero
    have hone : min maxSize (calcGrowthUnchecked 0) = 1 := rfl
    rw [hone]
    exact Nat.le_of_lt_succ (slots_lt hwraps)
  rw [calcGrowthUnchecked, if_neg hzero]
  by_cases hdouble : capacity * 2 < 2 ^ 64
  · have hsame : min maxSize (capacity * 2 % 2 ^ 64) = capacity * 2 := by
      unfold maxSize
      omega
    have hbytes : capacity * 2 * e.size = 2 * (capacity * e.size) := by
      rw [Nat.mul_comm capacity 2, Nat.mul_assoc]
    have hwraps' : 2 ^ 64 ≤ 2 * (capacity * e.size) := by
      rwa [doubled, Nat.max_eq_right (by omega), hbytes] at hwraps
    rw [hsame, hbytes]
    apply Nat.div_le_of_le_mul
    rw [Nat.mul_comm e.size]
    omega
  · have hless : min maxSize (capacity * 2 % 2 ^ 64) ≤ capacity := by omega
    exact (Nat.div_le_of_le_mul ((Nat.mod_le _ _).trans (Nat.mul_comm _ _).le)).trans hless

theorem emplaceBack_spoilt (h : Owns e s.memory s.this) (hfull : s.this.size = s.this.capacity)
    (hwraps : 2 ^ 64 ≤ doubled s.this.capacity * e.size) :
    Spoilt s.memory (s.emplaceBack e (.external v)) := by
  intro t ht
  rw [State.emplaceBack, if_pos hfull, State.grow] at ht
  split at ht
  · rename_i hmax
    obtain rfl := State.eq_of_growUnchecked e s ht
    have hslots : calcGrowth s.this.capacity * e.size % 2 ^ 64 / e.size ≤ s.this.size := by
      rw [hfull]
      exact slots_calcGrowth_le h.1.2 hwraps hmax
    have hbeyond := misuse_construct_beyond (v := v) (block_allocated s.memory _ _) hslots
    exact (hbeyond.trans_le misuse_le_transferN).trans_le (misuse_le_release (s := s.withMemory _))
  · cases ht

theorem appendEach_spoilt (h : Owns e s.memory s.this) (hf : Fresh s.memory)
    (hbad : ¬ ∀ c ∈ growths s.this.size s.this.capacity vs.length, c * e.size < 2 ^ 64) :
    Spoilt s.memory (appendEach e s vs) := by
  induction vs generalizing s with
  | nil => exact absurd nofun hbad
  | cons v vs ih =>
    intro u hu
    obtain ⟨t, hr, hu⟩ := Outcome.returned_of_andThen hu
    by_cases hdouble : s.this.size = s.this.capacity → doubled s.this.capacity * e.size < 2 ^ 64
    · have hkeeps : Keeps e s (s.emplaceBack e (.external v)) := emplaceBack_keeps h hf trivial hdouble
      obtain ⟨hsize, hcapacity⟩ := emplaceBack_returned hr hdouble
      rw [hr] at hkeeps
      have hbad' : ¬ ∀ c ∈ growths t.this.size t.this.capacity vs.length, c * e.size < 2 ^ 64 := by
        rw [hsize, hcapacity]
        exact fun hlater => hbad (forall_growths_succ.mpr ⟨hdouble, hlater⟩)
      exact (ih hkeeps.owns hkeeps.fresh hbad').of_eq hkeeps.misuse u hu
    · obtain ⟨hfull, hwraps⟩ := Classical.not_imp.mp hdouble
      have hlater := misuse_le_appendEach (e := e) (s := t) vs
      rw [hu] at hlater
      exact (emplaceBack_spoilt h hfull (not_lt.mp hwraps) t hr).trans_le hlater

theorem overwritten_holds (h : Usable e s) (hle : s.this.size ≤ vs.length) :
    Holds e (s.withMemory (s.memory.assignList s.this.buffer 0 (vs.take s.this.size))) (vs.take s.this.size) ∧
      (s.memory.assignList s.this.buffer 0 (vs.take s.this.size)).misuse = s.memory.misuse := by
  have hlen := length_take_of_le hle
  cases hb : s.this.buffer with
  | none =>
    obtain ⟨hsize, _⟩ := (owns_none hb).mp h.owns
    rw [hsize, take_zero]
    refine ⟨⟨h, ?_, hsize⟩, rfl⟩
    funext k
    simp [State.withMemory, hb, Memory.read]
  | some q =>
    obtain ⟨hsize, hhas⟩ := (owns_some hb).mp h.owns
    have hassigned := hhas.overwrite 0 (vs.take s.this.size) (by omega) hsize.1
    have hevolves := Evolves.inPlace hb h.owns h.fresh hassigned hsize.1
    refine ⟨⟨⟨hevolves.owns, hevolves.fresh, fun q => (congrFun hassigned.only.fails q).trans (h.served q)⟩, ?_,
      hlen.symm⟩, hevolves.misuse⟩
    simp only [State.withMemory, hb]
    rw [hassigned.reads]
    funext k
    rw [patch]
    split
    · rfl
    · rw [read_none hhas (by omega), getElem?_eq_none (by omega)]

theorem assignEach_iff (h : Usable e s) : Assigned s.memory (vs.map some) (assignEach e s vs) ↔
      ∀ c ∈ growths s.this.size s.this.capacity (vs.length - s.this.size), c * e.size < 2 ^ 64 := by
  rw [assignEach]
  by_cases hle : s.this.size ≤ vs.length
  · obtain ⟨hholds, hmisuse⟩ := overwritten_holds h hle
    rw [if_pos hle, ← length_drop]
    constructor
    · intro hassigned
      by_contra hbad
      have hspoilt := appendEach_spoilt hholds.owns hholds.fresh hbad
      exact (hspoilt.of_eq hmisuse).not_assigned hassigned
    · intro hfit
      obtain ⟨t, ht, hfinal, hsame⟩ := appendEach_holds hholds hfit
      rw [take_append_drop] at hfinal
      exact ⟨t, ht, hfinal.content_eq, hsame.trans hmisuse⟩
  · have hnone : vs.length - s.this.size = 0 := by omega
    have htake : vs.take s.this.size = vs := take_of_length_le (by omega)
    rw [if_neg hle, hnone, htake]
    refine iff_of_true ?_ nofun
    -- a shorter range replaces the old elements as a measured one does
    have hshort := Nat.le_of_not_le hle
    have hroom := hshort.trans h.owns.1.1
    have hfit := (Nat.mul_le_mul_right _ hroom).trans_lt h.owns.1.2
    have hassigned := assignRange_assigned h hfit fun hless => absurd hshort hless.not_ge
    rwa [State.assignRange, if_neg hroom.not_gt, if_pos hshort] at hassigned

section

theorem assignOwn_assigned (h : Usable e s) (hfirst : first ≤ last) (hlast : last ≤ s.this.size) :
    Assigned s.memory ((List.range (last - first)).map fun k => s.memory.read s.this.buffer (first + k))
      (assignOwn s first last) := by
  rw [assignOwn]
  cases hb : s.this.buffer with
  | none =>
    obtain ⟨hsize, _⟩ := (owns_none hb).mp h.owns
    have hnone : last - first = 0 := by omega
    rw [hnone, hsize]
    exact ⟨_, rfl, rfl, rfl⟩
  | some q =>
    obtain ⟨hsize, hhas⟩ := (owns_some hb).mp h.owns
    have hassigned := hhas.assignN (i := first) (j := 0) (n := last - first) (by omega) (by omega)
      (fun _ hk => hk.lt (by omega)) fun _ hk => hk.lt (by omega)
    have hcut := hassigned.has.truncate (show last - first ≤ s.this.size by omega) hsize.1
    refine ⟨_, rfl, map_congr_left ?_, (hassigned.trans hcut).only.misuse⟩
    intro k hk
    have hlt : k < last - first := mem_range.mp hk
    simp only [State.setSize, State.withMemory, hb]
    rw [hcut.reads, hassigned.reads, patch, if_neg (by omega), patch, if_pos (by omega), Nat.sub_zero]

end

/-- After the call the vector holds exactly the source, for the regular calls and for
no others. -/
theorem assigned_iff_regular {c : Call α} (h : Usable e s) (hvalid : Valid e s c) :
    Assigned s.memory (source s c) (call e s c) ↔ Regular e s c := by
  cases c with
  | self => exact iff_of_true ⟨s, rfl, rfl, rfl⟩ trivial
  | copy other => exact copyAssign_iff h hvalid.1
  | assignForward vs => exact assignVerified_iff h
  | assignStronger vs => exact assignEach_iff h
  | assignOwn first last => exact iff_of_true (assignOwn_assigned h hvalid.1 hvalid.2) trivial

theorem holds_noWords (e : Element Nat) : Holds e noWords [] := by
  refine ⟨⟨(owns_none rfl).mpr ⟨rfl, rfl⟩, fun _ _ => rfl, fun _ => rfl⟩, ?_, rfl⟩
  funext k
  rfl

/-- Three elements in a buffer for four. -/
def threeWords : State Nat := (appendEach words noWords [1, 2, 3]).state

theorem holds_threeWords : Holds words threeWords [1, 2, 3] := by
  obtain ⟨t, ht, h, _⟩ : ∃ t, appendEach words noWords [1, 2, 3] = .returned t ∧ Holds words t ([] ++ [1, 2, 3]) ∧ _ :=
    appendEach_holds (holds_noWords words) (by decide)
  have hsame : threeWords = t := by
    rw [threeWords, ht, Outcome.state_returned]
  rw [hsame]
  exact h

theorem assigned_iff_regular_words : Usable words threeWords ∧
    Assigned threeWords.memory [some 7, some 8] (call words threeWords (.assignForward [7, 8])) ∧
    Assigned threeWords.memory [some 5, some 6, some 7, some 8, some 9]
      (call words threeWords (.assignStronger [5, 6, 7, 8, 9])) := by
  have husable := holds_threeWords.toUsable
  have hover : Regular words threeWords (.assignForward [7, 8]) :=
    ⟨fun hless => absurd hless (by decide), fun hgrows => absurd hgrows (by decide)⟩
  have hvalid : Valid words threeWords (.assignForward [7, 8]) := show 2 < 2 ^ 64 by decide
  have hgrown : Regular words threeWords (.assignStronger [5, 6, 7, 8, 9]) := by
    rw [Regular]
    decide
  exact ⟨husable, (assigned_iff_regular husable hvalid).mpr hover,
    (assigned_iff_regular (c := .assignStronger [5, 6, 7, 8, 9]) husable trivial).mpr hgrown⟩

/-- A vector with one element and room for four, beside the two elements of another. -/
def oneOfFour : State Nat :=
  ⟨((((Memory.empty fun _ => false).allocated 4 8).construct (some 0) 0 1).allocated 2 8).constructList (some 1) 0
    [2, 3], ⟨some 0, 1, 4⟩⟩

def pair : Impl := ⟨some 1, 2, 2⟩

theorem copy_assignment_runs_away : source oneOfFour (.copy pair) = [some 2, some 3] ∧
      ∃ t, call words oneOfFour (.copy pair) = .returned t ∧ content t = [some 1, some 2] ∧
        oneOfFour.memory.misuse < t.memory.misuse :=
  ⟨by decide +kernel, _, rfl, by decide +kernel, by decide +kernel⟩

end Ktl.VectorAssignment
