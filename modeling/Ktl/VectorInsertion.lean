import Ktl.VectorAssignment

/-!
The elements of a vector after an insertion and the iterators that the insertions return. An
inserted value may be an element of the vector itself.
-/
namespace Ktl.VectorInsertion

open ObjectMemory ObjectValues Ktl.Vector VectorCapacity VectorOwnership VectorAssignment List

variable {α : Type}

variable {e : Element α} {s : State α}  {xs : List α}
  {count : Nat}

theorem Contains.content_eq (h : Contains e s xs) : content s = xs.map some :=
  VectorAssignment.content_eq h.size fun k _ => congrFun h.reads k
theorem Contains.of_holds (h : Holds e s xs) : Contains e s xs := ⟨h.owns, h.fresh, h.reads, h.size⟩

section

variable (h : Contains e s xs) (hoff : offset ≤ xs.length)

include h hoff

theorem emplace_contains (hx : src.value s.memory s.this.buffer = some x)
    (hfit : s.this.size = s.this.capacity → doubled s.this.capacity * e.size < 2 ^ 64)
    (ht : s.emplace e offset src = .returned t) :
    Contains e t (inserted xs offset [x]) ∧ t.memory.misuse = s.memory.misuse := by
  have hsize := h.size
  have hle := h.owns.1.1
  rw [State.emplace] at ht
  split at ht
  · rename_i hend
    rw [hend, hsize, inserted_end]
    exact emplaceBack_contains h hx hfit ht
  split at ht
  · rename_i hfull
    have hroom := lt_doubled hle
    rw [hsize] at hroom
    rw [calcGrowth_eq (hfit hfull)] at ht
    exact grow_contains h (constructsList_one h.owns hx offset) hoff hroom (hfit hfull) ht
  · rename_i hend hroom
    obtain ⟨q, hb, _⟩ := h.owns.buffer (by omega)
    have hinserted : Contains e _ (inserted xs offset [x]) ∧ _ :=
      insertWithoutGrow_contains h hb hoff (by rw [length_singleton]; omega)
    rw [hb] at hx
    cases ht
    simp only [Source.use, hx, hb, emplace_inside s.memory x hb (show offset < s.this.size by omega)]
    exact hinserted

theorem insertForward_contains (hsum : s.this.size + vs.length < 2 ^ 64)
    (hfit : s.this.capacity < s.this.size + vs.length →
      calcOptimalGrowth s.this.capacity (s.this.size + vs.length) * e.size < 2 ^ 64)
    (ht : s.insertForward e offset vs = .returned t) :
    Contains e t (inserted xs offset vs) ∧ t.memory.misuse = s.memory.misuse := by
  have hsize := h.size
  have hle := h.owns.1.1
  simp only [State.insertForward, Nat.mod_eq_of_lt hsum] at ht
  split at ht
  · rename_i hgrow
    have hroom : xs.length + vs.length ≤ calcOptimalGrowth s.this.capacity (s.this.size + vs.length) := by
      rw [← hsize]
      exact Nat.le_max_right _ _
    exact grow_contains h (fun _ _ _ _ => rfl) hoff hroom (hfit hgrow) ht
  rename_i hroom
  cases hb : s.this.buffer with
  | none =>
    obtain ⟨hzero, hcap⟩ := (owns_none hb).mp h.owns
    obtain rfl : vs = [] := eq_nil_of_length_eq_zero (by omega)
    rw [if_pos (by omega)] at ht
    cases ht
    rw [inserted, append_nil, take_append_drop]
    exact ⟨h, rfl⟩
  | some q =>
    split_ifs at ht with hend
    · have happended := append_contains h hb (not_lt.mp hroom)
      rw [hend, hsize, inserted_end]
      rw [hb] at ht
      cases ht
      exact happended
    · cases ht
      exact insertWithoutGrow_contains h hb hoff (not_lt.mp hroom)

theorem insertN_contains (hx : src.value s.memory s.this.buffer = some x) (hsum : s.this.size + count < 2 ^ 64)
    (hfit : s.this.capacity < s.this.size + count →
      calcOptimalGrowth s.this.capacity (s.this.size + count) * e.size < 2 ^ 64)
    (hinside : s.this.size + count ≤ s.this.capacity → offset < xs.length ∧ e.zeroedByMemset x = false)
    (ht : s.insertN e offset count src = .returned t) :
    Contains e t (inserted xs offset (List.replicate count x)) ∧ t.memory.misuse = s.memory.misuse := by
  have hsize := h.size
  have hle := h.owns.1.1
  have hlen : (replicate count x).length = count := length_replicate
  simp only [State.insertN, Nat.mod_eq_of_lt hsum] at ht
  split at ht
  · rename_i hgrow
    have hroom : xs.length + count ≤ calcOptimalGrowth s.this.capacity (s.this.size + count) := by
      rw [← hsize]
      exact Nat.le_max_right _ _
    rw [← hlen] at hroom
    apply grow_contains h (constructsList_fill h.owns hx offset count) hoff hroom
    · rw [hlen]
      exact hfit hgrow
    · rw [hlen]
      exact ht
  · rename_i hroom
    obtain ⟨hbefore, hone⟩ := hinside (not_lt.mp hroom)
    obtain ⟨q, hb, _⟩ := h.owns.buffer (by omega)
    have hinserted : Contains e _ (inserted xs offset (replicate count x)) ∧ _ :=
      insertWithoutGrow_contains h hb hoff (by omega)
    rw [hlen] at hinserted
    rw [if_neg (by omega)] at ht
    cases ht
    simp only [Source.use, hx, insertNWithoutGrow_eq hone]
    exact hinserted

end

/-- The iterator that `insert` of several elements returns: `begin() + current_size`. -/
def insertReturns (s : State α) : Nat := s.this.size

/-- The elements are inserted, and the iterator to the first of them is returned. -/
def Inserts (s : State α) (xs : List α) (offset : Nat) (vs : List α) (r : Result α) (position : Nat) : Prop :=
  position = offset ∧ Assigned s.memory ((inserted xs offset vs).map some) r

/-- The numbers of elements and of bytes of a new buffer are a `size_type`. -/
def Fits (e : Element α) (v : Impl) (n : Nat) : Prop :=
  v.size + n < 2 ^ 64 ∧ (v.capacity < v.size + n → calcOptimalGrowth v.capacity (v.size + n) ≤ maxSize ∧
      calcOptimalGrowth v.capacity (v.size + n) * e.size < 2 ^ 64)

theorem Contains.assigned (h : Contains e t vs ∧ t.memory.misuse = m.misuse) (ht : r = .returned t) :
    Assigned m (vs.map some) r :=
  ⟨t, ht, h.1.content_eq, h.2⟩

theorem length_content (s : State α) : (content s).length = s.this.size := by
  rw [content, length_map, length_range]

theorem slots_calcOptimalGrowth_lt (hold : capacity * e.size < 2 ^ 64) (hless : capacity < required)
    (hmax : calcOptimalGrowth capacity required ≤ maxSize)
    (hwraps : 2 ^ 64 ≤ calcOptimalGrowth capacity required * e.size) :
    calcOptimalGrowth capacity required * e.size % 2 ^ 64 / e.size < required := by
  unfold calcOptimalGrowth at hmax hwraps ⊢
  rcases Nat.le_total (calcGrowth capacity) required with hle | hle
  · rw [Nat.max_eq_right hle] at hwraps ⊢
    exact slots_lt hwraps
  · rw [Nat.max_eq_left hle] at hmax hwraps ⊢
    have hdoubled : calcGrowth capacity ≤ doubled capacity := by
      unfold doubled
      unfold calcGrowth at hmax ⊢
      split_ifs at hmax with hnotMax
      · omega
      · rw [if_neg hnotMax, calcGrowthUnchecked]
        split <;> omega
    have hbytes := Nat.mul_le_mul_right e.size hdoubled
    exact (slots_calcGrowth_le hold (hwraps.trans hbytes) hmax).trans_lt hless

theorem size_of_assigned {ys : List α} (h : Assigned m (ys.map some) (.returned t)) : t.this.size = ys.length := by
  obtain ⟨_, ht, hcontent, _⟩ := h
  cases ht
  have hlens := congrArg length hcontent
  rwa [length_content, length_map] at hlens

/-- The value as a number of elements, and the number of elements as a value. -/
def Interchangeable (e : Element α) (count : Nat) (x : α) : Prop :=
  e.toCount x = count ∧ (count = 0 ∨ e.ofCount count = x)

section

variable (h : Holds e s xs)

include h

theorem grow_spoilt (hc : ConstructsList s construct s.this.size vs) (hgrow : s.this.capacity < s.this.size + vs.length)
    (hbad : ¬ (calcOptimalGrowth s.this.capacity (s.this.size + vs.length) ≤ maxSize ∧
      calcOptimalGrowth s.this.capacity (s.this.size + vs.length) * e.size < 2 ^ 64)) :
    Spoilt s.memory (s.grow e true (calcOptimalGrowth s.this.capacity (s.this.size + vs.length)) vs.length construct
      (s.transferWithShiftRight e s.this.size (s.this.size + vs.length))) := by
  intro t ht
  have hle := h.owns.1.1
  have hnone := h.fresh _ le_rfl
  rw [State.grow] at ht
  split at ht
  · rename_i hmax
    have hwraps := not_lt.mp fun hfit => hbad ⟨hmax, hfit⟩
    rw [State.growUnchecked_of_not_fails e s _ _ _ _ _ (h.served _),
      hc _ _ (fun q hq => block_allocated_ne s.memory _ e.size hq) hnone] at ht
    cases ht
    have hbeyond := misuse_constructList_beyond s.this.size vs (block_allocated s.memory _ e.size) (by omega)
      (slots_calcOptimalGrowth_lt h.owns.1.2 hgrow hmax hwraps)
    exact Nat.lt_of_lt_of_le (hbeyond.trans_le (misuse_le_transferN.trans misuse_le_transferN))
      (misuse_le_release (s := s.withMemory _))
  · cases ht

theorem insertForward_iff (hlen : vs.length < 2 ^ 64) :
    Assigned s.memory ((xs ++ vs).map some) (s.insertForward e xs.length vs) ↔ Fits e s.this vs.length := by
  have hsize := h.size
  have hle := h.owns.1.1
  have hsize' := lt_of_fits hle h.owns.1.2
  constructor
  · intro hassigned
    by_cases hsum : s.this.size + vs.length < 2 ^ 64
    · refine ⟨hsum, fun hgrow => ?_⟩
      by_contra hbad
      have hc : ConstructsList s (fun m p => m.constructList p s.this.size vs) s.this.size vs := fun _ _ _ _ => rfl
      have hspoilt := grow_spoilt h hc hgrow hbad
      rw [State.insertForward, Nat.mod_eq_of_lt hsum, ← hsize] at hassigned
      simp only [if_pos hgrow] at hassigned
      exact hspoilt.not_assigned hassigned
    · -- the number of elements wraps
      have hnot : ¬ s.this.capacity < (s.this.size + vs.length) % 2 ^ 64 := by omega
      simp only [State.insertForward, if_neg hnot, if_pos hsize.symm] at hassigned
      have hlens := size_of_assigned hassigned
      rw [length_append, ← hsize] at hlens
      simp only [State.setSize] at hlens
      omega
  · rintro ⟨hsum, hgrows⟩
    have hreturns : ∃ t, s.insertForward e xs.length vs = .returned t := by
      simp only [State.insertForward, Nat.mod_eq_of_lt hsum, ← hsize, if_true]
      split_ifs with hgrow
      · exact grow_returns (hgrows hgrow).1 (h.served _)
      · exact ⟨_, rfl⟩
    obtain ⟨t, ht⟩ := hreturns
    have hcontains := insertForward_contains (Contains.of_holds h) le_rfl hsum (fun hgrow => (hgrows hgrow).2) ht
    rw [inserted_end] at hcontains
    exact Contains.assigned hcontains ht

theorem appendNSwapped_content (hroom : s.this.size + count ≤ s.this.capacity) (hcount : e.toCount x = count) :
    content (s.appendNSwapped e count x) = (xs ++ List.replicate count (e.ofCount count)).map some ∧
      (s.appendNSwapped e count x).memory.misuse = s.memory.misuse := by
  have hsum := lt_of_fits hroom h.owns.1.2
  cases hb : s.this.buffer with
  | none =>
    obtain ⟨_, hcap⟩ := (owns_none hb).mp h.owns
    have hzero : count = 0 := by omega
    have hsame : s.appendNSwapped e count x = s := by
      simp only [State.appendNSwapped, hcount, hzero, replicate_zero, Memory.constructList, State.withMemory,
        State.setSize, Nat.add_zero]
      rw [Nat.mod_eq_of_lt (by omega)]
    rw [hsame, hzero, replicate_zero, append_nil]
    exact ⟨h.content_eq, rfl⟩
  | some q =>
    have hcontains : Contains e _ (xs ++ replicate count (e.ofCount count)) ∧ _ :=
      append_contains (Contains.of_holds h) hb (by rw [length_replicate]; exact hroom)
    rw [length_replicate] at hcontains
    simp only [State.appendNSwapped, hcount, hb]
    rw [Nat.mod_eq_of_lt hsum]
    exact ⟨hcontains.1.content_eq, hcontains.2⟩

theorem appendNSwapped_iff (hroom : s.this.size + count ≤ s.this.capacity) (hx : e.toCount x < 2 ^ 64) :
    Assigned s.memory ((xs ++ List.replicate count x).map some) (.returned (s.appendNSwapped e count x)) ↔
      Interchangeable e count x := by
  have hsize := h.size
  have hsum := lt_of_fits hroom h.owns.1.2
  constructor
  · intro hassigned
    have hlens := size_of_assigned hassigned
    rw [length_append, length_replicate, ← hsize] at hlens
    simp only [State.appendNSwapped, State.setSize] at hlens
    have hcount : e.toCount x = count := by omega
    obtain ⟨_, ht, hcontent, _⟩ := hassigned
    cases ht
    rw [(appendNSwapped_content h hroom hcount).1, map_inj_right fun _ _ => Option.some.inj,
      append_cancel_left_eq, replicate_inj] at hcontent
    exact ⟨hcount, hcontent.2⟩
  · rintro ⟨hcount, hvalue⟩
    obtain ⟨hcontent, hmisuse⟩ := appendNSwapped_content h hroom hcount
    have hsame := replicate_inj.mpr ⟨rfl, hvalue⟩
    rw [hsame] at hcontent
    exact ⟨_, rfl, hcontent, hmisuse⟩

theorem insertN_iff_of_grow (hx : src.value s.memory s.this.buffer = some x)
    (hsum : s.this.size + count < 2 ^ 64) (hgrow : s.this.capacity < s.this.size + count) :
    Assigned s.memory ((xs ++ List.replicate count x).map some) (s.insertN e xs.length count src) ↔
      Fits e s.this count := by
  have hlen : (replicate count x).length = count := length_replicate
  have hgrown : s.insertN e xs.length count src =
      s.grow e true (calcOptimalGrowth s.this.capacity (s.this.size + count)) count
        (s.constructFill s.this.size count src)
        (s.transferWithShiftRight e s.this.size (s.this.size + count)) := by
    simp only [State.insertN, Nat.mod_eq_of_lt hsum, if_pos hgrow, ← h.size]
  constructor
  · intro hassigned
    refine ⟨hsum, fun _ => ?_⟩
    by_contra hbad
    rw [← hlen] at hbad hgrow
    have hspoilt := grow_spoilt h (constructsList_fill h.owns hx s.this.size count) hgrow hbad
    rw [hlen] at hspoilt
    rw [hgrown] at hassigned
    exact hspoilt.not_assigned hassigned
  · rintro ⟨_, hgrows⟩
    obtain ⟨t, ht⟩ : ∃ t, s.insertN e xs.length count src = .returned t := by
      rw [hgrown]
      exact grow_returns (hgrows hgrow).1 (h.served _)
    have hcontains := insertN_contains (Contains.of_holds h) le_rfl hx hsum (fun hgrow => (hgrows hgrow).2)
      (fun hroom => absurd hgrow hroom.not_gt) ht
    rw [inserted_end] at hcontains
    exact Contains.assigned hcontains ht

theorem insertN_iff (hx : src.value s.memory s.this.buffer = some x) (hcount : count < 2 ^ 64)
    (htoCount : e.toCount x < 2 ^ 64) :
    Assigned s.memory ((xs ++ List.replicate count x).map some) (s.insertN e xs.length count src) ↔
      Fits e s.this count ∧ (s.this.size + count ≤ s.this.capacity → Interchangeable e count x) := by
  have hsize := h.size
  have hle := h.owns.1.1
  have hsize' := lt_of_fits hle h.owns.1.2
  by_cases hsum : s.this.size + count < 2 ^ 64
  · by_cases hgrow : s.this.capacity < s.this.size + count
    · rw [and_iff_left fun hroom => absurd hgrow hroom.not_gt]
      exact insertN_iff_of_grow h hx hsum hgrow
    · have hswapped : s.insertN e xs.length count src = .returned (s.appendNSwapped e count x) := by
        simp only [State.insertN, Nat.mod_eq_of_lt hsum, if_neg hgrow, ← hsize, if_true, hx]
      have hfits : Fits e s.this count := ⟨hsum, fun hgrow' => absurd hgrow' hgrow⟩
      rw [hswapped, appendNSwapped_iff h (not_lt.mp hgrow) htoCount, and_iff_right hfits,
        forall_prop_of_true (not_lt.mp hgrow)]
  · -- the number of elements wraps
    apply iff_of_false _ fun hfits => hsum hfits.1.1
    intro hassigned
    have hnot : ¬ s.this.capacity < (s.this.size + count) % 2 ^ 64 := by omega
    simp only [State.insertN, if_neg hnot, if_pos hsize.symm, hx] at hassigned
    have hlens := size_of_assigned hassigned
    rw [length_append, length_replicate, ← hsize] at hlens
    simp only [State.appendNSwapped, State.setSize] at hlens
    omega

end

/-- The insertions of several elements return the iterator of the old end, so they are right at the
end only; there, with room in the buffer, the number of copies and the value are exchanged. -/
theorem insertN_iff_and_insertForward_iff (h : Holds e s xs) (offset count : Nat) (src : Source α) (vs : List α)
    (hx : src.value s.memory s.this.buffer = some x) (hcount : count < 2 ^ 64) (htoCount : e.toCount x < 2 ^ 64)
    (hlen : vs.length < 2 ^ 64) :
    (Inserts s xs offset (List.replicate count x) (s.insertN e offset count src) (insertReturns s) ↔
      offset = xs.length ∧ Fits e s.this count ∧ (s.this.size + count ≤ s.this.capacity → Interchangeable e count x)) ∧
    (Inserts s xs offset vs (s.insertForward e offset vs) (insertReturns s) ↔
      offset = xs.length ∧ Fits e s.this vs.length) := by
  have hposition : insertReturns s = offset ↔ offset = xs.length := by
    rw [insertReturns, h.size, eq_comm]
  rw [Inserts, Inserts, hposition]
  constructor
  · apply and_congr_right
    rintro rfl
    rw [inserted_end]
    exact insertN_iff h hx hcount htoCount
  · apply and_congr_right
    rintro rfl
    rw [inserted_end]
    exact insertForward_iff h hlen

theorem insertN_iff_and_insertForward_iff_three :
    Inserts threeWords [1, 2, 3] 3 [5, 5] (threeWords.insertN words 3 2 (.external 5)) 3 ∧
    Inserts threeWords [1, 2, 3] 3 [6, 7] (threeWords.insertForward words 3 [6, 7]) 3 := by
  have h := insertN_iff_and_insertForward_iff holds_threeWords 3 2 (.external 5) [6, 7] rfl (by decide) (by decide)
    (by decide)
  have hfits : Fits words threeWords.this 2 := by
    unfold Fits
    decide
  exact ⟨h.1.mpr ⟨rfl, hfits, fun hroom => absurd hroom (by decide)⟩, h.2.mpr ⟨rfl, hfits⟩⟩

def roomy (vs : List Nat) : State Nat := (appendEach words (noWords.reserve words 8).state vs).state

/-- Two elements in front of one: the iterator behind them is returned. Two copies of a
three at the end: three copies of a two are appended. Two zeroes in front of a large
number: it is not overwritten. -/
theorem insertN_returns_the_old_end :
    content ((roomy [7]).insertN words 0 2 (.external 9)).state = [some 9, some 9, some 7] ∧
    insertReturns (roomy [7]) = 1 ∧
    content ((roomy [7]).insertN words 1 2 (.external 3)).state = [some 7, some 2, some 2, some 2] ∧
    content ((roomy [2 ^ 32, 1]).insertN words 0 2 (.external 0)).state =
      [some (2 ^ 32), some 1, some (2 ^ 32), some 1] := by
  decide

end Ktl.VectorInsertion
