import Mathlib.Data.List.Rotate
import Ktl.VectorInsertion

/-!
`insert` of a range of input iterators: the elements are appended one by one and
rotated to the place that the iterator named before.
-/
namespace Ktl.VectorInputRange

open ObjectMemory Ktl.Vector VectorCapacity VectorOwnership VectorAssignment VectorInsertion

variable {α : Type} {e : Element α} {s : State α} {zs : List α}

theorem read_rotate (h : Has m q c fun k => k < n) (hn : n ≤ c) (hlen : (xs ++ ys ++ zs).length = n)
    (hreads : m.read (some q) = fun k => (xs ++ ys ++ zs)[k]?) :
    (rotate m (some q) xs.length (xs.length + ys.length) n).read (some q) = fun k => (xs ++ zs ++ ys)[k]? := by
  have hsum : xs.length + ys.length + zs.length = n := by
    rw [← hlen, List.length_append, List.length_append]
  rw [rotate]
  split_ifs with hnothing
  · rw [hreads]
    funext k
    rcases hnothing with hnone | hnone
    · obtain rfl : ys = [] := List.eq_nil_of_length_eq_zero (by omega)
      rw [List.append_nil, List.append_nil]
    · obtain rfl : zs = [] := List.eq_nil_of_length_eq_zero (by omega)
      rw [List.append_nil, List.append_nil]
  · have hys : xs.length + ys.length - xs.length = ys.length := by omega
    have hzs : n - (xs.length + ys.length) = zs.length := by omega
    have hall : n - xs.length = (ys.reverse ++ zs.reverse).length := by
      rw [List.length_append, List.length_reverse, List.length_reverse]
      omega
    have hfront : xs.length + ys.length = (xs ++ ys.reverse).length := by
      rw [List.length_append, List.length_reverse]
    rw [hys, hzs, hall]
    obtain ⟨h₁, _, _⟩ := h.reverse (i := xs.length) (n := ys.length) (by omega) fun _ hk => hk.lt (by omega)
    have hread₁ := h.reverse_part hn hlen hreads
    obtain ⟨h₂, _, _⟩ := h₁.reverse (i := xs.length + ys.length) (n := zs.length)
      (by omega) fun _ hk => hk.lt (by omega)
    have hlen₁ : (xs ++ ys.reverse ++ zs ++ []).length = n := by
      rw [List.append_nil, List.length_append, ← hfront]
      exact hsum
    have hread₁' : (m.reverse (some q) xs.length ys.length).read (some q) =
      fun k => (xs ++ ys.reverse ++ zs ++ [])[k]? := by
      rw [hread₁, List.append_nil]
    have hread₂ := h₁.reverse_part hn hlen₁ hread₁'
    rw [← hfront, List.append_assoc xs] at hread₂
    have hlen₂ : (xs ++ (ys.reverse ++ zs.reverse) ++ []).length = n := by
      rw [List.append_nil, List.length_append, ← hall]
      omega
    rw [h₂.reverse_part hn hlen₂ hread₂, List.reverse_append, List.reverse_reverse, List.reverse_reverse,
      List.append_nil, List.append_assoc]

theorem emplaceBack_buffer (ht : s.emplaceBack e (.external v) = .returned t) : s.memory.next ≤ t.memory.next ∧
      if s.this.size = s.this.capacity then t.this.buffer = some s.memory.next
      else t.this = { s.this with size := s.this.size + 1 } := by
  rw [State.emplaceBack] at ht
  split_ifs at ht with hfull
  · rw [State.grow] at ht
    split at ht
    · obtain ⟨hnext, _⟩ := growUnchecked_next handler_at handler_transfer ht
      rw [if_pos hfull]
      obtain rfl := State.eq_of_growUnchecked e s ht
      exact ⟨by omega, rfl⟩
    · cases ht
  · have hsame : SameBlocks s.memory (s.constructAt s.this.size (.external v) s.memory s.this.buffer) := handler_at _ _
    rw [if_neg hfull]
    cases ht
    exact ⟨hsame.next.symm.le, rfl⟩

theorem appendEach_newer (vs : List α) (hnext : n ≤ s.memory.next)
    (hbuf : ∃ q, s.this.buffer = some q ∧ n ≤ q) (ht : appendEach e s vs = .returned t) :
    ∃ q, t.this.buffer = some q ∧ n ≤ q := by
  induction vs generalizing s with
  | nil =>
    cases ht
    exact hbuf
  | cons v vs ih =>
    obtain ⟨u, hr, ht⟩ := Outcome.returned_of_andThen ht
    obtain ⟨hlater, hu⟩ := emplaceBack_buffer hr
    apply ih (hnext.trans hlater) _ ht
    split at hu
    · exact ⟨_, hu, hnext⟩
    · rw [hu]
      exact hbuf

theorem appendEach_moves (vs : List α) (hsize : s.this.size ≤ s.this.capacity)
    (hless : s.this.capacity < s.this.size + vs.length) (ht : appendEach e s vs = .returned t) :
    ∃ q, t.this.buffer = some q ∧ s.memory.next ≤ q := by
  induction vs generalizing s with
  | nil => exact absurd hless hsize.not_gt
  | cons v vs ih =>
    rw [List.length_cons] at hless
    obtain ⟨u, hr, ht⟩ := Outcome.returned_of_andThen ht
    obtain ⟨hlater, hu⟩ := emplaceBack_buffer hr
    split_ifs at hu with hroom
    · exact appendEach_newer vs hlater ⟨_, hu, le_rfl⟩ ht
    · obtain ⟨q, hq, hle⟩ := ih (by rw [hu]; simp only; omega) (by rw [hu]; simp only; omega) ht
      exact ⟨q, hq, hlater.trans hle⟩

/-- The rotation is by the number of the new elements, not by that of the old ones
behind the place. -/
def rotated (xs : List α) (offset : Nat) (vs : List α) : List α :=
  xs.take offset ++ (xs.drop offset ++ vs).rotate vs.length

theorem length_rotated (hoff : offset ≤ xs.length) : (rotated xs offset vs).length = xs.length + vs.length := by
  rw [rotated, List.length_append, List.length_rotate, List.length_append, List.length_take_of_le hoff,
    List.length_drop]
  omega

theorem insertInput_content (h : Holds e s xs) (hoff : offset ≤ xs.length)
    (hroom : s.this.size + vs.length ≤ s.this.capacity) :
    Assigned s.memory ((rotated xs offset vs).map some) (s.insertInput e offset vs) := by
  have hsize := h.size
  rw [State.insertInput, appendEach_of_room hroom, Outcome.map_returned]
  simp only [State.setSize, State.withMemory, if_true]
  cases hb : s.this.buffer with
  | none =>
    obtain ⟨_, hcap⟩ := (owns_none hb).mp h.owns
    obtain rfl : vs = [] := List.eq_nil_of_length_eq_zero (by omega)
    simp only [Memory.constructList, rotate, List.length_nil, Nat.add_zero, true_or, if_true, rotated, List.append_nil,
      List.rotate_zero, List.take_append_drop]
    rw [← hb]
    exact ⟨_, rfl, h.content_eq, rfl⟩
  | some q =>
    obtain ⟨hcontains, hmisuse⟩ := append_contains (Contains.of_holds h) hb hroom
    have hhas :=
      ((owns_some (v := ⟨s.this.buffer, s.this.size + vs.length, s.this.capacity⟩) hb).mp hcontains.owns).2
    have hreads : (s.memory.constructList (some q) s.this.size vs).read (some q) = fun k => (xs ++ vs)[k]? := by
      have h := hcontains.reads
      simp only [State.setSize, State.withMemory, hb] at h
      exact h
    -- the part behind the place, cut where the rotation begins
    have hcut : xs ++ vs = xs.take offset ++ (xs.drop offset ++ vs).take vs.length ++ (xs.drop offset ++ vs).drop
      vs.length := by
      rw [List.append_assoc, List.take_append_drop, ← List.append_assoc, List.take_append_drop]
    have hfirst := List.length_take_of_le hoff
    have hpart : ((xs.drop offset ++ vs).take vs.length).length = vs.length := by
      rw [List.length_take, List.length_append]
      omega
    have hlen : (xs ++ vs).length = s.this.size + vs.length := by
      rw [List.length_append, hsize]
    rw [hcut] at hreads hlen
    have hrotated := read_rotate hhas hroom hlen hreads
    rw [hfirst, hpart, List.append_assoc, ← List.rotate_eq_drop_append_take
      (by rw [List.length_append]; omega)] at hrotated
    obtain ⟨_, _, honly, _⟩ := rotate_spec offset (offset + vs.length) (s.this.size + vs.length) hhas hroom le_rfl
      (Nat.le_add_right _ _) (by omega)
    have hcount : s.this.size + vs.length = (rotated xs offset vs).length := by
      rw [length_rotated hoff, hsize]
    exact ⟨_, rfl, content_eq hcount fun k _ => congrFun hrotated k, honly.misuse.trans hmisuse⟩

theorem insertInput_spoilt (h : Holds e s xs) (hless : s.this.capacity < s.this.size + vs.length) :
    Spoilt s.memory (s.insertInput e offset vs) := by
  intro t ht
  cases happended : appendEach e s vs with
  | threw err u =>
    rw [State.insertInput, happended] at ht
    cases ht
  | returned u =>
    obtain ⟨q, hq, hnext⟩ := appendEach_moves vs h.owns.1.1 hless happended
    have hnew : u.this.buffer ≠ s.this.buffer := by
      intro hsame
      rw [hq] at hsame
      obtain ⟨_, hhas⟩ := (owns_some hsame.symm).mp h.owns
      exact hnext.not_gt (hhas.lt_next h.fresh)
    have hmisuse := misuse_le_appendEach (e := e) (s := s) vs
    rw [happended] at hmisuse
    rw [State.insertInput, happended, Outcome.map_returned, if_neg hnew] at ht
    cases ht
    exact Nat.lt_succ_of_le hmisuse

/-- The insertion is right exactly if no new buffer is needed, and the part behind the place looks
the same rotated by the number of the new elements and by that of the old ones. -/
theorem insertInput_iff (h : Holds e s xs) (offset : Nat) (hoff : offset ≤ xs.length) (vs : List α) :
    Inserts s xs offset vs (s.insertInput e offset vs) offset ↔
      s.this.size + vs.length ≤ s.this.capacity ∧ (xs.drop offset ++ vs).rotate vs.length = vs ++ xs.drop offset := by
  rw [Inserts, and_iff_right rfl]
  by_cases hroom : s.this.size + vs.length ≤ s.this.capacity
  · rw [and_iff_right hroom]
    have hactual := insertInput_content h hoff hroom
    have hsame : inserted xs offset vs = rotated xs offset vs ↔
        (xs.drop offset ++ vs).rotate vs.length = vs ++ xs.drop offset := by
      rw [inserted, rotated, List.append_assoc, List.append_cancel_left_eq, eq_comm]
    rw [← hsame]
    constructor
    · rintro ⟨t, ht, hcontent, _⟩
      obtain ⟨u, hu, hcontent', _⟩ := hactual
      rw [hu] at ht
      cases ht
      exact (List.map_inj_right fun _ _ => Option.some.inj).mp (hcontent.symm.trans hcontent')
    · intro hlists
      rw [hlists]
      exact hactual
  · exact iff_of_false (insertInput_spoilt h (not_le.mp hroom)).not_assigned fun hboth => hroom hboth.1

theorem insertInput_iff_last : Inserts threeWords [1, 2, 3] 2 [9] (threeWords.insertInput words 2 [9]) 2 :=
  (insertInput_iff holds_threeWords 2 (by decide) [9]).mpr (by decide)

/-- Two elements in front of three: they are not in front. One element in front of one
in a full buffer: the iterator is used after its buffer is gone. -/
theorem insertInput_goes_astray :
    content ((roomy [1, 2, 3]).insertInput words 0 [8, 9]).state = [some 3, some 8, some 9, some 1, some 2] ∧
    ((noWords.emplaceBack words (.external 1)).state.insertInput words 0 [8]).state.memory.misuse = 1 := by
  decide

end Ktl.VectorInputRange
