import Ktl.VectorInsertion

/-!
An element of a vector as the argument of its own `emplace`, `emplace_back`,
`push_back` or `resize`: the call does what it does for a copy.
-/
namespace Ktl.VectorAliasing

open ObjectMemory ObjectValues Ktl.Vector VectorCapacity VectorOwnership VectorAssignment VectorInsertion List

variable {α : Type}

def pushBack (e : Element α) (s : State α) (src : Source α) : Result α := s.emplaceBack e src

/-- The iterator that `emplace` returns: `prev(end())` or `begin() + offset`. -/
def emplaceReturns (s t : State α) (offset : Nat) : Nat :=
  if offset = s.this.size then t.this.size - 1 else offset

variable {e : Element α} {s : State α} {xs : List α} {x : α} {src : Source α} {count : Nat}

theorem constructAt_eq (hx : src.value s.memory s.this.buffer = some x) (pos : Nat) (p : Option Nat) :
    s.constructAt pos src s.memory p = s.constructAt pos (.external x) s.memory p := by
  simp only [State.constructAt, Source.use, hx]
  rfl

section
variable (h : Owns e s.memory s.this) (hf : Fresh s.memory) (hx : src.value s.memory s.this.buffer = some x)
include h hf hx

theorem emplaceBack_eq : s.emplaceBack e src = s.emplaceBack e (.external x) := by
  rw [State.emplaceBack, State.emplaceBack]
  split
  · exact grow_congr hf (constructsList_one h hx _) (constructsList_one h rfl _)
  · rw [constructAt_eq hx]

theorem emplace_eq (offset : Nat) : s.emplace e offset src = s.emplace e offset (.external x) := by
  rw [State.emplace, State.emplace]
  split
  · exact emplaceBack_eq h hf hx
  split
  · exact grow_congr hf (constructsList_one h hx _) (constructsList_one h rfl _)
  · simp only [Source.use, hx]
    rfl

theorem resize_eq (count : Nat) : s.resize e count (some src) = s.resize e count (some (.external x)) := by
  simp only [State.resize, State.resizeImpl, Option.getD_some]
  split
  · rfl
  split
  · split
    · simp only [State.constructFill, Source.use, hx]
      rfl
    · congr 1
      exact grow_congr hf (constructsList_fill h hx _ _) (constructsList_fill h rfl _ _)
  · rfl

end

def resized (xs : List α) (count : Nat) (x : α) : List α := xs.take count ++ List.replicate (count - xs.length) x

theorem resized_of_le (x : α) (hle : xs.length ≤ count) :
    resized xs count x = xs ++ List.replicate (count - xs.length) x := by
  rw [resized, take_of_length_le hle]

theorem truncate_contains (h : Contains e s xs) (hless : count < s.this.size) :
    Contains e ((s.withMemory (s.memory.destroyN s.this.buffer count (s.this.size - count))).setSize count)
      (xs.take count) := by
  have hsize := h.size
  have hle := h.owns.1.1
  obtain ⟨q, hb, hhas⟩ := h.owns.buffer (by omega)
  rw [hb]
  refine (inPlace_contains h hb (hhas.truncate hless.le hle) (by omega) ?_ (by rw [length_take]; omega)).1
  rw [h.cells hb, hsize]
  funext k
  by_cases hk : k < count
  · rw [patch_outside _ (by omega), getElem?_take_of_lt hk]
  rw [getElem?_take_eq_none (by omega)]
  by_cases hold : k < xs.length
  · rw [patch_inside _ (by omega)]
  · rw [patch_outside _ (by omega), getElem?_eq_none (by omega)]

theorem resize_grow_contains (adjustment : Nat) (h : Contains e s xs)
    (hc : ConstructsList s construct s.this.size vs) (hroom : s.this.size + vs.length = newCapacity)
    (hfit : newCapacity * e.size < 2 ^ 64)
    (ht : (s.grow e false newCapacity adjustment construct (s.transferWithoutShift e)).map
      (fun s => s.setSize newCapacity) = .returned t) :
    Contains e t (xs ++ vs) := by
  have hsize := h.size
  have hfills := fills_shift h.owns (hc.constructsAt (c := newCapacity) (by omega)) le_rfl (by omega)
  rw [hroom] at hfills
  have hevolves := growUnchecked_setSize_evolves false adjustment h.owns h.fresh hfit le_rfl hfills
  rw [transferWithoutShift_eq e s (s.this.size + vs.length), hroom, State.grow] at ht
  split at ht
  · rw [ht] at hevolves
    obtain ⟨u, hgrown, hs⟩ := Outcome.returned_of_andThen ht
    have hwith : FillsWith s construct (s.transferWithShiftRight e s.this.size newCapacity) newCapacity
        fun k => (inserted xs s.this.size vs)[k]? := by
      rw [← hroom]
      exact fillsWith_shift h hc (by omega) (by omega)
    have hreads := growUnchecked_reads h.owns h.fresh hfit hfills hwith hgrown
    rw [hsize, inserted_end] at hreads
    cases hs
    exact ⟨hevolves.owns, hevolves.fresh, hreads, by rw [length_append, ← hsize]; exact hroom.symm⟩
  · cases ht

theorem resize_contains (h : Contains e s xs) (hx : src.value s.memory s.this.buffer = some x)
    (hfit : s.this.capacity < count → count * e.size < 2 ^ 64) (ht : s.resize e count (some src) = .returned t) :
    Contains e t (resized xs count x) := by
  have hsize := h.size
  have hle := h.owns.1.1
  simp only [State.resize, State.resizeImpl, Option.getD_some] at ht
  split at ht
  · rename_i hless
    have hnone : count - xs.length = 0 := by omega
    rw [resized, hnone, replicate_zero, append_nil]
    cases ht
    exact truncate_contains h hless
  rename_i hnotLess
  rw [resized_of_le x (by omega)]
  split at ht
  · rename_i hmore
    have hlen : (replicate (count - xs.length) x).length = count - xs.length := length_replicate
    split_ifs at ht with hroom
    · obtain ⟨q, hb, _⟩ := h.owns.buffer (by omega)
      have happended : Contains e _ (xs ++ replicate (count - xs.length) x) ∧ _ :=
        append_contains h hb (by omega)
      have hcount : s.this.size + (count - xs.length) = count := by omega
      rw [hlen, hcount] at happended
      rw [hb] at hx
      cases ht
      simp only [State.constructFill, Source.use, hb, hx]
      rw [hsize] at happended ⊢
      exact happended.1
    · have hc := constructsList_fill h.owns hx s.this.size (count - s.this.size)
      rw [← hsize]
      exact resize_grow_contains _ h hc (by rw [length_replicate]; omega) (hfit (by omega)) ht
  · cases ht
    have hcount : count = s.this.size := by omega
    have hnone : count - xs.length = 0 := by omega
    rw [hnone, replicate_zero, append_nil, hcount]
    exact h

theorem doubled_fits (hobj : s.this.capacity * e.size < 2 ^ 63) (hsize : e.size < 2 ^ 63) :
    doubled s.this.capacity * e.size < 2 ^ 64 := by
  rcases Nat.le_total 1 (s.this.capacity * 2) with hle | hle
  · rw [doubled, Nat.max_eq_right hle, Nat.mul_right_comm]
    omega
  · rw [doubled, Nat.max_eq_left hle]
    omega

theorem emplaceReturns_eq (h : Contains e s xs) (ht : Contains e t (inserted xs offset [x])) :
    emplaceReturns s t offset = offset := by
  rw [emplaceReturns]
  split_ifs with hend
  · rw [ht.size, length_inserted, length_singleton, hend, h.size, Nat.add_sub_cancel]
  · rfl

theorem emplace_returns (hfit : doubled s.this.capacity * e.size < 2 ^ 64)
    (hserved : s.memory.fails s.memory.next = false) : ∃ t, s.emplace e offset src = .returned t := by
  have hback := emplaceBack_returns src (fun _ => hfit) fun _ => hserved
  rw [State.emplace]
  split
  · obtain ⟨t, ht, _⟩ := hback
    exact ⟨t, ht⟩
  split
  · have hmax : calcGrowth s.this.capacity ≤ maxSize := by
      have hlt := lt_of_fits le_rfl hfit
      rw [calcGrowth_eq hfit]
      unfold doubled at hlt ⊢
      unfold maxSize
      omega
    exact grow_returns hmax hserved
  · exact ⟨_, rfl⟩

def Leaves (e : Element α) (s t : State α) (ys : List α) : Prop := Contains e t ys ∧ t.memory.misuse = s.memory.misuse

section
variable (h : Contains e s xs) (hx : src.value s.memory s.this.buffer = some x)
include h hx

theorem valid_of_value : VectorOwnership.Valid src s.this.size := by
  cases src with
  | external => trivial
  | element i =>
    have hread := (congrFun h.reads i).symm.trans hx
    obtain ⟨hi, _⟩ := List.getElem?_eq_some_iff.mp hread
    rw [h.size]
    exact hi

theorem resize_leaves
    (hfit : s.this.capacity < count → count * e.size < 2 ^ 64) (ht : s.resize e count (some src) = .returned t) :
    Leaves e s t (resized xs count x) := by
  have hkeeps : Keeps e s (s.resize e count (some src)) := resize_keeps h.owns h.fresh (valid_of_value h hx) hfit
  rw [ht] at hkeeps
  exact ⟨resize_contains h hx hfit ht, hkeeps.misuse⟩

end

def oneWord : State Nat := (noWords.emplaceBack words (.external 7)).state

theorem contains_oneWord : Contains words oneWord [7] := by
  have hret : noWords.emplaceBack words (.external 7) = .returned oneWord := rfl
  exact (emplaceBack_contains (Contains.of_holds (holds_noWords words)) rfl (fun _ => by decide) hret).1

end Ktl.VectorAliasing
