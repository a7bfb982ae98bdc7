import Ktl.SubrangeSearch

/-!
`find_first_of` of strings and views. It looks for the whole set as a text, by
`find`, where a character of the set is asked for.
-/
namespace Ktl.FirstOfSearch

open WinntString StringView SubrangeSearch

variable {α : Type} {f g : Format}

def FindsFirstOf [DecidableEq α] (v : View f α) (other : View g α) (pos : UInt16) (result : Option Nat) : Prop :=
  Finds v other pos result

structure FirstMember (str set : List α) (pos i : Nat) : Prop where
  le : pos ≤ i
  member : ∃ a ∈ set, str[i]? = some a
  least : ∀ j, pos ≤ j → (∃ a ∈ set, str[j]? = some a) → i ≤ j

section

variable {str set : List α}

theorem member_of_occurs (h : OccursAt str set i) (hset : 0 < set.length) : ∃ a ∈ set, str[i]? = some a := by
  have hfirst := h.getElem? hset
  rw [Nat.add_zero, List.getElem?_eq_getElem hset] at hfirst
  exact ⟨_, List.getElem_mem hset, hfirst⟩

theorem exists_firstMember (hle : pos ≤ i) (h : ∃ a ∈ set, str[i]? = some a) : ∃ j, FirstMember str set pos j := by
  classical
  have hexists : ∃ j, pos ≤ j ∧ ∃ a ∈ set, str[j]? = some a := ⟨i, hle, h⟩
  refine ⟨Nat.find hexists, (Nat.find_spec hexists).1, (Nat.find_spec hexists).2, ?_⟩
  exact fun j hj hmember => Nat.find_min' hexists ⟨hj, hmember⟩

section
variable (h : FirstMember str set pos i)
include h

theorem FirstMember.unique {j : Nat} (h' : FirstMember str set pos j) : i = j :=
  (h.least j h'.le h'.member).antisymm (h'.least i h.le h.member)

theorem FirstMember.lt_length : i < str.length := by
  obtain ⟨a, -, ha⟩ := h.member
  exact (List.getElem?_eq_some_iff.mp ha).1

theorem FirstMember.visits (hset : 0 < set.length) : Visits str set pos i := by
  induction hd : i - pos generalizing pos with
  | zero =>
    obtain rfl : pos = i := h.le.antisymm (by omega)
    exact .here pos
  | succ d ih =>
    have hlt := h.lt_length
    have hmatch : PartialMatch str set pos 0 := by
      refine ⟨by omega, hset, rfl, ?_⟩
      rw [Nat.add_zero, List.getElem?_eq_getElem hset]
      intro heq
      have := h.least pos le_rfl ⟨_, List.getElem_mem hset, heq⟩
      omega
    exact .skip hmatch (ih ⟨by omega, h.member, fun j hj => h.least j (by omega)⟩ (by omega))

end

end

variable [DecidableEq α] (v : View f α) (w : View g α) (pos : UInt16)

/-- `find_first_of` returns the first place with a character of the set, or `npos`. -/
def FirstOfRight : Prop :=
  ∃ result, FindsFirstOf v w pos (some result) ∧ (FirstMember v.chars w.chars pos.toNat result ∨
      result = npos ∧ ∀ i, pos.toNat ≤ i → ¬ ∃ a ∈ w.chars, v.chars[i]? = some a)

/-- The whole set stands where its first member is; an empty set is looked for at the end only. -/
def WholeSetFirst : Prop :=
  if w.size = 0 then pos.toNat = v.size ∨ pos.toNat = npos
  else (v.size < w.size ∨ pos.toNat ≤ v.size) ∧
    ∀ i, FirstMember v.chars w.chars pos.toNat i → OccursAt v.chars w.chars i

theorem firstOfRight_iff_of_finds {v : View f α} {w : View g α} {pos : UInt16} {r : Nat}
    (h : Finds v w pos (some r)) : FirstOfRight v w pos ↔ FirstMember v.chars w.chars pos.toNat r ∨
      r = npos ∧ ∀ i, pos.toNat ≤ i → ¬ ∃ a ∈ w.chars, v.chars[i]? = some a := by
  constructor
  · rintro ⟨result, hfinds, hright⟩
    cases h.unique hfinds
    exact hright
  · exact fun hright => ⟨r, h, hright⟩

section

variable {v : View f α} {w : View g α} {pos : UInt16}

theorem firstOfRight_iff_of_npos (h : Finds v w pos (some npos)) :
    FirstOfRight v w pos ↔ ∀ i, ¬ FirstMember v.chars w.chars pos.toNat i := by
  rw [firstOfRight_iff_of_finds h]
  constructor
  · rintro (hfirst | ⟨-, hnone⟩) i hi
    · have hlt := hfirst.lt_length
      have hsize : v.chars.length < 2 ^ 16 := size_lt v
      unfold npos at hlt
      omega
    · exact hnone i hi.le hi.member
  · intro hnone
    refine .inr ⟨rfl, fun i hi hmember => ?_⟩
    obtain ⟨j, hj⟩ := exists_firstMember hi hmember
    exact hnone j hj

theorem firstOfRight_iff_of_inside (hsize : w.size ≤ v.size) (hset : 0 < w.size) (hpos : pos.toNat ≤ v.size) :
    FirstOfRight v w pos ↔ ∀ i, FirstMember v.chars w.chars pos.toNat i → OccursAt v.chars w.chars i := by
  obtain ⟨j, hreached, hoccurs, hfinds⟩ | ⟨hnone, hfinds⟩ := finds_inside pos hsize hpos
  · obtain ⟨hposition, hnpos⟩ := position_of_occurs hset hoccurs
    rw [hposition] at hfinds
    rw [firstOfRight_iff_of_finds hfinds]
    constructor
    · rintro (hfirst | ⟨heq, -⟩) i hi
      · rw [hi.unique hfirst]
        exact hoccurs
      · exact absurd heq hnpos
    · intro hall
      obtain ⟨i, hi⟩ := exists_firstMember hreached.le (member_of_occurs hoccurs hset)
      rw [hreached.unique hoccurs (hi.visits hset) (hall i hi)]
      exact .inl hi
  · rw [firstOfRight_iff_of_npos hfinds]
    constructor
    · exact fun h i hi => absurd hi (h i)
    · exact fun hall i hi => hnone i (hi.visits hset) (hall i hi)

theorem firstOfRight_iff_of_empty (hempty : w.size = 0) :
    FirstOfRight v w pos ↔ pos.toNat = v.size ∨ pos.toNat = npos := by
  have hnil : w.chars = [] := List.length_eq_zero_iff.mp hempty
  have hmod := Nat.mod_eq_of_lt pos.toNat_lt
  have hmember (i : Nat) : ¬ FirstMember v.chars [] pos.toNat i := by
    rintro ⟨-, ⟨a, ha, -⟩, -⟩
    simp at ha
  rw [firstOfRight_iff_of_finds (finds_empty hempty), position, hmod, hnil]
  by_cases hend : pos.toNat = v.size <;> simp [hend, hmember]

end

/-- `find_first_of` is right exactly if the set as a whole stands where its first member is. -/
theorem first_of_right_iff : FirstOfRight v w pos ↔ WholeSetFirst v w pos := by
  unfold WholeSetFirst
  split_ifs with hempty
  · exact firstOfRight_iff_of_empty hempty
  · have hset : 0 < w.size := Nat.pos_of_ne_zero hempty
    by_cases hlong : v.size < w.size
    · obtain ⟨hfinds, hnowhere⟩ := finds_long pos hlong
      simp [firstOfRight_iff_of_npos hfinds, hlong, hnowhere]
    · by_cases hpos : pos.toNat ≤ v.size
      · rw [firstOfRight_iff_of_inside (not_lt.mp hlong) hset hpos]
        simp [hpos]
      · refine iff_of_false ?_ (by simp [hlong, hpos])
        rintro ⟨result, hfinds, -⟩
        cases hfinds.unique (finds_behind (not_lt.mp hlong) hset (not_le.mp hpos))

/-- `"xb"` has a character of the set `"ab"` at 1, but `find_first_of` returns `npos`. -/
theorem find_first_of_needs_whole_set :
    FindsFirstOf (⟨[120, 98], by decide⟩ : View ansi Nat) (⟨[97, 98], by decide⟩ : View ansi Nat) 0 (some npos) ∧
      FirstMember [120, 98] [97, 98] 0 1 := by
  constructor
  · rw [FindsFirstOf, Finds, if_neg (by decide)]
    exact ⟨some 2, ⟨2, by decide⟩, by decide⟩
  · refine ⟨by decide, ⟨98, by decide, by decide⟩, ?_⟩
    rintro j - ⟨a, ha, hj⟩
    cases j with
    | zero =>
      obtain rfl : 120 = a := by simpa using hj
      simp at ha
    | succ j => omega

end Ktl.FirstOfSearch
