import Ktl.VectorAssignment

/-!
The constructor and `assign` of a vector for a range of iterators of any category, which is
counted before it is copied or taken element by element. All copies of the iterator of a
single-pass range share one position, so that counting such a range consumes it.
-/
namespace Ktl.VectorRanges

open ObjectMemory ObjectValues Ktl.Vector VectorCapacity VectorOwnership VectorAssignment List

/-- The iterator tags of iterators that can be read, from the base to the most derived. -/
inductive Category where
  | input | forward | bidirectional | randomAccess
  deriving DecidableEq

namespace Category

def rank : Category → Nat
  | .input => 0
  | .forward => 1
  | .bidirectional => 2
  | .randomAccess => 3

def isBaseOf (base derived : Category) : Bool := base.rank ≤ derived.rank

def forwardOrGreater (c : Category) : Bool := c.isBaseOf .forward

def isSinglePass : Category → Bool
  | .input => true
  | _ => false

end Category

variable {α : Type}

/-- `distance_impl`: the elements, and what is left. -/
def countPass : List α → Nat × List α
  | [] => (0, [])
  | _ :: vs => ((countPass vs).1 + 1, (countPass vs).2)

def distance (c : Category) (vs : List α) : Nat × List α :=
  ((countPass vs).1, if c.isSinglePass then (countPass vs).2 else vs)

/-- `uninitialized_copy_n` from an iterator; the end of the range has no element. -/
def constructStream (m : Memory α) (p : Option Nat) (start : Nat) : Nat → List α → Memory α
  | 0, _ => m
  | n + 1, [] => constructStream m.blame p (start + 1) n []
  | n + 1, v :: vs => constructStream (m.construct p start v) p (start + 1) n vs

section

variable (e : Element α) (s : State α) (c : Category) (vs : List α)

/-- `construct_from_range` of a measured range. -/
def constructMeasured : Result α :=
  let (length, left) := distance c vs
  let rangeLength := length % 2 ^ 64
  s.grow e true rangeLength rangeLength (fun m p => constructStream m p 0 rangeLength left) State.keep

def constructFromRange : Result α :=
  if c.forwardOrGreater then constructMeasured e s c vs else appendEach e s vs

/-- `assign_range(first, last, true_type)`. The last branch exchanges the ends of the range. -/
def assignMeasured : Result α :=
  let (length, left) := distance c vs
  let rangeLength := length % 2 ^ 64
  if s.this.capacity < rangeLength then
    s.clear.grow e true rangeLength rangeLength (fun m p => constructStream m p 0 rangeLength left) State.keep
  else if rangeLength ≤ s.this.size then
    let m := s.memory.assignList s.this.buffer 0 left
    let m := m.destroyN s.this.buffer rangeLength (s.this.size - rangeLength)
    .returned ((s.withMemory m).setSize rangeLength)
  else
    let m := if s.this.size = 0 then s.memory else s.memory.blame
    let m := constructStream m s.this.buffer s.this.size (rangeLength - s.this.size) left
    .returned ((s.withMemory m).setSize rangeLength)

/-- `assign(first, last)` -/
def assignFromRange : Result α :=
  if c.forwardOrGreater then assignMeasured e s c vs else assignEach e s vs

end

inductive Operation where
  /-- `vector(first, last)`, beside the vector that is there -/
  | construct
  /-- `assign(first, last)` -/
  | assign
  deriving DecidableEq

def perform (e : Element α) (s : State α) (op : Operation) (c : Category) (vs : List α) : Result α :=
  match op with
  | .construct => constructFromRange e ⟨s.memory, .empty⟩ c vs
  | .assign => assignFromRange e s c vs

def Collects (e : Element α) (s : State α) : Operation → Category → List α → Prop
  | .construct, .input, vs => vs = []
  | .construct, .forward, vs => vs.length ≤ maxSize ∧ vs.length * e.size < 2 ^ 64
  | .construct, _, vs => ∀ c ∈ growths 0 0 vs.length, c * e.size < 2 ^ 64
  | .assign, .input, vs => vs.length ≤ s.this.size ∧ (content s).take vs.length = vs.map some
  | .assign, .forward, vs => Apt s.this vs.length ∧
      (s.this.capacity < vs.length → vs.length ≤ maxSize ∧ vs.length * e.size < 2 ^ 64)
  | .assign, _, vs => ∀ c ∈ growths s.this.size s.this.capacity (vs.length - s.this.size), c * e.size < 2 ^ 64

variable {s : State α} {vs : List α}

theorem countPass_eq (vs : List α) : countPass vs = (vs.length, []) := by
  induction vs with
  | nil => rfl
  | cons v vs ih => simp [countPass, ih]

theorem distance_input (vs : List α) : distance .input vs = (vs.length, []) := by
  simp [distance, countPass_eq, Category.isSinglePass]
theorem distance_forward (vs : List α) : distance .forward vs = (vs.length, vs) := by
  simp [distance, countPass_eq, Category.isSinglePass]

theorem constructStream_eq (h : n ≤ vs.length) : constructStream m p start n vs =
    m.constructList p start (vs.take n) := by
  induction n generalizing m start vs with
  | zero => rfl
  | succ n ih =>
    cases vs with
    | nil => exact absurd h (Nat.not_succ_le_zero n)
    | cons v vs =>
      rw [constructStream, take_succ_cons]
      exact ih (Nat.le_of_succ_le_succ h)

theorem misuse_le_constructStream : m.misuse ≤ (constructStream m p start n vs).misuse := by
  induction n generalizing m start vs with
  | zero => exact le_rfl
  | succ n ih =>
    cases vs with
    | nil => exact misuse_le_blame.trans ih
    | cons v vs => exact misuse_le_access.trans ih

theorem misuse_constructStream_end (hn : 0 < n) : m.misuse < (constructStream m p start n []).misuse := by
  obtain ⟨n, rfl⟩ : ∃ k, n = k + 1 := ⟨n - 1, by omega⟩
  have hrest : m.blame.misuse ≤ (constructStream m.blame p (start + 1) n []).misuse := misuse_le_constructStream
  exact (Nat.lt_succ_self m.misuse).trans_le hrest

theorem grow_spoilt (hn : 0 < n) :
    Spoilt s.memory (s.grow e true n adjustment (fun m p => constructStream m p 0 n []) State.keep) := by
  intro t ht
  rw [State.grow] at ht
  split at ht
  · obtain rfl := State.eq_of_growUnchecked e s ht
    have hend : (s.memory.allocated n e.size).misuse <
        (constructStream (s.memory.allocated n e.size) (some s.memory.next) 0 n []).misuse :=
      misuse_constructStream_end hn
    exact hend.trans_le (misuse_le_release (s := s.withMemory _))
  · cases ht

theorem length_content (s : State α) : (content s).length = s.this.size := by
  rw [content, length_map, length_range]

theorem grow_size (h : s.grow e true n adjustment construct transfer = .returned t) : t.this.size < 2 ^ 64 := by
  rw [State.grow] at h
  split at h
  · obtain rfl := State.eq_of_growUnchecked e s h
    exact Nat.mod_lt _ (by decide)
  · cases h

theorem not_assigned_of_long (hlong : 2 ^ 64 ≤ vs.length) (hsize : ∀ t, r = .returned t → t.this.size < 2 ^ 64) :
    ¬ Assigned m (vs.map some) r := by
  rintro ⟨t, ht, hcontent, -⟩
  have hlen := congrArg length hcontent
  rw [length_content, length_map] at hlen
  have hless := hsize t ht
  omega

theorem assignMeasured_size (h : assignMeasured e s c vs = .returned t) : t.this.size < 2 ^ 64 := by
  have hmod : (distance c vs).1 % 2 ^ 64 < 2 ^ 64 := Nat.mod_lt _ (by decide)
  unfold assignMeasured at h
  dsimp only at h
  split at h
  · exact grow_size h
  · split at h
    · cases h
      exact hmod
    · cases h
      exact hmod

theorem usable_new (h : Usable e s) : Usable e ⟨s.memory, .empty⟩ := ⟨owns_empty, h.fresh, h.served⟩

theorem construct_forward_iff (h : Usable e s) :
    Assigned s.memory (vs.map some) (constructMeasured e ⟨s.memory, .empty⟩ .forward vs) ↔
      vs.length ≤ maxSize ∧ vs.length * e.size < 2 ^ 64 := by
  by_cases hlong : 2 ^ 64 ≤ vs.length
  · refine iff_of_false (not_assigned_of_long hlong fun t ht => grow_size ht) ?_
    rintro ⟨hmax, -⟩
    unfold maxSize at hmax
    omega
  have hmod := Nat.mod_eq_of_lt (not_le.mp hlong)
  have hmeasured : constructMeasured e ⟨s.memory, .empty⟩ .forward vs =
      State.constructMeasured e ⟨s.memory, .empty⟩ vs := by
    simp only [constructMeasured, distance_forward, hmod, constructStream_eq (Nat.le_refl vs.length), take_length]
    rfl
  rw [hmeasured]
  constructor
  · intro hassigned
    by_contra hbad
    exact (clear_grow_spoilt (usable_new h) hbad).not_assigned hassigned
  · rintro ⟨hmax, hfit⟩
    obtain ⟨t, ht, hcontent⟩ := clear_growUnchecked (usable_new h) hfit
    have hret : State.constructMeasured e ⟨s.memory, .empty⟩ vs = .returned t := (if_pos hmax).trans ht
    have hkeeps := constructMeasured_keeps h.fresh hfit
    rw [hret] at hkeeps
    exact ⟨t, hret, hcontent, hkeeps.misuse⟩

theorem construct_input_iff (h : Usable e s) :
    Assigned s.memory (vs.map some) (constructMeasured e ⟨s.memory, .empty⟩ .input vs) ↔ vs = [] := by
  constructor
  · intro hassigned
    by_contra hne
    by_cases hlong : 2 ^ 64 ≤ vs.length
    · exact not_assigned_of_long hlong (fun t ht => grow_size ht) hassigned
    · have hmod := Nat.mod_eq_of_lt (not_le.mp hlong)
      simp only [constructMeasured, distance_input, hmod] at hassigned
      exact (grow_spoilt (length_pos_iff.mpr hne)).not_assigned hassigned
  · rintro rfl
    -- without elements both kinds of ranges are the same
    have hempty : Assigned s.memory (([] : List α).map some) (constructMeasured e ⟨s.memory, .empty⟩ .forward []) :=
      (construct_forward_iff h).mpr ⟨Nat.zero_le _, by simp⟩
    exact hempty

theorem construct_each_iff (h : Usable e s) : Assigned s.memory (vs.map some) (appendEach e ⟨s.memory, .empty⟩ vs) ↔
      ∀ c ∈ growths 0 0 vs.length, c * e.size < 2 ^ 64 :=
  assignEach_iff (usable_new h)

theorem assign_forward_eq (hshort : vs.length < 2 ^ 64) : assignMeasured e s .forward vs = assignVerified e s vs := by
  have hmod := Nat.mod_eq_of_lt hshort
  have htake : constructStream (if s.this.size = 0 then s.memory else s.memory.blame) s.this.buffer s.this.size
      (vs.length - s.this.size) vs =
      (if s.this.size = 0 then s.memory else s.memory.blame).constructList s.this.buffer s.this.size
        (vs.take (vs.length - s.this.size)) :=
    constructStream_eq (Nat.sub_le _ _)
  simp only [assignMeasured, distance_forward, hmod, htake, constructStream_eq (Nat.le_refl vs.length), take_length]
  rw [assignVerified, State.assignRange]
  split
  · rfl
  · rfl

theorem assign_forward_iff (h : Usable e s) : Assigned s.memory (vs.map some) (assignMeasured e s .forward vs) ↔
      Apt s.this vs.length ∧ (s.this.capacity < vs.length → vs.length ≤ maxSize ∧ vs.length * e.size < 2 ^ 64) := by
  by_cases hlong : 2 ^ 64 ≤ vs.length
  · refine iff_of_false (not_assigned_of_long hlong fun t ht => assignMeasured_size ht) ?_
    rintro ⟨-, hgrows⟩
    have hcap := lt_of_fits le_rfl h.owns.1.2
    obtain ⟨hmax, -⟩ := hgrows (by omega)
    unfold maxSize at hmax
    omega
  · rw [assign_forward_eq (not_le.mp hlong)]
    exact assignVerified_iff h

theorem truncated (h : Owns e s.memory s.this) (hn : n ≤ s.this.size) :
    content ((s.withMemory (s.memory.destroyN s.this.buffer n (s.this.size - n))).setSize n) = (content s).take n ∧
      (s.memory.destroyN s.this.buffer n (s.this.size - n)).misuse = s.memory.misuse := by
  have htake : (content s).take n = (range n).map (s.memory.read s.this.buffer) := by
    rw [content, ← map_take, take_range, Nat.min_eq_left hn]
  rw [htake]
  cases hb : s.this.buffer with
  | none =>
    obtain ⟨hsize, -⟩ := (owns_none hb).mp h
    obtain rfl : n = 0 := by omega
    rw [hsize]
    exact ⟨rfl, rfl⟩
  | some q =>
    obtain ⟨hsize, hhas⟩ := (owns_some hb).mp h
    have hcut := hhas.truncate hn hsize.1
    refine ⟨map_congr_left fun k hk => ?_, hcut.only.misuse⟩
    have hlt : k < n := mem_range.mp hk
    simp only [State.setSize, State.withMemory, hb]
    rw [hcut.reads, patch, if_neg (by omega)]

theorem assign_input_iff (h : Usable e s) : Assigned s.memory (vs.map some) (assignMeasured e s .input vs) ↔
      vs.length ≤ s.this.size ∧ (content s).take vs.length = vs.map some := by
  have hcap := lt_of_fits le_rfl h.owns.1.2
  have hsize := h.owns.1.1
  by_cases hlong : 2 ^ 64 ≤ vs.length
  · refine iff_of_false (not_assigned_of_long hlong fun t ht => assignMeasured_size ht) ?_
    rintro ⟨hle, -⟩
    omega
  have hmod := Nat.mod_eq_of_lt (not_le.mp hlong)
  simp only [assignMeasured, distance_input, hmod]
  split
  · rename_i hgrows
    refine iff_of_false (fun hassigned => ?_) fun hright => by omega
    have hsame := (clear_keeps h.owns h.fresh).misuse
    exact ((grow_spoilt (s := s.clear) (n := vs.length) (by omega)).of_eq hsame).not_assigned hassigned
  · split
    · rename_i hle
      obtain ⟨hcontent, hmisuse⟩ := truncated h.owns hle
      constructor
      · rintro ⟨t, ht, hright, -⟩
        cases ht
        exact ⟨hle, hcontent.symm.trans hright⟩
      · rintro ⟨-, hright⟩
        exact ⟨_, rfl, hcontent.trans hright, hmisuse⟩
    · rename_i hroom hmore
      refine iff_of_false (fun hassigned => ?_) fun hright => hmore hright.1
      obtain ⟨t, ht, -, hmisuse⟩ := hassigned
      cases ht
      have hblamed : s.memory.misuse ≤ (if s.this.size = 0 then s.memory else s.memory.blame).misuse := by
        split
        · exact le_rfl
        · exact misuse_le_blame
      refine (Nat.lt_of_le_of_lt hblamed ?_).ne' hmisuse
      exact misuse_constructStream_end (Nat.sub_pos_of_lt (not_le.mp hmore))

/-- Iterators that are no more than forward ones are counted first, and single-pass ranges are then
at their end: they are collected only when they are empty, or when the vector already has their
elements. Stronger iterators are taken one by one. -/
theorem collects_iff (h : Usable e s) (op : Operation) (c : Category) (vs : List α) :
    Assigned s.memory (vs.map some) (perform e s op c vs) ↔ Collects e s op c vs := by
  cases op with
  | construct =>
    cases c with
    | input => exact construct_input_iff h
    | forward => exact construct_forward_iff h
    | bidirectional | randomAccess => exact construct_each_iff h
  | assign =>
    cases c with
    | input => exact assign_input_iff h
    | forward => exact assign_forward_iff h
    | bidirectional => exact assignEach_iff h
    | randomAccess => exact assignEach_iff h

theorem collects_iff_words : Usable words threeWords ∧
    Assigned threeWords.memory [some 7, some 8] (perform words threeWords .assign .forward [7, 8]) ∧
    Assigned threeWords.memory [some 5, some 6, some 7, some 8, some 9]
      (perform words threeWords .assign .bidirectional [5, 6, 7, 8, 9]) := by
  have husable := holds_threeWords.toUsable
  have hover : Collects words threeWords .assign .forward [7, 8] :=
    ⟨fun hless => absurd hless (by decide), fun hgrows => absurd hgrows (by decide)⟩
  have hgrown : Collects words threeWords .assign .bidirectional [5, 6, 7, 8, 9] := by
    change ∀ c ∈ growths threeWords.this.size threeWords.this.capacity 2, c * words.size < 2 ^ 64
    decide
  exact ⟨husable, (collects_iff husable .assign .forward [7, 8]).mpr hover,
    (collects_iff husable .assign .bidirectional [5, 6, 7, 8, 9]).mpr hgrown⟩

/-- A single-pass range: the constructor reads behind its end, and `assign` keeps the old element.
-/
theorem single_pass_not_collected :
    (∃ t, perform words noWords .construct .input [7] = .returned t ∧ noWords.memory.misuse < t.memory.misuse) ∧
    ∃ t, perform words oneOfFour .assign .input [7] = .returned t ∧ content t = [some 1] :=
  ⟨⟨_, rfl, by decide +kernel⟩, _, rfl, by decide +kernel⟩

end Ktl.VectorRanges
