import Ktl.VectorOwnership

/-!
The elements that a vector has after it grew or after its elements made room for
others, in a new buffer or in place.
-/
namespace Ktl.VectorAssignment

open ObjectMemory ObjectValues Ktl.Vector VectorOwnership

variable {α : Type}

section

variable {construct transfer : Memory α → Option Nat → Memory α} {cells : Nat → Option α}

def FillsWith (s : State α) (construct transfer : Memory α → Option Nat → Memory α) (c : Nat)
    (cells : Nat → Option α) : Prop :=
  ∀ m p, (∀ q, q ≠ p → m.block q = s.memory.block q) → s.memory.block p = none → (Has m p c fun _ => False) →
    (transfer (construct m (some p)) (some p)).read (some p) = cells

theorem growUnchecked_reads (h : Owns e s.memory s.this) (hf : Fresh s.memory)
    (hfit : newCapacity * e.size < 2 ^ 64) (hfills : Fills e s construct transfer newCapacity n)
    (hcells : FillsWith s construct transfer newCapacity cells)
    (ht : s.growUnchecked e adjust newCapacity adjustment construct transfer = .returned t) :
    t.memory.read t.this.buffer = cells := by
  obtain rfl := State.eq_of_growUnchecked e s ht
  have hnone := hf _ le_rfl
  have hothers : ∀ q, q ≠ s.memory.next → (s.memory.allocated newCapacity e.size).block q = s.memory.block q := by
    intro q hq
    simp [Memory.allocated, hq]
  have hnew : Has (s.memory.allocated newCapacity e.size) s.memory.next newCapacity fun _ => False :=
    has_allocated e.size_pos hfit
  obtain ⟨hown, _⟩ := hfills _ _ hothers hnone hnew
  obtain ⟨_, hkept, _⟩ := Owns.destroyAndDeallocate (s := s.withMemory _) hown
  exact (read_block (hkept _ (h.buffer_ne hnone))).trans (hcells _ _ hothers hnone hnew)

theorem fillsWith_list (hroom : vs.length ≤ n) :
    FillsWith s (fun m p => m.constructList p 0 vs) State.keep n fun k => vs[k]? := by
  intro m p _ _ hraw
  change (m.constructList (some p) 0 vs).read (some p) = _
  rw [(hraw.constructList 0 vs (by omega) fun _ _ => not_false).reads]
  funext k
  rw [patch]
  split
  · rfl
  · rw [read_none hraw not_false, List.getElem?_eq_none (by omega)]

end

end Ktl.VectorAssignment

namespace Ktl.VectorInsertion

open ObjectMemory ObjectValues Ktl.Vector VectorOwnership VectorAssignment

variable {α : Type}

def inserted (xs : List α) (offset : Nat) (vs : List α) : List α := xs.take offset ++ vs ++ xs.drop offset

theorem length_inserted (xs : List α) (offset : Nat) (vs : List α) :
    (inserted xs offset vs).length = xs.length + vs.length := by
  rw [inserted, List.length_append, List.length_append, List.length_take, List.length_drop]
  omega

theorem inserted_before (hoff : offset ≤ xs.length) (hk : k < offset) : (inserted xs offset vs)[k]? = xs[k]? := by
  rw [inserted, List.append_assoc, List.getElem?_append_left (by rw [List.length_take]; omega),
    List.getElem?_take_of_lt hk]

theorem inserted_new (hoff : offset ≤ xs.length) (hk : offset ≤ k) (hk' : k < offset + vs.length) :
    (inserted xs offset vs)[k]? = vs[k - offset]? := by
  have hfront : (xs.take offset).length = offset := by
    rw [List.length_take]
    omega
  rw [inserted, List.append_assoc, List.getElem?_append_right (by omega), hfront, List.getElem?_append_left (by omega)]

theorem inserted_behind (hoff : offset ≤ xs.length) (hk : offset + vs.length ≤ k) :
    (inserted xs offset vs)[k]? = xs[k - vs.length]? := by
  have hfront : (xs.take offset ++ vs).length = offset + vs.length := by
    rw [List.length_append, List.length_take]
    omega
  rw [inserted, List.getElem?_append_right (by omega), hfront, List.getElem?_drop]
  congr 1
  omega

theorem inserted_end (xs vs : List α) : inserted xs xs.length vs = xs ++ vs := by
  rw [inserted, List.take_length, List.drop_length, List.append_nil]

structure Contains (e : Element α) (s : State α) (xs : List α) : Prop where
  owns : Owns e s.memory s.this
  fresh : Fresh s.memory
  reads : s.memory.read s.this.buffer = fun k => xs[k]?
  size : s.this.size = xs.length

variable {e : Element α} {s : State α} {xs : List α}

theorem cells_of_le (left moved : α → α) (hoff : offset ≤ xs.length) (hle : vs.length ≤ xs.length - offset) :
    patch (relocated moved (relocated left (fun k => xs[k]?)
      (offset + (xs.length - offset - vs.length)) xs.length vs.length)
        offset (offset + vs.length) (xs.length - offset - vs.length)) offset vs.length (fun k => vs[k]?) =
      fun k => (inserted xs offset vs)[k]? := by
  funext k
  by_cases hbefore : k < offset
  · simp (disch := omega) only [inserted_before, patch_outside, relocated_other]
  by_cases hnew : k < offset + vs.length
  · rw [inserted_new hoff (by omega) hnew, patch_inside _ (by omega)]
  rw [inserted_behind hoff (by omega), patch_outside _ (by omega)]
  by_cases hold : k < xs.length
  · have hindex : offset + (k - (offset + vs.length)) = k - vs.length := by omega
    rw [relocated_arrived _ (by omega), hindex, relocated_other _ (by omega) (by omega)]
  · rw [relocated_other _ (by omega) (by omega)]
    by_cases hraw : k < xs.length + vs.length
    · have hindex : offset + (xs.length - offset - vs.length) + (k - xs.length) = k - vs.length := by omega
      rw [relocated_arrived _ (by omega), hindex]
    · simp (disch := omega) only [relocated_other, List.getElem?_eq_none]

theorem cells_of_lt (left : α → α) (hoff : offset ≤ xs.length) (hlt : xs.length - offset < vs.length) :
    patch (relocated left (patch (fun k => xs[k]?) xs.length (vs.length - (xs.length - offset))
          (fun k => (vs.drop (xs.length - offset))[k]?)) offset (xs.length + (vs.length - (xs.length - offset)))
          (xs.length - offset)) offset (xs.length - offset) (fun k => (vs.take (xs.length - offset))[k]?) =
      fun k => (inserted xs offset vs)[k]? := by
  funext k
  by_cases hbefore : k < offset
  · simp (disch := omega) only [inserted_before, patch_outside, relocated_other]
  by_cases hslot : k < xs.length
  · simp (disch := omega) only [inserted_new, patch_inside, List.getElem?_take_of_lt]
  rw [patch_outside _ (by omega)]
  by_cases hraw : k < offset + vs.length
  · have hindex : xs.length - offset + (k - xs.length) = k - offset := by omega
    simp (disch := omega) only [inserted_new, relocated_other, patch_inside, List.getElem?_drop, hindex]
  · rw [inserted_behind hoff (by omega)]
    by_cases hold : k < xs.length + vs.length
    · have hindex : offset + (k - (xs.length + (vs.length - (xs.length - offset)))) = k - vs.length := by omega
      rw [relocated_arrived _ (by omega), hindex, patch_outside _ (by omega)]
    · simp (disch := omega) only [relocated_other, patch_outside, List.getElem?_eq_none]

theorem roomMade_eq (hoff : offset ≤ xs.length) :
    roomMade e (fun k => xs[k]?) xs.length offset vs = fun k => (inserted xs offset vs)[k]? := by
  rw [roomMade]
  split_ifs with hle
  · by_cases hnone : vs.length = 0
    · obtain rfl : vs = [] := List.eq_nil_of_length_eq_zero hnone
      rw [List.length_nil, patch_zero, shifted, if_pos (.inl rfl), relocated_zero, inserted, List.append_nil,
        List.take_append_drop]
    · rw [shifted, if_neg (by omega)]
      exact cells_of_le (State.left e) e.moved hoff hle
  · exact cells_of_lt (State.left e) hoff (not_le.mp hle)

theorem insertNWithoutGrow_eq (hone : e.zeroedByMemset x = false) (m : Memory α) (offset count : Nat) :
    s.insertNWithoutGrow e offset count x m = s.insertWithoutGrow e offset (List.replicate count x) m := by
  simp only [State.insertNWithoutGrow, State.insertWithoutGrow, State.fillN, hone, Bool.false_eq_true, if_false,
    List.length_replicate, List.drop_replicate, List.take_replicate]
  split_ifs with hlt
  · rfl
  · rw [Nat.min_eq_left (Nat.le_of_not_le hlt)]

section

variable {construct : Memory α → Option Nat → Memory α}

def ConstructsList (s : State α) (construct : Memory α → Option Nat → Memory α) (pos : Nat) (vs : List α) : Prop :=
  ∀ m p, (∀ q, q ≠ p → m.block q = s.memory.block q) → s.memory.block p = none →
    construct m (some p) = m.constructList (some p) pos vs

theorem value_of_others (h : Owns e s.memory s.this) (hothers : ∀ q, q ≠ p → m.block q = s.memory.block q)
    (hp : s.memory.block p = none) (src : Source α) :
    src.value m s.this.buffer = src.value s.memory s.this.buffer := by
  cases src with
  | external => rfl
  | element i =>
    cases hb : s.this.buffer with
    | none => rfl
    | some q =>
      have hqp : q ≠ p := by
        rintro rfl
        exact h.buffer_ne hp hb
      exact congrFun (read_block (hothers q hqp)) i

theorem constructsList_fill (h : Owns e s.memory s.this) (hx : src.value s.memory s.this.buffer = some x)
    (pos count : Nat) :
    ConstructsList s (s.constructFill pos count src) pos (List.replicate count x) := by
  intro m p hothers hp
  simp [State.constructFill, Source.use, value_of_others h hothers hp src, hx]

theorem constructsList_one (h : Owns e s.memory s.this) (hx : src.value s.memory s.this.buffer = some x) (pos : Nat) :
    ConstructsList s (s.constructAt pos src) pos [x] :=
  constructsList_fill h hx pos 1

theorem block_allocated_ne (m : Memory α) (count size : Nat) (hq : q ≠ m.next) :
    (m.allocated count size).block q = m.block q :=
  Function.update_of_ne hq _ _

theorem grow_congr (hf : Fresh s.memory) (hc : ConstructsList s construct pos vs)
    (hc' : ConstructsList s construct' pos vs) :
    s.grow e adjust newCapacity adjustment construct transfer =
      s.grow e adjust newCapacity adjustment construct' transfer := by
  have hnone := hf _ le_rfl
  have hothers := fun q hq => block_allocated_ne s.memory newCapacity e.size (q := q) hq
  have hsame := (hc _ _ hothers hnone).trans (hc' _ _ hothers hnone).symm
  simp only [State.grow, State.growUnchecked, Memory.allocate]
  cases s.memory.fails s.memory.next with
  | true => rfl
  | false => simp [hsame]

theorem cells_of_shift (left : α → α) (hoff : offset ≤ xs.length) :
    patch (patch (patch (fun _ => none) offset vs.length fun k => vs[k]?) 0 offset fun k => xs[0 + k]?)
        (offset + vs.length) (xs.length - offset)
        (fun k => patch (fun k => xs[k]?) 0 offset (fun k => xs[0 + k]?.map left) (offset + k)) =
      fun k => (inserted xs offset vs)[k]? := by
  funext k
  by_cases hbefore : k < offset
  · simp (disch := omega) only [inserted_before, patch_outside, patch_inside, Nat.sub_zero, Nat.zero_add]
  by_cases hnew : k < offset + vs.length
  · simp (disch := omega) only [inserted_new, patch_outside, patch_inside]
  rw [inserted_behind hoff (by omega)]
  by_cases hold : k < xs.length + vs.length
  · have hindex : offset + (k - (offset + vs.length)) = k - vs.length := by omega
    rw [patch_inside _ (by omega), hindex, patch_outside _ (by omega)]
  · simp (disch := omega) only [patch_outside, List.getElem?_eq_none]

theorem fillsWith_shift (h : Contains e s xs) (hc : ConstructsList s construct offset vs) (hoff : offset ≤ xs.length)
    (hroom : xs.length + vs.length ≤ c) :
    FillsWith s construct (s.transferWithShiftRight e offset (offset + vs.length)) c
      fun k => (inserted xs offset vs)[k]? := by
  intro m p hothers hp hraw
  have hsize := h.size
  have hempty : m.read (some p) = fun _ => none := funext fun k => read_none hraw not_false
  have hnew := hraw.constructList offset vs (by omega) fun _ _ => not_false
  have h₁ := hnew.has.congr fun _ => or_iff_left not_false
  rw [hempty] at hnew
  rw [State.transferWithShiftRight, hc m p hothers hp]
  cases hb : s.this.buffer with
  | none =>
    obtain ⟨hzero, _⟩ := (owns_none hb).mp h.owns
    obtain rfl : xs = [] := List.eq_nil_of_length_eq_zero (by omega)
    obtain rfl : offset = 0 := Nat.le_zero.mp hoff
    rw [hzero]
    simp only [Memory.transferN, Nat.sub_self]
    rw [hnew.reads]
    have hcells : _ = fun k => (inserted ([] : List α) 0 vs)[k]? := cells_of_shift id (Nat.le_refl 0)
    rwa [List.length_nil, Nat.sub_self, patch_zero, patch_zero] at hcells
  | some q =>
    obtain ⟨hfit, hhas⟩ := (owns_some hb).mp h.owns
    have hqp : q ≠ p := by
      rintro rfl
      exact h.owns.buffer_ne hp hb
    have hold := hhas.of_block (hothers q hqp)
    have hold₁ := hold.frame hnew.only hqp
    have hsrc : (m.constructList (some p) offset vs).read (some q) = fun k => xs[k]? := by
      rw [read_only hnew.only hqp, read_block (hothers q hqp), ← hb]
      exact h.reads
    have hfront := hold₁.transferN (State.left e) hqp h₁ (i := 0) (j := 0) (n := offset) (by omega) (by omega)
      (fun _ hk => hk.lt (by omega)) (by unfold InRange; omega)
    have hback := hfront.source.transferN (State.left e) hqp hfront.target (i := offset) (j := offset + vs.length)
      (n := s.this.size - offset) (by omega) (by omega) (fun _ hk => hk.lt (by omega)) (by unfold InRange; omega)
    rw [hback.reads, hfront.reads, hfront.left, hnew.reads, hsrc, hsize]
    exact cells_of_shift (State.left e) hoff

theorem ConstructsList.constructsAt (hc : ConstructsList s construct pos vs) (hroom : pos + vs.length ≤ c) :
    ConstructsAt s construct c pos vs.length := by
  intro m p hothers hp hraw
  rw [hc m p hothers hp]
  exact constructsAt_list (s := s) vs hroom m p hothers hp hraw

theorem grow_contains (h : Contains e s xs) (hc : ConstructsList s construct offset vs)
    (hoff : offset ≤ xs.length) (hroom : xs.length + vs.length ≤ newCapacity) (hfit : newCapacity * e.size < 2 ^ 64)
    (ht : s.grow e true newCapacity vs.length construct (s.transferWithShiftRight e offset (offset + vs.length)) =
      .returned t) :
    Contains e t (inserted xs offset vs) ∧ t.memory.misuse = s.memory.misuse := by
  have hsize := h.size
  have hfills := fills_shift h.owns (hc.constructsAt (c := newCapacity) (by omega)) (by omega) (by omega)
  have hkeeps := grow_keeps (n := s.this.size + vs.length) h.owns h.fresh hfit (by omega) (if_pos rfl).symm hfills
  rw [ht] at hkeeps
  rw [State.grow] at ht
  split at ht
  · have hreads := growUnchecked_reads h.owns h.fresh hfit hfills (fillsWith_shift h hc hoff hroom) ht
    refine ⟨⟨hkeeps.owns, hkeeps.fresh, hreads, ?_⟩, hkeeps.misuse⟩
    rw [length_inserted, ← hsize]
    obtain rfl := State.eq_of_growUnchecked e s ht
    exact Nat.mod_eq_of_lt (lt_of_fits (by omega) hfit)
  · cases ht

theorem grow_returns (hmax : newCapacity ≤ maxSize) (hserved : s.memory.fails s.memory.next = false) :
    ∃ t, s.grow e adjust newCapacity adjustment construct transfer = .returned t := by
  rw [State.grow, if_pos hmax, State.growUnchecked_of_not_fails e s _ _ _ _ _ hserved]
  exact ⟨_, rfl⟩

theorem transferWithoutShift_eq (e : Element α) (s : State α) (r : Nat) :
    s.transferWithoutShift e = s.transferWithShiftRight e s.this.size r := by
  funext m p
  simp [State.transferWithoutShift, State.transferWithShiftRight, Memory.transferN]

end

section

variable (h : Contains e s xs)

include h

section
variable (hb : s.this.buffer = some q)
include hb

theorem inPlace_contains (hc : Changes s.memory q s.this.capacity m (fun i => i < n) cells) (hn : n ≤ s.this.capacity)
    (hcells : cells = fun k => vs[k]?) (hlen : n = vs.length) :
    Contains e ((s.withMemory m).setSize n) vs ∧ m.misuse = s.memory.misuse := by
  have hevolves := Evolves.inPlace hb h.owns h.fresh hc hn
  refine ⟨⟨hevolves.owns, hevolves.fresh, ?_, hlen⟩, hevolves.misuse⟩
  simp [State.setSize, State.withMemory, hb, hc.reads, hcells]

theorem Contains.cells : s.memory.read (some q) = fun k => xs[k]? := by
  rw [← hb]
  exact h.reads

theorem append_contains (hroom : s.this.size + vs.length ≤ s.this.capacity) :
    Contains e ((s.withMemory (s.memory.constructList (some q) s.this.size vs)).setSize (s.this.size + vs.length))
        (xs ++ vs) ∧
      (s.memory.constructList (some q) s.this.size vs).misuse = s.memory.misuse := by
  obtain ⟨_, hhas⟩ := (owns_some hb).mp h.owns
  refine inPlace_contains h hb (hhas.append vs hroom) hroom ?_ (by rw [List.length_append, h.size])
  rw [h.cells hb, h.size]
  funext k
  by_cases hk : k < xs.length
  · rw [patch_outside _ (by omega), List.getElem?_append_left hk]
  rw [List.getElem?_append_right (by omega)]
  by_cases hnew : k < xs.length + vs.length
  · rw [patch_inside _ (by omega)]
  · simp (disch := omega) only [patch_outside, List.getElem?_eq_none]

theorem insertWithoutGrow_contains (hoff : offset ≤ xs.length) (hroom : s.this.size + vs.length ≤ s.this.capacity) :
    Contains e ((s.withMemory (s.insertWithoutGrow e offset vs s.memory)).setSize (s.this.size + vs.length))
        (inserted xs offset vs) ∧
      (s.insertWithoutGrow e offset vs s.memory).misuse = s.memory.misuse := by
  have hsize := h.size
  obtain ⟨_, hhas⟩ := (owns_some hb).mp h.owns
  refine inPlace_contains h hb (insertWithoutGrow_spec vs hb hhas (by omega) hroom) hroom ?_
    (by rw [length_inserted, hsize])
  rw [h.cells hb, hsize]
  exact roomMade_eq hoff

end

theorem emplaceBack_contains (hx : src.value s.memory s.this.buffer = some x)
    (hfit : s.this.size = s.this.capacity → doubled s.this.capacity * e.size < 2 ^ 64)
    (ht : s.emplaceBack e src = .returned t) :
    Contains e t (xs ++ [x]) ∧ t.memory.misuse = s.memory.misuse := by
  rw [State.emplaceBack] at ht
  split_ifs at ht with hfull
  · have hroom := lt_doubled h.owns.1.1
    rw [h.size] at hroom
    rw [calcGrowth_eq (hfit hfull), transferWithoutShift_eq e s (s.this.size + 1), h.size] at ht
    have hgrown := grow_contains h (constructsList_one h.owns hx xs.length) le_rfl hroom (hfit hfull) ht
    rwa [inserted_end] at hgrown
  · have hle := h.owns.1.1
    obtain ⟨q, hb, _⟩ := h.owns.buffer (by omega)
    have happended : Contains e _ (xs ++ [x]) ∧ _ := append_contains h hb (by rw [List.length_singleton]; omega)
    rw [hb] at hx
    cases ht
    simp only [State.constructAt, Source.use, hx, hb]
    exact happended

end

end Ktl.VectorInsertion
