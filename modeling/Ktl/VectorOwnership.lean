import Ktl.ObjectRanges
import Ktl.Ownership
import Ktl.VectorCapacity

/-!
What the operations of one vector do to its buffer: the live objects are those in the slots
below the size, a buffer that is replaced is given back, and no other block changes.
-/
namespace Ktl.VectorOwnership

open ObjectMemory ObjectValues Ktl.Vector VectorCapacity Ownership Outcome

variable {α : Type} {e : Element α} {m : Memory α}

/-- The vector's buffer was made for `capacity()` objects and holds the first
`size()` of them. -/
def Owns (e : Element α) (m : Memory α) (v : Impl) : Prop :=
  (v.size ≤ v.capacity ∧ v.capacity * e.size < 2 ^ 64) ∧
    match v.buffer with
    | none => v.capacity = 0
    | some q => Has m q v.capacity fun i => i < v.size

theorem lt_of_fits (hn : n ≤ c) (hfit : c * e.size < 2 ^ 64) : n < 2 ^ 64 :=
  (hn.trans (Nat.le_mul_of_pos_right _ e.size_pos)).trans_lt hfit

theorem owns_none (h : v.buffer = none) : Owns e m v ↔ v.size = 0 ∧ v.capacity = 0 := by
  simp only [Owns, h]
  constructor
  · rintro ⟨⟨hsize, _⟩, hcap⟩
    omega
  · rintro ⟨hsize, hcap⟩
    simp [hsize, hcap]

theorem owns_some (h : v.buffer = some q) :
    Owns e m v ↔ (v.size ≤ v.capacity ∧ v.capacity * e.size < 2 ^ 64) ∧ Has m q v.capacity fun i => i < v.size := by
  simp [Owns, h]

section

variable (h : Owns e m v)

include h

theorem Owns.cases : (v.buffer = none ∧ v.size = 0 ∧ v.capacity = 0) ∨ ∃ q, v.buffer = some q ∧
    (v.size ≤ v.capacity ∧ v.capacity * e.size < 2 ^ 64) ∧ Has m q v.capacity fun i => i < v.size := by
  cases hb : v.buffer with
  | none => exact .inl ⟨rfl, (owns_none hb).mp h⟩
  | some q => exact .inr ⟨q, rfl, (owns_some hb).mp h⟩

theorem Owns.buffer (hpos : 0 < v.capacity) : ∃ q, v.buffer = some q ∧ Has m q v.capacity fun i => i < v.size := by
  obtain ⟨_, _, hzero⟩ | ⟨q, hb, _, hhas⟩ := h.cases
  · omega
  · exact ⟨q, hb, hhas⟩

theorem Owns.of_block (hblock : ∀ q, v.buffer = some q → m'.block q = m.block q) : Owns e m' v := by
  obtain ⟨hb, hzero⟩ | ⟨q, hb, hsize, hhas⟩ := h.cases
  · exact (owns_none hb).mpr hzero
  · exact (owns_some hb).mpr ⟨hsize, hhas.of_block (hblock q hb)⟩

theorem Owns.buffer_ne (hp : m.block p = none) : v.buffer ≠ some p := by
  intro hb
  obtain ⟨b, hb, _⟩ := ((owns_some hb).mp h).2
  rw [hp] at hb
  cases hb

theorem Owns.of_others (hp : m.block p = none) (hothers : ∀ q, q ≠ p → m'.block q = m.block q) :
    Owns e m' v := h.of_block fun q hq => hothers q fun he => h.buffer_ne hp (he ▸ hq)

end

/-- The vector keeps or replaces its buffer, and no other block changes. -/
structure Evolves (e : Element α) (m : Memory α) (v : Impl) (m' : Memory α) (v' : Impl) : Prop where
  owns : Owns e m' v'
  fresh : Fresh m'
  misuse : m'.misuse = m.misuse
  leaked : m'.leaked = m.leaked
  others : ∀ q, v.buffer ≠ some q → v'.buffer ≠ some q → m'.block q = m.block q
  released : ∀ q, v.buffer = some q → v'.buffer ≠ some q → m'.block q = none
  acquired : ∀ q, v'.buffer = some q → v.buffer ≠ some q → m.block q = none

theorem Evolves.sameBuffer (hb : v'.buffer = v.buffer) (h : Owns e m' v') (hf : Fresh m')
    (hmisuse : m'.misuse = m.misuse) (hleaked : m'.leaked = m.leaked)
    (hothers : ∀ q, v.buffer ≠ some q → m'.block q = m.block q) : Evolves e m v m' v' := by
  refine ⟨h, hf, hmisuse, hleaked, fun q hq _ => hothers q hq, ?_, ?_⟩
  · intro q hq hq'
    exact absurd (hb.trans hq) hq'
  · intro q hq' hq
    exact absurd (hb.symm.trans hq') hq

theorem Evolves.refl (h : Owns e m v) (hf : Fresh m) : Evolves e m v m v :=
  .sameBuffer rfl h hf rfl rfl fun _ _ => rfl

theorem Evolves.trans (h : Evolves e m v m' v') (h' : Evolves e m' v' m'' v'') : Evolves e m v m'' v'' := by
  constructor
  · exact h'.owns
  · exact h'.fresh
  · exact h'.misuse.trans h.misuse
  · exact h'.leaked.trans h.leaked
  · intro q hq hq''
    by_cases hq' : v'.buffer = some q
    · rw [h'.released q hq' hq'', h.acquired q hq' hq]
    · exact (h'.others q hq' hq'').trans (h.others q hq hq')
  · intro q hq hq''
    by_cases hq' : v'.buffer = some q
    · exact h'.released q hq' hq''
    · rw [h'.others q hq' hq'', h.released q hq hq']
  · intro q hq'' hq
    by_cases hq' : v'.buffer = some q
    · exact h.acquired q hq' hq
    · rw [← h.others q hq hq']
      exact h'.acquired q hq'' hq'

theorem Evolves.exchange (h : Evolves e m v m' v') :
    Exchange v.buffer v'.buffer (fun q => m.block q ≠ none) fun q => m'.block q ≠ none := by
  constructor
  · intro q hq hnone
    exact h.owns.buffer_ne hnone hq
  · intro q hq hq'
    rw [h.others q hq hq']
  · intro q hq hq'
    exact not_not_intro (h.released q hq hq')
  · intro q hq hq'
    exact not_not_intro (h.acquired q hq hq')

theorem Evolves.inPlace (hb : v.buffer = some q) (h : Owns e m v) (hf : Fresh m)
    (hc : Changes m q v.capacity m' (fun i => i < n) cells) (hn : n ≤ v.capacity) :
    Evolves e m v m' { v with size := n } := by
  obtain ⟨hsize, hold⟩ := (owns_some hb).mp h
  refine .sameBuffer rfl ?_ (hf.only hc.only ?_) hc.only.misuse hc.only.leaked ?_
  · exact (owns_some (v := { v with size := n }) hb).mpr ⟨⟨hn, hsize.2⟩, hc.has⟩
  · rintro q' rfl
    exact hold.lt_next hf
  · intro q' hq'
    apply hc.only.block
    rintro rfl
    exact hq' hb

theorem Evolves.refused (h : Owns e m v) (hf : Fresh m) : Evolves e m v { m with next := m.next + 1 } v :=
  .sameBuffer rfl h (fun q hq => hf q (Nat.le_of_succ_le hq)) rfl rfl fun _ _ => rfl

theorem Owns.transferN (left : α → α) (h : Owns e m v) (hp : Has m p c live) (hne : v.buffer ≠ some p)
    (hsrc : i + n ≤ v.size) (hdst : j + n ≤ c) (hraw : ∀ k, InRange j n k → ¬ live k) :
    Owns e (m.transferN left v.buffer i (some p) j n) v ∧
    Has (m.transferN left v.buffer i (some p) j n) p c (fun k => InRange j n k ∨ live k) ∧
    Only (fun q => q = p ∨ v.buffer = some q) m (m.transferN left v.buffer i (some p) j n) := by
  obtain ⟨hb, hzero, _⟩ | ⟨q, hb, hsize, hhas⟩ := h.cases
  · obtain rfl : n = 0 := by omega
    exact ⟨h, hp.congr filled_zero, Only.refl _ _⟩
  · have hqp : q ≠ p := by
      rintro rfl
      exact hne hb
    rw [hb]
    have hmoved := hhas.transferN left hqp hp (i := i) (by omega) hdst (fun _ hk => hk.lt hsrc) hraw
    constructor
    · exact (owns_some hb).mpr ⟨hsize, hmoved.source⟩
    constructor
    · exact hmoved.target
    · apply hmoved.only.mono
      rintro q' (rfl | rfl)
      · exact .inr rfl
      · exact .inl rfl

section

variable {s : State α} {construct transfer : Memory α → Option Nat → Memory α}

/-- The construction and the transfer fill the first `n` slots of a new block. -/
def Fills (e : Element α) (s : State α) (construct transfer : Memory α → Option Nat → Memory α) (c n : Nat) : Prop :=
  ∀ m p, (∀ q, q ≠ p → m.block q = s.memory.block q) → s.memory.block p = none → (Has m p c fun _ => False) →
    Owns e (transfer (construct m (some p)) (some p)) s.this ∧
    (Has (transfer (construct m (some p)) (some p)) p c fun i => i < n) ∧
    Only (fun q => q = p ∨ s.this.buffer = some q) m (transfer (construct m (some p)) (some p))

theorem Owns.destroyAndDeallocate (h : Owns e s.memory s.this) :
    (∀ q, s.this.buffer = some q → s.destroyAndDeallocate.block q = none) ∧
    (∀ q, s.this.buffer ≠ some q → s.destroyAndDeallocate.block q = s.memory.block q) ∧
    s.destroyAndDeallocate.next = s.memory.next ∧
    s.destroyAndDeallocate.misuse = s.memory.misuse ∧
    s.destroyAndDeallocate.leaked = s.memory.leaked := by
  obtain ⟨hb, hsize, _⟩ | ⟨q, hb, hsize, hhas⟩ := h.cases
  · simp [State.destroyAndDeallocate, hb, hsize, Memory.destroyN, Memory.deallocate]
  · obtain ⟨hgone, honly, _⟩ := hhas.destroyAll hsize.1
    obtain ⟨hblock, hnext, _, hmisuse, hleaked⟩ := hgone.deallocate
    simp only [State.destroyAndDeallocate, hb]
    constructor
    · rintro q' hq'
      obtain rfl : q = q' := by simpa using hq'
      rw [hblock, Function.update_self]
    constructor
    · intro q' hq'
      have he : q' ≠ q := by
        rintro rfl
        exact hq' rfl
      rw [hblock, Function.update_of_ne he, honly.block q' he]
    · exact ⟨hnext.trans honly.next, hmisuse.trans honly.misuse, hleaked.trans honly.leaked⟩

theorem growUnchecked_setSize_evolves (adjust : Bool) (adjustment : Nat) (h : Owns e s.memory s.this)
    (hf : Fresh s.memory) (hfit : newCapacity * e.size < 2 ^ 64) (hn : n ≤ newCapacity)
    (hfills : Fills e s construct transfer newCapacity n) :
    Evolves e s.memory s.this ((s.growUnchecked e adjust newCapacity adjustment construct transfer).map
        fun s => s.setSize n).state.memory
      ((s.growUnchecked e adjust newCapacity adjustment construct transfer).map fun s => s.setSize n).state.this := by
  cases hfail : s.memory.fails s.memory.next with
  | true =>
    rw [State.growUnchecked_of_fails e s hfail]
    exact Evolves.refused h hf
  | false =>
    have hnone := hf _ le_rfl
    have hne := h.buffer_ne hnone
    have hothers : ∀ q, q ≠ s.memory.next → (s.memory.allocated newCapacity e.size).block q = s.memory.block q := by
      intro q hq
      simp [Memory.allocated, hq]
    obtain ⟨hown₂, hnew, honly⟩ := hfills _ s.memory.next hothers hnone (has_allocated e.size_pos hfit)
    generalize hm₂ : transfer (construct (s.memory.allocated newCapacity e.size) (some s.memory.next))
      (some s.memory.next) = m₂ at hown₂ hnew honly
    obtain ⟨hgone, hkept, hnext, hmisuse, hleaked⟩ :=
      Owns.destroyAndDeallocate (s := s.withMemory m₂) hown₂
    rw [State.growUnchecked_of_not_fails e s _ _ _ _ _ hfail, hm₂, map_returned, state_returned]
    generalize (s.withMemory m₂).destroyAndDeallocate = m₃ at hgone hkept hnext hmisuse hleaked
    simp only [State.withMemory, State.setSize] at hgone hkept hnext hmisuse hleaked ⊢
    constructor
    · apply (owns_some (v := ⟨some s.memory.next, n, newCapacity⟩) rfl).mpr
      constructor
      · exact ⟨hn, hfit⟩
      · apply hnew.of_block
        exact hkept _ hne
    · intro q hq
      have hq' : s.memory.next + 1 ≤ q := by
        rw [hnext, honly.next] at hq
        exact hq
      have hne' : q ≠ s.memory.next := by omega
      by_cases hold : s.this.buffer = some q
      · exact hgone q hold
      · rw [hkept q hold, honly.block q (by simp [hold, hne']), hothers q hne']
        exact hf q (by omega)
    · exact hmisuse.trans honly.misuse
    · exact hleaked.trans honly.leaked
    · intro q hq hq'
      have hq'' : q ≠ s.memory.next := by
        rintro rfl
        exact hq' rfl
      have hkeep := honly.block q (by simp [hq, hq''])
      rw [hkept q hq, hkeep, hothers q hq'']
    · intro q hq _
      exact hgone q hq
    · intro q hq _
      obtain rfl : s.memory.next = q := by simpa using hq
      exact hnone

theorem growUnchecked_evolves (h : Owns e s.memory s.this) (hf : Fresh s.memory)
    (hfit : newCapacity * e.size < 2 ^ 64) (hn : n ≤ newCapacity)
    (hsize : n = if adjust then s.this.size + adjustment else s.this.size)
    (hfills : Fills e s construct transfer newCapacity n) :
    Evolves e s.memory s.this (s.growUnchecked e adjust newCapacity adjustment construct transfer).state.memory
      (s.growUnchecked e adjust newCapacity adjustment construct transfer).state.this := by
  have hsize' : (if adjust then (s.this.size + adjustment) % 2 ^ 64 else s.this.size) = n := by
    cases adjust with
    | false => exact hsize.symm
    | true =>
      simp only [if_true] at hsize ⊢
      rw [← hsize, Nat.mod_eq_of_lt (lt_of_fits hn hfit)]
  have hsame : (s.growUnchecked e adjust newCapacity adjustment construct transfer).map
      (fun s => s.setSize n) = s.growUnchecked e adjust newCapacity adjustment construct transfer := by
    cases hfail : s.memory.fails s.memory.next with
    | true => rw [State.growUnchecked_of_fails e s hfail, map_threw]
    | false => rw [State.growUnchecked_of_not_fails e s _ _ _ _ _ hfail, map_returned, hsize', State.setSize]
  have hevolves := growUnchecked_setSize_evolves adjust adjustment h hf hfit hn hfills
  rwa [hsame] at hevolves

end

section

variable {s : State α} {construct : Memory α → Option Nat → Memory α}

def Valid (src : Source α) (n : Nat) : Prop :=
  match src with
  | .external _ => True
  | .element i => i < n

theorem value_of_valid (h : Owns e m v) (hsrc : Valid src v.size) : ∃ x, src.value m v.buffer = some x := by
  cases src with
  | external x => exact ⟨x, rfl⟩
  | element i =>
    simp only [Valid] at hsrc
    have hle := h.1.1
    obtain ⟨q, hb, hhas⟩ := h.buffer (by omega)
    rw [hb]
    exact hhas.read (i := i) (by omega) hsrc

theorem use_of_valid (h : Owns e m v) (hsrc : Valid src v.size) : ∃ x, ∀ f, src.use m v.buffer f = f m x := by
  obtain ⟨x, hx⟩ := value_of_valid h hsrc
  exact ⟨x, fun f => by simp only [Source.use, hx]⟩

/-- The construction handler fills the slots `[pos, pos + k)` of a new block. -/
def ConstructsAt (s : State α) (construct : Memory α → Option Nat → Memory α) (c pos k : Nat) : Prop :=
  ∀ m p, (∀ q, q ≠ p → m.block q = s.memory.block q) → s.memory.block p = none → (Has m p c fun _ => False) →
    Has (construct m (some p)) p c (InRange pos k) ∧ Only (· = p) m (construct m (some p))

theorem constructsAt_list (vs : List α) (hroom : pos + vs.length ≤ c) :
    ConstructsAt s (fun m p => m.constructList p pos vs) c pos vs.length := by
  intro m p _ _ hraw
  obtain ⟨hhas, honly, _⟩ := hraw.constructList pos vs hroom (by simp)
  exact ⟨hhas.congr (by simp), honly⟩

theorem constructsAt_keep : ConstructsAt s State.keep c pos 0 := by
  intro m p _ _ hraw
  exact ⟨hraw.congr (by simp [not_inRange_zero]), Only.refl _ _⟩

theorem constructsAt_copy (hother : Owns e s.memory other) (hroom : other.size ≤ c) :
    ConstructsAt s (fun m p => m.copyN other.buffer 0 p 0 other.size) c 0 other.size := by
  intro m p hothers hp hraw
  obtain ⟨_, hsize, _⟩ | ⟨q, hb, hsize, hhas⟩ := hother.cases
  · rw [hsize]
    exact constructsAt_keep m p hothers hp hraw
  · have hne : q ≠ p := by
      rintro rfl
      exact hother.buffer_ne hp hb
    simp only [hb]
    obtain ⟨hcopy, honly, _⟩ := (hhas.of_block (hothers q hne)).copyN hne hraw (i := 0) (j := 0)
      (n := other.size) (by omega) (by omega) (fun _ hk => hk.lt (by omega)) (by simp)
    exact ⟨hcopy.congr (by simp), honly⟩

section

variable (h : Owns e s.memory s.this)

include h

theorem constructsAt_fill (hsrc : Valid src s.this.size) (hroom : pos + k ≤ c) :
    ConstructsAt s (s.constructFill pos k src) c pos k := by
  intro m p hothers hp hraw
  obtain ⟨x, hx⟩ := use_of_valid (h.of_others hp hothers) hsrc
  have hlist := constructsAt_list (s := s) (c := c) (List.replicate k x) (by simpa using hroom) m p hothers hp hraw
  simpa only [State.constructFill, hx, List.length_replicate] using hlist

theorem constructsAt_one (hsrc : Valid src s.this.size) (hroom : pos < c) :
    ConstructsAt s (s.constructAt pos src) c pos 1 := by
  intro m p hothers hp hraw
  exact constructsAt_fill h hsrc (k := 1) hroom m p hothers hp hraw

theorem fills_keep (hc : ConstructsAt s construct c 0 k) : Fills e s construct State.keep c k := by
  intro m p hothers hp hraw
  obtain ⟨hhas, honly⟩ := hc m p hothers hp hraw
  constructor
  · exact (h.of_others hp hothers).of_block fun q hq => honly.block q fun he => h.buffer_ne hp (he ▸ hq)
  constructor
  · apply hhas.congr
    unfold InRange
    omega
  · exact honly.mono fun q hq => .inl hq

theorem fills_shift (hc : ConstructsAt s construct c pos k) (hpos : pos ≤ s.this.size) (hroom : s.this.size + k ≤ c) :
    Fills e s construct (s.transferWithShiftRight e pos (pos + k)) c (s.this.size + k) := by
  intro m p hothers hp hraw
  obtain ⟨hhas, honly⟩ := hc m p hothers hp hraw
  have hne := h.buffer_ne hp
  have hown₁ := (h.of_others hp hothers).of_block fun q hq => honly.block q fun he => hne (he ▸ hq)
  obtain ⟨hown₂, hhas₂, honly₂⟩ := hown₁.transferN (State.left e) hhas hne (i := 0) (j := 0)
    (n := pos) (by omega) (by omega) (by unfold InRange; omega)
  obtain ⟨hown₃, hhas₃, honly₃⟩ := hown₂.transferN (State.left e) hhas₂ hne (i := pos)
    (j := pos + k) (n := s.this.size - pos) (by omega) (by omega) (by unfold InRange; omega)
  constructor
  · exact hown₃
  constructor
  · apply hhas₃.congr
    unfold InRange
    omega
  · exact ((honly.mono fun q hq => .inl hq).trans honly₂).trans honly₃

theorem fills_noShift (hc : ConstructsAt s construct c s.this.size k) (hroom : s.this.size + k ≤ c) :
    Fills e s construct (s.transferWithoutShift e) c (s.this.size + k) := by
  intro m p hothers hp hraw
  have hshift := fills_shift (e := e) h hc le_rfl hroom m p hothers hp hraw
  simpa only [State.transferWithShiftRight, State.transferWithoutShift, Nat.sub_self, Memory.transferN] using hshift

end

end

section

variable {s : State α}

def Keeps (e : Element α) (s : State α) (r : Result α) : Prop :=
  Evolves e s.memory s.this r.state.memory r.state.this

theorem keeps_returned (h : Evolves e s.memory s.this s'.memory s'.this) : Keeps e s (.returned s') := h

section

variable {cells : Nat → Option α}

theorem inPlace_keeps (h : Owns e s.memory s.this) (hf : Fresh s.memory) (hb : s.this.buffer = some q)
    (hc : Changes s.memory q s.this.capacity m (fun i => i < n) cells) (hn : n ≤ s.this.capacity) :
    Keeps e s (.returned ((s.withMemory m).setSize n)) :=
  Evolves.inPlace hb h hf hc hn

def shifted (e : Element α) (cells : Nat → Option α) (first last offset : Nat) : Nat → Option α :=
  if offset = 0 ∨ last - first < offset then cells
  else relocated e.moved cells first (first + offset) (last - first - offset)

theorem shiftRight_spec (first last offset : Nat) (hhas : Has m q c fun i => i < n) (hlast : last ≤ n) (hn : n ≤ c) :
    Changes m q c (State.shiftRight e m (some q) first last offset) (fun i => i < n)
      (shifted e (m.read (some q)) first last offset) := by
  unfold State.shiftRight shifted
  split
  · exact hhas.unchanged
  · exact hhas.moveBackwardN e.moved (by omega) (by omega) (fun _ hk => hk.lt (by omega)) fun _ hk => hk.lt (by omega)

theorem fillN_spec (first count : Nat) (v : α) (hhas : Has m q c fun i => i < n) (hend : first + count ≤ n)
    (hn : n ≤ c) :
    ∃ cells, Changes m q c (State.fillN e m (some q) first count v) (fun i => i < n) cells := by
  have hbytes : count / e.size ≤ count := Nat.div_le_self _ _
  rw [State.fillN]
  split
  · have hwhole := hhas.overwrite first (List.replicate (count / e.size) v) (by rw [List.length_replicate]; omega) hn
    split_ifs with hrest
    · exact ⟨_, hwhole⟩
    · have hmod : e.size * (count / e.size) + count % e.size = count := Nat.div_add_mod _ _
      have hfull : count / e.size ≤ e.size * (count / e.size) := Nat.le_mul_of_pos_left _ e.size_pos
      obtain ⟨m₂, y, htake, _, hlast⟩ := hwhole.has.take (i := first + count / e.size) (by omega) (by omega)
        (e.zeroFirst (count % e.size)) (fun m _ => m)
      rw [htake]
      exact ⟨_, hwhole.trans hlast⟩
  · exact ⟨_, hhas.overwrite first (List.replicate count v) (by rw [List.length_replicate]; omega) hn⟩

theorem insertNWithoutGrow_spec (count : Nat) (v : α) (hb : s.this.buffer = some q)
    (hhas : Has m q s.this.capacity fun i => i < s.this.size) (hoff : offset ≤ s.this.size)
    (hroom : s.this.size + count ≤ s.this.capacity) :
    ∃ cells, Changes m q s.this.capacity (s.insertNWithoutGrow e offset count v m)
      (fun i => i < s.this.size + count) cells := by
  unfold State.insertNWithoutGrow
  simp only [hb]
  split
  · have h₁ := hhas.transferBehind (State.left e) (i := offset + (s.this.size - offset - count)) (k := count)
      (by omega) hroom
    have h₂ := shiftRight_spec (e := e) offset s.this.size count h₁.has (by omega) hroom
    obtain ⟨_, h₃⟩ := fillN_spec (e := e) offset count v h₂.has (by omega) hroom
    exact ⟨_, (h₁.trans h₂).trans h₃⟩
  · have h₁ := hhas.append (List.replicate (count - (s.this.size - offset)) v) (by rw [List.length_replicate]; omega)
    rw [List.length_replicate] at h₁
    have h₂ := h₁.has.transferBehind (State.left e) (i := offset) (k := s.this.size - offset) (by omega) (by omega)
    obtain ⟨_, h₃⟩ := fillN_spec (e := e) offset (s.this.size - offset) v h₂.has (by omega) (by omega)
    exact ⟨_, ((h₁.trans h₂).trans h₃).congr (by omega) rfl⟩

def roomMade (e : Element α) (cells : Nat → Option α) (size offset : Nat) (vs : List α) : Nat → Option α :=
  if vs.length ≤ size - offset then
    patch (shifted e (relocated (State.left e) cells (offset + (size - offset - vs.length)) size vs.length)
      offset size vs.length) offset vs.length fun k => vs[k]?
  else
    patch (relocated (State.left e) (patch cells size (vs.length - (size - offset))
      fun k => (vs.drop (size - offset))[k]?)
      offset (size + (vs.length - (size - offset))) (size - offset)) offset (size - offset)
      fun k => (vs.take (size - offset))[k]?

theorem insertWithoutGrow_spec (vs : List α) (hb : s.this.buffer = some q)
    (hhas : Has m q s.this.capacity fun i => i < s.this.size) (hoff : offset ≤ s.this.size)
    (hroom : s.this.size + vs.length ≤ s.this.capacity) :
    Changes m q s.this.capacity (s.insertWithoutGrow e offset vs m) (fun i => i < s.this.size + vs.length)
      (roomMade e (m.read (some q)) s.this.size offset vs) := by
  unfold State.insertWithoutGrow roomMade
  simp only [hb]
  split
  · have h₁ := hhas.transferBehind (State.left e) (i := offset + (s.this.size - offset - vs.length)) (k := vs.length)
      (by omega) hroom
    have h₂ := shiftRight_spec (e := e) offset s.this.size vs.length h₁.has (by omega) hroom
    have h₃ := h₂.has.overwrite offset vs (by omega) hroom
    rw [h₂.reads, h₁.reads] at h₃
    exact (h₁.trans h₂).trans h₃
  · have hdrop : (vs.drop (s.this.size - offset)).length = vs.length - (s.this.size - offset) := List.length_drop
    have htake : (vs.take (s.this.size - offset)).length = s.this.size - offset := by
      rw [List.length_take]
      omega
    have h₁ := hhas.append (vs.drop (s.this.size - offset)) (by omega)
    rw [hdrop] at h₁
    have h₂ := h₁.has.transferBehind (State.left e) (i := offset) (k := s.this.size - offset) (by omega) (by omega)
    have h₃ := h₂.has.overwrite offset (vs.take (s.this.size - offset)) (by omega) (by omega)
    rw [h₂.reads, h₁.reads, htake] at h₃
    exact ((h₁.trans h₂).trans h₃).congr (by omega) rfl

theorem emplace_inside (m : Memory α) (x : α) (hb : s.this.buffer = some q) (hoff : offset < s.this.size) :
    (State.shiftRight e (m.take (some q) (s.this.size - 1) (State.left e) fun m v => m.construct (some q) s.this.size v)
      (some q) offset s.this.size 1).assign (some q) offset x = s.insertWithoutGrow e offset [x] m := by
  have hlast : offset + (s.this.size - offset - 1) = s.this.size - 1 := by omega
  simp only [State.insertWithoutGrow, List.length_singleton, hb, hlast, Memory.transferN, Memory.assignList]
  rw [if_pos (by omega)]

theorem rotate_spec (first newFirst last : Nat) (hhas : Has m q c fun i => i < n) (hn : n ≤ c) (hlast : last ≤ n)
    (hfirst : first ≤ newFirst) (hnew : newFirst ≤ last) :
    ∃ cells, Changes m q c (rotate m (some q) first newFirst last) (fun i => i < n) cells := by
  rw [rotate]
  split
  · exact ⟨_, hhas.unchanged⟩
  · have h₁ := hhas.reverse (i := first) (n := newFirst - first) (by omega) fun _ hk => hk.lt (by omega)
    have h₂ := h₁.has.reverse (i := newFirst) (n := last - newFirst) (by omega) fun _ hk => hk.lt (by omega)
    have h₃ := h₂.has.reverse (i := first) (n := last - first) (by omega) fun _ hk => hk.lt (by omega)
    exact ⟨_, (h₁.trans h₂).trans h₃⟩

end

def doubled (capacity : Nat) : Nat := max 1 (capacity * 2)

theorem lt_doubled (hsize : size ≤ capacity) : size < doubled capacity := by
  unfold doubled
  omega

theorem calcGrowth_eq (hfit : doubled capacity * e.size < 2 ^ 64) : calcGrowth capacity = doubled capacity := by
  have hlt := lt_of_fits le_rfl hfit
  unfold doubled at hlt
  unfold calcGrowth calcGrowthUnchecked maxSize doubled
  by_cases hzero : capacity = 0
  · subst hzero
    decide
  · rw [if_neg (by omega), if_neg hzero, Nat.mod_eq_of_lt (by omega)]
    omega

def insertCapacity (v : Impl) (n : Nat) : Nat := max (doubled v.capacity) (v.size + n)

theorem calcOptimalGrowth_eq (hfit : insertCapacity s.this n * e.size < 2 ^ 64) :
    calcOptimalGrowth s.this.capacity ((s.this.size + n) % 2 ^ 64) = insertCapacity s.this n := by
  have hdouble := (Nat.mul_le_mul_right _ (Nat.le_max_left _ _)).trans_lt hfit
  have hsum := lt_of_fits (Nat.le_max_right _ _) hfit
  rw [calcOptimalGrowth, calcGrowth_eq hdouble, Nat.mod_eq_of_lt hsum, insertCapacity]

theorem appendNSwapped_keeps (x : α) (h : Owns e s.memory s.this) (hf : Fresh s.memory)
    (hroom : s.this.size + e.toCount x ≤ s.this.capacity) :
    Keeps e s (.returned (s.appendNSwapped e count x)) := by
  have hlen : (List.replicate (e.toCount x) (e.ofCount count)).length = e.toCount x :=
    List.length_replicate
  have hsum := Nat.mod_eq_of_lt (lt_of_fits hroom h.1.2)
  obtain ⟨hb, hsize, hcap⟩ | ⟨q, hb, hsize, hhas⟩ := h.cases
  · have hzero : e.toCount x = 0 := by omega
    simp only [State.appendNSwapped, hsum]
    simp only [hzero, List.replicate_zero, Memory.constructList]
    exact Evolves.refl h hf
  · have hnew := hhas.append (List.replicate (e.toCount x) (e.ofCount count)) (by omega)
    rw [hlen] at hnew
    simp only [State.appendNSwapped, hsum, hb]
    exact inPlace_keeps h hf hb hnew hroom

def growths (size capacity : Nat) : Nat → List Nat
  | 0 => []
  | n + 1 =>
    if size = capacity then doubled capacity :: growths (size + 1) (doubled capacity) n
    else growths (size + 1) capacity n

def nextCapacity (size capacity : Nat) : Nat := if size = capacity then doubled capacity else capacity

theorem forall_growths_succ {p : Nat → Prop} : (∀ c ∈ growths size capacity (n + 1), p c) ↔
      (size = capacity → p (doubled capacity)) ∧ ∀ c ∈ growths (size + 1) (nextCapacity size capacity) n, p c := by
  by_cases hfull : size = capacity <;> simp [growths, nextCapacity, hfull]

theorem length_growths_succ : (growths size capacity (n + 1)).length =
    (if size = capacity then 1 else 0) + (growths (size + 1) (nextCapacity size capacity) n).length := by
  by_cases hfull : size = capacity <;> simp [growths, nextCapacity, hfull, Nat.add_comm]

theorem emplaceBack_returned (hs : s.emplaceBack e src = .returned s')
    (hfit : s.this.size = s.this.capacity → doubled s.this.capacity * e.size < 2 ^ 64) :
    s'.this.size = s.this.size + 1 ∧
    s'.this.capacity = nextCapacity s.this.size s.this.capacity := by
  rw [nextCapacity]
  rw [State.emplaceBack, State.grow] at hs
  split at hs
  · rename_i hfull
    rw [if_pos hfull]
    have hgrown := calcGrowth_eq (hfit hfull)
    have hlt := lt_of_fits (lt_doubled hfull.le) (hfit hfull)
    split at hs
    · obtain rfl := State.eq_of_growUnchecked e s hs
      exact ⟨Nat.mod_eq_of_lt hlt, hgrown⟩
    · cases hs
  · rename_i hroom
    cases hs
    rw [if_neg hroom]
    exact ⟨rfl, rfl⟩

theorem emplaceBack_returns (src : Source α)
    (hfit : s.this.size = s.this.capacity → doubled s.this.capacity * e.size < 2 ^ 64)
    (hserved : s.this.size = s.this.capacity → s.memory.fails s.memory.next = false) :
    ∃ s', s.emplaceBack e src = .returned s' ∧ s'.memory.fails = s.memory.fails ∧
      s'.memory.next = s.memory.next + if s.this.size = s.this.capacity then 1 else 0 := by
  rw [State.emplaceBack]
  split_ifs with hfull
  · have hlt := lt_of_fits le_rfl (hfit hfull)
    have hle : calcGrowth s.this.capacity ≤ maxSize := by
      rw [calcGrowth_eq (hfit hfull)]
      unfold doubled at hlt ⊢
      unfold maxSize
      omega
    have hret := State.growUnchecked_of_not_fails e s true (calcGrowth s.this.capacity) 1
      (s.constructAt s.this.size src) (s.transferWithoutShift e) (hserved hfull)
    obtain ⟨hnext, hfails⟩ := growUnchecked_next handler_at handler_transfer hret
    rw [State.grow, if_pos hle]
    exact ⟨_, hret, hfails, hnext⟩
  · have hsame : SameBlocks s.memory (s.constructAt s.this.size src s.memory s.this.buffer) :=
      handler_at _ _
    exact ⟨_, rfl, hsame.fails, hsame.next⟩

theorem appendEach_returns (hfit : ∀ c ∈ growths s.this.size s.this.capacity vs.length, c * e.size < 2 ^ 64)
    (hserved : ∀ k < (growths s.this.size s.this.capacity vs.length).length,
      s.memory.fails (s.memory.next + k) = false) :
    ∃ s', appendEach e s vs = .returned s' := by
  induction vs generalizing s with
  | nil => exact ⟨s, rfl⟩
  | cons x vs ih =>
    obtain ⟨hdouble, hlater⟩ := forall_growths_succ.mp hfit
    rw [List.length_cons, length_growths_succ] at hserved
    have hfirst : s.this.size = s.this.capacity → s.memory.fails s.memory.next = false := by
      intro hfull
      rw [if_pos hfull] at hserved
      exact hserved 0 (by omega)
    obtain ⟨s', hs', hfails, hnext⟩ := emplaceBack_returns (.external x) hdouble hfirst
    obtain ⟨hsize, hcap⟩ := emplaceBack_returned hs' hdouble
    rw [appendEach, hs', andThen_returned]
    apply ih
    · rwa [hsize, hcap]
    · rw [hsize, hcap, hfails, hnext]
      intro k hk
      rw [Nat.add_assoc]
      exact hserved _ (by omega)

theorem appendEach_of_room (hroom : s.this.size + vs.length ≤ s.this.capacity) :
    appendEach e s vs = .returned ((s.withMemory
      (s.memory.constructList s.this.buffer s.this.size vs)).setSize (s.this.size + vs.length)) := by
  induction vs generalizing s with
  | nil => rfl
  | cons x vs ih =>
    simp only [List.length_cons] at hroom ⊢
    have hnotFull : s.this.size ≠ s.this.capacity := by omega
    rw [appendEach]
    rw [State.emplaceBack, if_neg hnotFull, andThen_returned]
    rw [ih (by simp only [State.setSize, State.withMemory]; omega)]
    simp [State.setSize, State.withMemory, State.constructAt, Source.use, Source.value, Memory.constructList,
      Nat.add_assoc, Nat.add_comm 1]

section
variable (h : Owns e s.memory s.this) (hf : Fresh s.memory)
include h hf

theorem grow_keeps (hfit : newCapacity * e.size < 2 ^ 64) (hn : n ≤ newCapacity)
    (hsize : n = if adjust then s.this.size + adjustment else s.this.size)
    (hfills : Fills e s construct transfer newCapacity n) :
    Keeps e s (s.grow e adjust newCapacity adjustment construct transfer) := by
  rw [State.grow]
  split
  · exact growUnchecked_evolves h hf hfit hn hsize hfills
  · exact Evolves.refl h hf

theorem emplaceBack_keeps (hsrc : Valid src s.this.size)
    (hfit : s.this.size = s.this.capacity → doubled s.this.capacity * e.size < 2 ^ 64) :
    Keeps e s (s.emplaceBack e src) := by
  rw [State.emplaceBack]
  split_ifs with hfull
  · have hgrown := calcGrowth_eq (hfit hfull)
    have hroom := lt_doubled h.1.1
    rw [hgrown]
    exact grow_keeps h hf (hfit hfull) hroom rfl (fills_noShift h (constructsAt_one h hsrc (by omega)) hroom)
  · have hle := h.1.1
    obtain ⟨q, hb, hhas⟩ := h.buffer (by omega)
    obtain ⟨x, hx⟩ := use_of_valid h hsrc
    rw [hb] at hx
    have hnew := hhas.construct (i := s.this.size) (v := x) (by omega) (by omega)
    simp only [State.constructAt, hb, hx]
    exact inPlace_keeps h hf hb (hnew.congr (by omega) rfl) (by omega)

theorem popBack_keeps (hpos : 0 < s.this.size) : Keeps e s (.returned s.popBack) := by
  have hle := h.1.1
  obtain ⟨q, hb, hhas⟩ := h.buffer (by omega)
  have hnew := hhas.destroy (i := s.this.size - 1) (by omega) (by omega)
  simp only [State.popBack, hb]
  exact inPlace_keeps h hf hb (hnew.congr (by omega) rfl) (by omega)

theorem emplace_keeps (hsrc : Valid src s.this.size) (hoff : offset ≤ s.this.size)
    (hfit : s.this.size = s.this.capacity → doubled s.this.capacity * e.size < 2 ^ 64) :
    Keeps e s (s.emplace e offset src) := by
  rw [State.emplace]
  split
  · exact emplaceBack_keeps h hf hsrc hfit
  · split
    · rename_i hfull
      have hroom := lt_doubled h.1.1
      rw [calcGrowth_eq (hfit hfull)]
      exact grow_keeps h hf (hfit hfull) hroom rfl (fills_shift h (constructsAt_one h hsrc (by omega)) hoff hroom)
    · rename_i hend hroom
      have hle := h.1.1
      obtain ⟨q, hb, hhas⟩ := h.buffer (by omega)
      obtain ⟨x, hx⟩ := use_of_valid h hsrc
      rw [hb] at hx
      have hnew := insertWithoutGrow_spec (e := e) [x] hb hhas hoff (by rw [List.length_singleton]; omega)
      simp only [hx, hb, emplace_inside s.memory x hb (show offset < s.this.size by omega)]
      exact inPlace_keeps h hf hb hnew (by omega)

theorem insert_grow_keeps (hoff : offset ≤ s.this.size) (hfit : insertCapacity s.this n * e.size < 2 ^ 64)
    (hc : ConstructsAt s construct (insertCapacity s.this n) offset n) :
    Keeps e s (s.grow e true (calcOptimalGrowth s.this.capacity ((s.this.size + n) % 2 ^ 64)) n construct
      (s.transferWithShiftRight e offset (offset + n))) := by
  have hroom : s.this.size + n ≤ insertCapacity s.this n := Nat.le_max_right _ _
  rw [calcOptimalGrowth_eq hfit]
  exact grow_keeps h hf hfit hroom rfl (fills_shift h hc hoff hroom)

theorem insertForward_keeps (hoff : offset ≤ s.this.size) (hsum : s.this.size + vs.length < 2 ^ 64)
    (hfit : s.this.capacity < s.this.size + vs.length → insertCapacity s.this vs.length * e.size < 2 ^ 64) :
    Keeps e s (s.insertForward e offset vs) := by
  simp only [State.insertForward, Nat.mod_eq_of_lt hsum]
  split
  · rename_i hgrow
    have hkeep := insert_grow_keeps h hf hoff (hfit hgrow)
      (constructsAt_list (s := s) vs (by unfold insertCapacity; omega))
    rwa [Nat.mod_eq_of_lt hsum] at hkeep
  · rename_i hroom
    obtain ⟨_, hsize, hcap⟩ | ⟨q, hb, hsize, hhas⟩ := h.cases
    · obtain rfl : vs = [] := List.eq_nil_of_length_eq_zero (by omega)
      have hend : offset = s.this.size := by omega
      rw [if_pos hend]
      exact Evolves.refl h hf
    · rw [hb]
      split
      · exact inPlace_keeps h hf hb (hhas.append vs (not_lt.mp hroom)) (by omega)
      · exact inPlace_keeps h hf hb (insertWithoutGrow_spec vs hb hhas hoff (by omega)) (by omega)

theorem insertN_keeps (hsrc : Valid src s.this.size) (hoff : offset ≤ s.this.size)
    (hsum : s.this.size + count < 2 ^ 64)
    (hfit : s.this.capacity < s.this.size + count → insertCapacity s.this count * e.size < 2 ^ 64)
    (hend : s.this.size + count ≤ s.this.capacity → offset = s.this.size →
      ∀ x ∈ src.value s.memory s.this.buffer, s.this.size + e.toCount x ≤ s.this.capacity) :
    Keeps e s (s.insertN e offset count src) := by
  simp only [State.insertN, Nat.mod_eq_of_lt hsum]
  split
  · rename_i hgrow
    have hkeep := insert_grow_keeps h hf hoff (hfit hgrow)
      (constructsAt_fill (k := count) h hsrc (by unfold insertCapacity; omega))
    rwa [Nat.mod_eq_of_lt hsum] at hkeep
  · rename_i hroom
    split_ifs with hlast
    · obtain ⟨x, hx⟩ := value_of_valid h hsrc
      simp only [hx]
      exact appendNSwapped_keeps x h hf (hend (by omega) hlast x hx)
    · have hle := h.1.1
      obtain ⟨q, hb, hhas⟩ := h.buffer (by omega)
      obtain ⟨x, hx⟩ := use_of_valid h hsrc
      obtain ⟨_, hnew⟩ := insertNWithoutGrow_spec (e := e) count x hb hhas hoff (by omega)
      simp only [hx]
      exact inPlace_keeps h hf hb hnew (by omega)

theorem appendEach_keeps (hfit : ∀ c ∈ growths s.this.size s.this.capacity vs.length, c * e.size < 2 ^ 64) :
    Keeps e s (appendEach e s vs) := by
  induction vs generalizing s with
  | nil => exact Evolves.refl h hf
  | cons x vs ih =>
    obtain ⟨hdouble, hlater⟩ := forall_growths_succ.mp hfit
    have hfirst : Keeps e s (s.emplaceBack e (.external x)) := emplaceBack_keeps h hf trivial hdouble
    rw [appendEach]
    cases hr : s.emplaceBack e (.external x) with
    | threw err s' =>
      rw [hr] at hfirst
      exact hfirst
    | returned s' =>
      rw [hr] at hfirst
      obtain ⟨hsize', hcap'⟩ := emplaceBack_returned hr hdouble
      apply Evolves.trans hfirst
      apply ih hfirst.owns hfirst.fresh
      rwa [state_returned, hsize', hcap']

theorem insertInput_keeps (hoff : offset ≤ s.this.size) (hroom : s.this.size + vs.length ≤ s.this.capacity) :
    Keeps e s (s.insertInput e offset vs) := by
  rw [State.insertInput, appendEach_of_room hroom, map_returned]
  simp only [State.setSize, State.withMemory, if_true]
  apply keeps_returned
  obtain ⟨_, hsize, hcap⟩ | ⟨q, hb, hsize, hhas⟩ := h.cases
  · obtain rfl : vs = [] := List.eq_nil_of_length_eq_zero (by omega)
    simp only [Memory.constructList, rotate, List.length_nil, Nat.add_zero, true_or, if_true]
    exact Evolves.refl h hf
  · have h₁ := hhas.append vs hroom
    obtain ⟨_, h₂⟩ := rotate_spec offset (offset + vs.length) (s.this.size + vs.length) h₁.has hroom (by omega)
      (by omega)
      (by omega)
    have hevolves := Evolves.inPlace hb h hf (h₁.trans h₂) hroom
    simpa only [hb] using hevolves

theorem clear_keeps : Keeps e s (.returned s.clear) := by
  apply keeps_returned
  obtain ⟨hb, hsize, hcap⟩ | ⟨q, hb, hsize, hhas⟩ := h.cases
  · simp only [State.clear, hsize, Memory.destroyN, State.withMemory, State.setSize]
    rw [← hsize]
    exact Evolves.refl h hf
  · simp only [State.clear, hb]
    exact inPlace_keeps h hf hb (hhas.truncate (Nat.zero_le _) hsize.1) (Nat.zero_le _)

theorem reserve_keeps (hfit : s.this.capacity < newCapacity → newCapacity * e.size < 2 ^ 64) :
    Keeps e s (s.reserve e newCapacity) := by
  rw [State.reserve]
  split_ifs with hgrow
  · have hroom := h.1.1.trans hgrow.le
    exact grow_keeps h hf (hfit hgrow) hroom rfl (fills_noShift h constructsAt_keep hroom)
  · exact Evolves.refl h hf

theorem shrinkToFit_keeps : Keeps e s (s.shrinkToFit e) := by
  rw [State.shrinkToFit]
  split
  · have hfit := (Nat.mul_le_mul_right _ h.1.1).trans_lt h.1.2
    exact grow_keeps h hf hfit le_rfl rfl (fills_noShift h constructsAt_keep le_rfl)
  · exact Evolves.refl h hf

theorem resize_keeps (hsrc : Valid (value.getD (.external e.initial)) s.this.size)
    (hfit : s.this.capacity < count → count * e.size < 2 ^ 64) : Keeps e s (s.resize e count value) := by
  have hle := h.1.1
  unfold State.resize State.resizeImpl
  split
  · rename_i hless
    obtain ⟨q, hb, hhas⟩ := h.buffer (by omega)
    rw [hb]
    exact inPlace_keeps h hf hb (hhas.truncate hless.le hle) (by omega)
  · rename_i hnotLess
    split
    · rename_i hmore
      split_ifs with hroom
      · obtain ⟨q, hb, hhas⟩ := h.buffer (by omega)
        obtain ⟨x, hx⟩ := use_of_valid h hsrc
        rw [hb] at hx
        have hlen : (List.replicate (count - s.this.size) x).length = count - s.this.size :=
          List.length_replicate
        have hnew := hhas.append (List.replicate (count - s.this.size) x) (by omega)
        simp only [State.constructFill, hb, hx]
        exact inPlace_keeps h hf hb (hnew.congr (by omega) rfl) hroom
      · have hsum : s.this.size + (count - s.this.size) = count := by omega
        rw [State.grow]
        split
        · have hfills := fills_noShift (c := count) (k := count - s.this.size) h
            (constructsAt_fill h hsrc (by omega)) (by omega)
          rw [hsum] at hfills
          exact growUnchecked_setSize_evolves _ _ h hf (hfit (by omega)) le_rfl hfills
        · exact Evolves.refl h hf
    · have hsame : count = s.this.size := by omega
      subst hsame
      exact Evolves.refl h hf

end

theorem owns_empty : Owns e m Impl.empty := (owns_none rfl).mpr ⟨rfl, rfl⟩

theorem construct_keeps (hf : Fresh m) (hfit : n * e.size < 2 ^ 64) (hc : ConstructsAt ⟨m, .empty⟩ construct n 0 n) :
    Keeps e ⟨m, .empty⟩ (State.grow e ⟨m, .empty⟩ true n n construct State.keep) :=
  grow_keeps owns_empty hf hfit le_rfl (Nat.zero_add n).symm (fills_keep owns_empty hc)

theorem constructCount_keeps (hf : Fresh m) (hfit : count * e.size < 2 ^ 64) :
    Keeps e ⟨m, .empty⟩ (State.constructCount e ⟨m, .empty⟩ count x) := by
  apply construct_keeps hf hfit
  have hroom : 0 + (List.replicate count x).length ≤ count := by simp
  have hlist := constructsAt_list (s := ⟨m, .empty⟩) (List.replicate count x) hroom
  rwa [List.length_replicate] at hlist

theorem constructMeasured_keeps (hf : Fresh m) (hfit : vs.length * e.size < 2 ^ 64) :
    Keeps e ⟨m, .empty⟩ (State.constructMeasured e ⟨m, .empty⟩ vs) :=
  construct_keeps hf hfit (constructsAt_list _ (by simp))

def LeavesNone (r : Result α) : Prop := ∀ err s', r = .threw err s' → s'.this.buffer = none

theorem growUnchecked_leavesNone :
    LeavesNone (State.growUnchecked e ⟨m, .empty⟩ adjust newCapacity adjustment construct transfer) := by
  intro err s' hs
  cases hfail : m.fails m.next with
  | true =>
    rw [State.growUnchecked_of_fails e ⟨m, .empty⟩ hfail] at hs
    cases hs
    rfl
  | false =>
    rw [State.growUnchecked_of_not_fails e ⟨m, .empty⟩ _ _ _ _ _ hfail] at hs
    cases hs

theorem grow_leavesNone : LeavesNone (State.grow e ⟨m, .empty⟩ adjust newCapacity adjustment construct transfer) := by
  rw [State.grow]
  split
  · exact growUnchecked_leavesNone
  · intro err s' hs
    cases hs
    rfl

theorem appendEach_leavesNone (hfit : ∀ c ∈ growths 0 0 vs.length, c * e.size < 2 ^ 64)
    (hserved : m.fails m.next = true ∨ ∀ k < (growths 0 0 vs.length).length, m.fails (m.next + k) = false) :
    LeavesNone (appendEach e ⟨m, .empty⟩ vs) := by
  rcases hserved with href | hserved
  · cases vs with
    | nil =>
      intro err s' hs
      cases hs
    | cons x vs =>
      have hfirst : State.emplaceBack e ⟨m, .empty⟩ (.external x) =
          .threw .badAlloc ⟨{ m with next := m.next + 1 }, .empty⟩ := by
        show State.growUnchecked e ⟨m, .empty⟩ true 1 1 _ _ = _
        exact State.growUnchecked_of_fails e ⟨m, .empty⟩ href
      intro err s' hs
      rw [appendEach, hfirst] at hs
      cases hs
      rfl
  · obtain ⟨s', hs'⟩ := appendEach_returns (s := ⟨m, .empty⟩) hfit hserved
    intro err s'' hs
    rw [hs'] at hs
    cases hs

theorem clone_keeps (hother : Owns e m other) (hf : Fresh m) :
    Keeps e ⟨m, .empty⟩ (State.clone e ⟨m, .empty⟩ other) := by
  have hfit := (Nat.mul_le_mul_right _ hother.1.1).trans_lt hother.1.2
  exact growUnchecked_evolves owns_empty hf hfit le_rfl (Nat.zero_add _).symm
    (fills_keep owns_empty (constructsAt_copy hother le_rfl))

theorem Owns.readN_values (h : Owns e m v) : (m.readN v.buffer 0 v.size).1 = m ∧
      (m.readN v.buffer 0 v.size).2.map some = (List.range v.size).map (m.read v.buffer) := by
  obtain ⟨_, hsize, _⟩ | ⟨q, hb, hsize, hhas⟩ := h.cases
  · simp [hsize, Memory.readN]
  · rw [hb]
    simpa only [Nat.zero_add] using hhas.readN (i := 0) (n := v.size) (by omega) fun _ hk => hk.lt (by omega)

theorem Owns.readN (h : Owns e m v) :
    (m.readN v.buffer 0 v.size).1 = m ∧ (m.readN v.buffer 0 v.size).2.length = v.size := by
  obtain ⟨hsame, hvalues⟩ := h.readN_values
  exact ⟨hsame, by simpa using congrArg List.length hvalues⟩

section

variable (h : Owns e s.memory s.this)

include h

theorem assignRange_keeps (hf : Fresh s.memory) (hfit : vs.length * e.size < 2 ^ 64)
    (hnot : s.this.size < vs.length → vs.length ≤ s.this.capacity → s.this.size = 0) :
    Keeps e s (s.assignRange e vs) := by
  unfold State.assignRange
  split
  · have hclear := clear_keeps h hf
    have hsize : vs.length = s.clear.this.size + vs.length := (Nat.zero_add _).symm
    apply Evolves.trans hclear
    exact growUnchecked_evolves hclear.owns hclear.fresh hfit le_rfl hsize
      (fills_keep hclear.owns (constructsAt_list _ (by simp)))
  · rename_i hroom
    obtain ⟨hb, hsize, hcap⟩ | ⟨q, hb, hsize, hhas⟩ := h.cases
    · obtain rfl : vs = [] := List.eq_nil_of_length_eq_zero (by omega)
      simp only [hsize, List.length_nil, Nat.le_refl, if_true, Memory.assignList, Nat.sub_self,
        Memory.destroyN, State.withMemory, State.setSize]
      apply keeps_returned
      rw [← hsize]
      exact Evolves.refl h hf
    · rw [hb]
      split
      · rename_i hle
        have h₁ := hhas.overwrite 0 vs (by omega) hsize.1
        exact inPlace_keeps h hf hb (h₁.trans (h₁.has.truncate hle hsize.1)) (by omega)
      · have hzero := hnot (by omega) (by omega)
        have hnew := hhas.append vs (by omega)
        simp only [hzero, if_true, Nat.sub_zero, List.take_length, Nat.zero_add] at hnew ⊢
        exact inPlace_keeps h hf hb hnew (by omega)

theorem copyAssign_keeps (hother : Owns e s.memory other) (hf : Fresh s.memory)
    (hnot : s.this.size < other.size → other.size ≤ s.this.capacity → s.this.size = 0) :
    Keeps e s (s.copyAssign e other) := by
  obtain ⟨hmemory, hlen⟩ := hother.readN
  have hfit := (Nat.mul_le_mul_right _ hother.1.1).trans_lt hother.1.2
  simp only [State.copyAssign, hmemory]
  rw [← hlen] at hfit hnot
  exact assignRange_keeps h hf hfit hnot

theorem Owns.release (hf : Fresh s.memory) : Evolves e s.memory s.this s.destroyAndDeallocate .empty := by
  obtain ⟨hgone, hkept, hnext, hmisuse, hleaked⟩ := h.destroyAndDeallocate
  constructor
  · exact owns_empty
  · intro q hq
    rw [hnext] at hq
    by_cases hold : s.this.buffer = some q
    · exact hgone q hold
    · rw [hkept q hold]
      exact hf q hq
  · exact hmisuse
  · exact hleaked
  · intro q hq _
    exact hkept q hq
  · intro q hq _
    exact hgone q hq
  · intro q hq
    cases hq

theorem copyAssignUnequal_keeps (hother : Owns e s.memory other) (hf : Fresh s.memory)
    (hne : ∀ q, other.buffer = some q → s.this.buffer ≠ some q) : Keeps e s (s.copyAssignUnequal e other) := by
  have hrelease := h.release hf
  have hother' := hother.of_block fun q hq => hrelease.others q (hne q hq) (by simp [Impl.empty])
  exact hrelease.trans (clone_keeps hother' hrelease.fresh)

end

end

end Ktl.VectorOwnership
