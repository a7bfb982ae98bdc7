import Ktl.Ownership
import Ktl.WinntString

/-!
What the operations of one string do to its buffer: a block that is replaced is given back,
and no other block changes.
-/
namespace Ktl.StringOwnership

open TextMemory Ownership WinntString

variable {α : Type} {f : Format} {m m' : Memory α}

section

theorem maxSize_eq : f.maxSize = if f.charSize = 1 then 65534 else 32767 := by
  rcases f.charSize_eq with h | h <;> simp [Format.maxSize, Format.toChars, h]

theorem maxSize_lt : f.maxSize < 2 ^ 16 := by
  rw [maxSize_eq]
  split <;> decide

def Fits (f : Format) (n : Nat) : Prop := n * f.charSize < 2 ^ 16

theorem Fits.le (h : Fits f c) (hn : n ≤ c) : Fits f n :=
  (Nat.mul_le_mul_right _ hn).trans_lt h

theorem fits_of_le (hn : n ≤ f.maxSize) : Fits f n := by
  rw [maxSize_eq] at hn
  unfold Fits
  rcases f.charSize_eq with h | h <;> simp only [h, Nat.reduceEqDiff, if_true, if_false] at hn ⊢ <;> omega

theorem mod_of_le (hn : n ≤ f.maxSize) : n % 2 ^ 16 = n :=
  Nat.mod_eq_of_lt (hn.trans_lt maxSize_lt)

theorem Fits.lt (h : Fits f n) : n < 2 ^ 16 := by
  unfold Fits at h
  rcases f.charSize_eq with h' | h' <;> rw [h'] at h <;> omega

theorem toChars_mul : f.toChars (n * f.charSize) = n := by
  unfold Format.toChars
  rcases f.charSize_eq with h | h <;> rw [h] <;> omega

theorem Fits.toBytes (h : Fits f n) : f.toBytes n = n * f.charSize := Nat.mod_eq_of_lt h
theorem Fits.toChars (h : Fits f n) : f.toChars (f.toBytes n) = n := by
  rw [h.toBytes, toChars_mul]

end

def smallCapacity (f : Format) : Nat := f.toChars (f.toBytes f.sso)

theorem smallCapacity_le : smallCapacity f ≤ f.sso := by
  unfold smallCapacity Format.toChars Format.toBytes
  rcases f.charSize_eq with h | h <;> rw [h] <;> omega

theorem fits_smallCapacity : Fits f (smallCapacity f) := by
  unfold Fits smallCapacity Format.toChars Format.toBytes
  rcases f.charSize_eq with h | h <;> rw [h] <;> omega

def held (v : Native) : Option Nat :=
  match v.buffer with
  | .inside _ => none
  | .heap q => some q

/-- The capacity says whether the buffer is the string's own or a block, made for that capacity. -/
def Placed (f : Format) (m : Memory α) (home : Nat) (v : Native) : Prop :=
  if v.capacity f ≤ f.sso then v.buffer = .inside home
  else ∃ q, v.buffer = .heap q ∧ (m.block q).map Block.count = some (v.capacity f)

structure Owns (f : Format) (m : Memory α) (home : Nat) (v : Native) : Prop where
  small : m.small = f.sso
  length : v.length = v.size f * f.charSize
  maximum : v.maximumLength = v.capacity f * f.charSize
  fits : Fits f (v.capacity f)
  size_le : v.size f ≤ v.capacity f
  base : smallCapacity f ≤ v.capacity f
  placed : Placed f m home v

theorem placed_small (h : Placed f m home v) (hsmall : v.capacity f ≤ f.sso) : v.buffer = .inside home := by
  rwa [Placed, if_pos hsmall] at h

theorem placed_heap (h : Placed f m home v) (hlarge : f.sso < v.capacity f) :
    ∃ q, v.buffer = .heap q ∧ (m.block q).map Block.count = some (v.capacity f) := by
  rwa [Placed, if_neg hlarge.not_ge] at h

theorem held_heap (h : v.buffer = .heap q) : held v = some q := by simp [held, h]
theorem held_inside (h : v.buffer = .inside i) : held v = none := by simp [held, h]

theorem buffer_of_held (h : held v = some q) : v.buffer = .heap q := by
  unfold held at h
  split at h
  · cases h
  · rename_i q' hq
    cases h
    exact hq

theorem Owns.capacity_le_room (h : Owns f m home v) : v.capacity f ≤ m.room v.buffer := by
  by_cases hsmall : v.capacity f ≤ f.sso
  · rw [placed_small h.placed hsmall]
    exact hsmall.trans h.small.symm.le
  · obtain ⟨q, hq, hcount⟩ := placed_heap h.placed (not_le.mp hsmall)
    simp [hq, Memory.room, hcount]

theorem Owns.block_ne (h : Owns f m home v) (hq : held v = some q) : m.block q ≠ none := by
  have hb := buffer_of_held hq
  by_cases hsmall : v.capacity f ≤ f.sso
  · rw [placed_small h.placed hsmall] at hb
    cases hb
  · obtain ⟨q', hq', hcount⟩ := placed_heap h.placed (not_le.mp hsmall)
    obtain rfl : q = q' := by simpa [hb] using hq'
    intro hnone
    simp [hnone] at hcount

theorem Owns.of_count (h : Owns f m home v) (hsmall : m'.small = m.small)
    (hcount : ∀ q, held v = some q → (m'.block q).map Block.count = (m.block q).map Block.count) :
    Owns f m' home v := by
  constructor
  · exact hsmall.trans h.small
  · exact h.length
  · exact h.maximum
  · exact h.fits
  · exact h.size_le
  · exact h.base
  · have hplaced := h.placed
    unfold Placed at hplaced ⊢
    split_ifs with hle
    · rwa [if_pos hle] at hplaced
    · rw [if_neg hle] at hplaced
      obtain ⟨q, hq, hc⟩ := hplaced
      exact ⟨q, hq, (hcount q (held_heap hq)).trans hc⟩

/-- The string keeps or replaces its buffer, and no other block changes its count. -/
structure Evolves (f : Format) (home : Nat) (m : Memory α) (v : Native) (m' : Memory α) (v' : Native) : Prop where
  owns : Owns f m' home v'
  fresh : Fresh m'
  small : m'.small = m.small
  fails : m'.fails = m.fails
  misuse : m'.misuse = m.misuse
  others : ∀ q, held v ≠ some q → held v' ≠ some q → (m'.block q).map Block.count = (m.block q).map Block.count
  released : ∀ q, held v = some q → held v' ≠ some q → m'.block q = none
  acquired : ∀ q, held v' = some q → held v ≠ some q → m.block q = none

theorem map_count_none (h : m.block q = none) : (m.block q).map Block.count = none := by rw [h, Option.map_none]
theorem block_none_of_count (h : (m.block q).map Block.count = none) : m.block q = none :=
  Option.map_eq_none_iff.mp h

theorem Evolves.trans (h : Evolves f home m v m' v') (h' : Evolves f home m' v' m'' v'') :
    Evolves f home m v m'' v'' := by
  constructor
  · exact h'.owns
  · exact h'.fresh
  · exact h'.small.trans h.small
  · exact h'.fails.trans h.fails
  · exact h'.misuse.trans h.misuse
  · intro q hq hq''
    by_cases hq' : held v' = some q
    · rw [h'.released q hq' hq'', h.acquired q hq' hq]
    · exact (h'.others q hq' hq'').trans (h.others q hq hq')
  · intro q hq hq''
    by_cases hq' : held v' = some q
    · exact h'.released q hq' hq''
    · apply block_none_of_count
      rw [h'.others q hq' hq'', h.released q hq hq', Option.map_none]
  · intro q hq'' hq
    by_cases hq' : held v' = some q
    · exact h.acquired q hq' hq
    · apply block_none_of_count
      rw [← h.others q hq hq', h'.acquired q hq'' hq', Option.map_none]

theorem Evolves.exchange (h : Evolves f home m v m' v') :
    Exchange (held v) (held v') (fun q => m.block q ≠ none) fun q => m'.block q ≠ none := by
  constructor
  · intro q hq
    exact h.owns.block_ne hq
  · intro q hq hq'
    have hcount := h.others q hq hq'
    constructor
    · intro hne hnone
      exact hne (block_none_of_count (hcount.trans (map_count_none hnone)))
    · intro hne hnone
      exact hne (block_none_of_count (hcount.symm.trans (map_count_none hnone)))
  · intro q hq hq'
    exact not_not_intro (h.released q hq hq')
  · intro q hq hq'
    exact not_not_intro (h.acquired q hq hq')

theorem Evolves.of_writes (hown : Owns f m home v') (hf : Fresh m) (hw : Writes p m m') (hheld : held v' = held v) :
    Evolves f home m v m' v' := by
  constructor
  · exact hown.of_count hw.small fun q _ => hw.count q
  · exact hf.tame hw.toTame
  · exact hw.small
  · exact hw.fails
  · exact hw.clean
  · intro q _ _
    exact hw.count q
  · intro q hq hq'
    exact absurd (hheld.trans hq) hq'
  · intro q hq hq'
    exact absurd (hheld.symm.trans hq) hq'

section

variable (h : Owns f m home v) (hf : Fresh m)

include h hf

theorem Evolves.refl : Evolves f home m v m v :=
  ⟨h, hf, rfl, rfl, rfl, fun _ _ _ => rfl, fun _ h h' => absurd h h', fun _ h h' => absurd h h'⟩

theorem Evolves.refused : Evolves f home m v { m with next := m.next + 1 } v := by
  constructor
  · exact h.of_count rfl fun _ _ => rfl
  · intro q hq
    exact hf q (Nat.le_of_succ_le hq)
  · rfl
  · rfl
  · rfl
  · intro q _ _
    rfl
  · intro q hq hq'
    exact absurd hq hq'
  · intro q hq hq'
    exact absurd hq hq'

theorem Evolves.inPlace (hw : Writes v.buffer m m') (hn : n ≤ v.capacity f) :
    Evolves f home m v m' { v with length := n * f.charSize } ∧
      ({ v with length := n * f.charSize } : Native).size f = n := by
  have hsize : ({ v with length := n * f.charSize } : Native).size f = n := toChars_mul
  refine ⟨.of_writes ?_ hf hw rfl, hsize⟩
  exact ⟨h.small, by rw [hsize], h.maximum, h.fits, by rwa [hsize], h.base, h.placed⟩

end

section

variable {s : State α} {P : List (Option α) → Prop}

theorem Owns.destroy (h : Owns f s.memory s.home s.str) : (∀ q, held s.str = some q → (s.destroy f).block q = none) ∧
    (∀ q, held s.str ≠ some q → (s.destroy f).block q = s.memory.block q) ∧
    (s.destroy f).small = s.memory.small ∧ (s.destroy f).next = s.memory.next ∧
    (s.destroy f).fails = s.memory.fails ∧ (s.destroy f).misuse = s.memory.misuse ∧
    (s.destroy f).inside = s.memory.inside := by
  unfold State.destroy
  by_cases hsmall : s.capacity f ≤ f.sso
  · have hnone := held_inside (placed_small h.placed hsmall)
    simp [hsmall, hnone]
  · obtain ⟨q, hq, hcount⟩ := placed_heap h.placed (not_le.mp hsmall)
    obtain ⟨b, hb, hcount⟩ := Option.map_eq_some_iff.mp hcount
    have hdealloc := deallocate_eq hb
    rw [hcount] at hdealloc
    rw [if_neg hsmall, hq, State.capacity, hdealloc, held_heap hq]
    constructor
    · rintro q' hq'
      obtain rfl : q = q' := by simpa using hq'
      simp
    constructor
    · intro q' hq'
      have hne : q' ≠ q := by
        rintro rfl
        exact hq' rfl
      simp [hne]
    · exact ⟨rfl, rfl, rfl, rfl, rfl⟩

theorem growUnchecked_of_small (hsmall : newCapacity ≤ f.sso) : s.growUnchecked f newCapacity transfer = .returned
      ⟨(s.withMemory (transfer s.memory (.inside s.home) (s.size f) s.str.buffer).1).destroy f, s.home,
        ⟨.inside s.home, f.toBytes (transfer s.memory (.inside s.home) (s.size f) s.str.buffer).2,
          f.toBytes newCapacity⟩⟩ := by
  simp only [State.growUnchecked, State.newBuffer, if_pos hsmall]
  rfl

theorem growUnchecked_of_fails (hlarge : f.sso < newCapacity) (hfail : s.memory.fails s.memory.next = true) :
    s.growUnchecked f newCapacity transfer =
      .threw .badAlloc (s.withMemory { s.memory with next := s.memory.next + 1 }) := by
  simp [State.growUnchecked, State.newBuffer, hlarge.not_ge, Memory.allocate, hfail]

theorem growUnchecked_of_heap (hlarge : f.sso < newCapacity) (hserved : s.memory.fails s.memory.next = false)
    (ht : transfer (s.memory.allocated newCapacity) (.heap s.memory.next) (s.size f) s.str.buffer = t) :
    s.growUnchecked f newCapacity transfer = .returned
      ⟨(s.withMemory t.1).destroy f, s.home, ⟨.heap s.memory.next, f.toBytes t.2, f.toBytes newCapacity⟩⟩ := by
  subst ht
  simp only [State.growUnchecked, State.newBuffer, if_neg hlarge.not_ge, Memory.allocate,
    hserved, Bool.false_eq_true, if_false, Option.map_some]
  rfl

/-- What a transfer does with a buffer `p` that is large enough: it leaves `n`
characters there. -/
def Transfers (f : Format) (s : State α) (transfer : Transfer α) (newCapacity n : Nat)
    (P : List (Option α) → Prop) : Prop :=
  ∀ m p t, newCapacity ≤ m.room p → s.size f ≤ m.room s.str.buffer →
    (newCapacity ≤ f.sso ∨ p ≠ s.str.buffer) → m.load s.str.buffer 0 (s.size f) = s.content f →
    transfer m p (s.size f) s.str.buffer = t → t.2 = n ∧ Writes p m t.1 ∧ P (t.1.load p 0 n)

structure Grown (f : Format) (s : State α) (newCapacity n : Nat) (P : List (Option α) → Prop)
    (s' : State α) : Prop where
  home : s'.home = s.home
  evolves : Evolves f s.home s.memory s.str s'.memory s'.str
  size : s'.size f = n
  capacity : s'.capacity f = newCapacity
  text : P (s'.content f)
  kept : ∀ p, p ≠ s'.str.buffer → (∀ q, held s.str = some q → p ≠ .heap q) → s'.memory.cell p = s.memory.cell p
  moved : ∀ q, held s.str = some q → held s'.str ≠ some q
  next : s'.memory.next = s.memory.next + if f.sso < newCapacity then 1 else 0

theorem owns_new (hsmall : m.small = f.sso) (hn : n ≤ newCapacity) (hfits : Fits f newCapacity)
    (hbase : smallCapacity f ≤ newCapacity)
    (hp : if newCapacity ≤ f.sso then p = .inside home else ∃ q, p = .heap q ∧
      (m.block q).map Block.count = some newCapacity) :
    Owns f m home ⟨p, f.toBytes n, f.toBytes newCapacity⟩ := by
  have hsize : (⟨p, f.toBytes n, f.toBytes newCapacity⟩ : Native).size f = n := (hfits.le hn).toChars
  have hcap : (⟨p, f.toBytes n, f.toBytes newCapacity⟩ : Native).capacity f = newCapacity := hfits.toChars
  constructor
  · exact hsmall
  · rw [hsize]
    exact (hfits.le hn).toBytes
  · rw [hcap]
    exact hfits.toBytes
  · rwa [hcap]
  · rwa [hsize, hcap]
  · rwa [hcap]
  · unfold Placed
    rwa [hcap]

section
variable (h : Owns f s.memory s.home s.str) (hf : Fresh s.memory) (hmore : s.capacity f ≤ newCapacity)
  (hfits : Fits f newCapacity)
include h hf hmore hfits

theorem grown_small (hn : n ≤ newCapacity) (hsmall : newCapacity ≤ f.sso)
    (htr : Transfers f s transfer newCapacity n P) :
    ∃ s', s.growUnchecked f newCapacity transfer = .returned s' ∧ Grown f s newCapacity n P s' := by
  have hown := hmore.trans hsmall
  have hbuf := placed_small h.placed hown
  have hroom := hsmall.trans h.small.symm.le
  have hdestroy : ∀ m : Memory α, (s.withMemory m).destroy f = m := fun m => if_pos hown
  obtain ⟨hcount, hw, htext⟩ := htr s.memory (.inside s.home) _ hroom
    (h.size_le.trans h.capacity_le_room) (.inl hsmall) rfl rfl
  have hheld := held_inside hbuf
  have hsize := (hfits.le hn).toChars
  rw [growUnchecked_of_small hsmall, hdestroy, hcount]
  generalize (transfer s.memory (.inside s.home) (s.size f) s.str.buffer).1 = m₁ at hw htext
  refine ⟨_, rfl, ?_⟩
  constructor
  · rfl
  · exact .of_writes (owns_new h.small hn hfits (h.base.trans hmore) (by rw [if_pos hsmall])) hf hw hheld.symm
  · exact hsize
  · exact hfits.toChars
  · rw [State.content, State.size, Native.size, hsize]
    exact htext
  · intro p hp _
    exact hw.others p hp
  · intro q hq
    rw [hheld] at hq
    cases hq
  · rw [if_neg hsmall.not_gt]
    exact hw.next

theorem grown_heap (hn : n ≤ newCapacity) (hlarge : f.sso < newCapacity)
    (hserved : s.memory.fails s.memory.next = false) (htr : Transfers f s transfer newCapacity n P) :
    ∃ s', s.growUnchecked f newCapacity transfer = .returned s' ∧ Grown f s newCapacity n P s' := by
  have hnone := hf _ le_rfl
  have hnew : held s.str ≠ some s.memory.next := fun hq => h.block_ne hq hnone
  have hne : s.str.buffer ≠ .heap s.memory.next := fun hb => hnew (held_heap hb)
  have hothers : ∀ q, q ≠ s.memory.next → (s.memory.allocated newCapacity).block q = s.memory.block q := by
    intro q hq
    simp [Memory.allocated, hq]
  have hown : Owns f (s.memory.allocated newCapacity) s.home s.str := by
    have hsmall : (s.memory.allocated newCapacity).small = s.memory.small := rfl
    apply h.of_count hsmall
    intro q hq
    rw [hothers q]
    rintro rfl
    exact hnew hq
  have hload : (s.memory.allocated newCapacity).load s.str.buffer 0 (s.size f) = s.content f := by
    apply load_congr
    intro k _ _
    rw [cell_allocated hne]
  generalize ht : transfer (s.memory.allocated newCapacity) (.heap s.memory.next) (s.size f) s.str.buffer = t
  obtain ⟨hcount, hw, htext⟩ := htr _ (.heap s.memory.next) t room_allocated.symm.le
    (hown.size_le.trans hown.capacity_le_room) (.inr hne.symm) hload ht
  have hown₁ := hown.of_count hw.small fun q _ => hw.count q
  obtain ⟨hgone, hkept, hsmall, hnext, hfails, hmisuse, hinside⟩ :=
    Owns.destroy (s := s.withMemory t.1) hown₁
  rw [growUnchecked_of_heap hlarge hserved ht, hcount]
  generalize (s.withMemory t.1).destroy f = m₂ at hgone hkept hsmall hnext hfails hmisuse hinside
  simp only [State.withMemory] at hgone hkept hsmall hnext hfails hmisuse hinside
  have hcounts : ∀ q, q ≠ s.memory.next → held s.str ≠ some q →
      (m₂.block q).map Block.count = (s.memory.block q).map Block.count := by
    intro q hq hq'
    rw [hkept q hq', hw.count q, hothers q hq]
  have hblock : (m₂.block s.memory.next).map Block.count = some newCapacity := by
    rw [hkept _ hnew, hw.count]
    simp [Memory.allocated]
  have hsize := (hfits.le hn).toChars
  refine ⟨_, rfl, ?_⟩
  constructor
  · rfl
  · constructor
    · exact owns_new (hsmall.trans hown₁.small) hn hfits (h.base.trans hmore)
        (by rw [if_neg hlarge.not_ge]; exact ⟨_, rfl, hblock⟩)
    · intro q hq
      have hq' : s.memory.next + 1 ≤ q := by
        rw [hnext, hw.next] at hq
        exact hq
      by_cases hold : held s.str = some q
      · exact hgone q hold
      · apply block_none_of_count
        rw [hcounts q (by omega) hold, hf q (by omega), Option.map_none]
    · exact hsmall.trans hw.small
    · exact hfails.trans hw.fails
    · exact hmisuse.trans hw.clean
    · intro q hq hq'
      apply hcounts q _ hq
      rintro rfl
      exact hq' rfl
    · intro q hq _
      exact hgone q hq
    · intro q hq _
      obtain rfl : s.memory.next = q := by simpa [held] using hq
      exact hnone
  · exact hsize
  · exact hfits.toChars
  · rw [State.content, State.size, Native.size, hsize]
    have hcell : m₂.cell (.heap s.memory.next) = t.1.cell (.heap s.memory.next) := by
      funext k
      simp only [Memory.cell]
      rw [hkept _ hnew]
    rw [load_of_cell hcell]
    exact htext
  · intro p hp hold
    have hcell : m₂.cell p = t.1.cell p := by
      funext k
      cases p with
      | inside j => simp only [Memory.cell, hinside]
      | heap q =>
        simp only [Memory.cell]
        rw [hkept q fun hq => hold q hq rfl]
    rw [hcell, hw.others p hp, cell_allocated hp]
  · rintro q hq hq'
    obtain rfl : s.memory.next = q := by simpa [held] using hq'
    exact hnew hq
  · rw [if_pos hlarge]
    exact hnext.trans hw.next

theorem growUnchecked_cases (hn : n ≤ newCapacity) (htr : Transfers f s transfer newCapacity n P) :
    (∃ s', s.growUnchecked f newCapacity transfer = .returned s' ∧ Grown f s newCapacity n P s') ∨
    s.memory.fails s.memory.next = true ∧ s.growUnchecked f newCapacity transfer =
      .threw .badAlloc (s.withMemory { s.memory with next := s.memory.next + 1 }) := by
  by_cases hsmall : newCapacity ≤ f.sso
  · exact .inl (grown_small h hf hmore hfits hn hsmall htr)
  · have hlarge := not_le.mp hsmall
    cases hfail : s.memory.fails s.memory.next with
    | true => exact .inr ⟨rfl, growUnchecked_of_fails hlarge hfail⟩
    | false => exact .inl (grown_heap h hf hmore hfits hn hlarge hfail htr)

end

theorem transfers_without_shift (hn : s.size f ≤ newCapacity) :
    Transfers f s transferWithoutShift newCapacity (s.size f) (· = s.content f) := by
  intro m p t hroom hsrc _ hload ht
  subst ht
  obtain ⟨hw, hcell⟩ := writes_copy m p 0 s.str.buffer 0 (s.size f) (by omega) (by omega) (by simp [Memory.Overlap])
  have htext := load_overwrite hcell
  rw [length_load, load_zero, List.nil_append, Nat.zero_add, hload] at htext
  exact ⟨rfl, hw, htext⟩

theorem transfers_dummy (hzero : s.size f = 0) : Transfers f s dummyTransfer newCapacity 0 (· = []) := by
  intro m p t _ _ _ _ ht
  subst ht
  exact ⟨hzero, Writes.refl p m, rfl⟩

/-- The old characters must not overlap their copies if the buffer stays where it is. -/
def Shiftable (f : Format) (capacity size index count : Nat) : Prop :=
  capacity < size + count → f.sso < calcOptimalGrowth f capacity (size + count) ∨
    count = index ∨ size ≤ count ∨ count + (size - index) ≤ index
deriving Decidable

theorem transfers_shifter (hindex : index ≤ s.size f) (hroom : s.size f + count ≤ newCapacity)
    (hfits : Fits f newCapacity)
    (hshift : f.sso < newCapacity ∨ count = index ∨ s.size f ≤ count ∨ count + (s.size f - index) ≤ index) :
    Transfers f s (shifter index count) newCapacity (s.size f + count - index) fun _ => True := by
  intro m p t hp hsrc hplace _ ht
  subst ht
  have hover : ¬ Memory.Overlap p count s.str.buffer index (s.size f - index) := by
    rintro ⟨hsame, hne, hless, hless'⟩
    have hstays := hplace.resolve_right fun hnot => hnot hsame
    omega
  obtain ⟨hw, _⟩ := writes_copy m p 0 s.str.buffer 0 index (by omega) (by omega) (by simp [Memory.Overlap])
  obtain ⟨hw', _⟩ := writes_copy (m.copy p 0 s.str.buffer 0 index) p count s.str.buffer index (s.size f - index)
    (by rw [hw.room]; omega) (by rw [hw.room]; omega) hover
  have hlt : s.size f + count - index < 2 ^ 16 := (hfits.le (by omega)).lt
  exact ⟨Nat.mod_eq_of_lt hlt, hw.trans hw', trivial⟩

end

section

variable {t : State α}

/-- What an operation makes of a string that it leaves with the characters `xs`. -/
structure Becomes (f : Format) (s : State α) (xs : List (Option α)) (s' : State α) : Prop where
  home : s'.home = s.home
  evolves : Evolves f s.home s.memory s.str s'.memory s'.str
  content : s'.content f = xs

theorem Becomes.size (h : Becomes f s xs s') : s'.size f = xs.length := by
  have hlen := congrArg List.length h.content
  rwa [State.content, length_load] at hlen

theorem extended (h : Owns f t.memory t.home t.str) (hf : Fresh t.memory)
    (hroom : t.size f + xs.length ≤ t.capacity f) (hw : Writes t.str.buffer t.memory m')
    (hcell : m'.cell t.str.buffer = overwrite (t.memory.cell t.str.buffer) (t.size f) xs) :
    Becomes f t (t.content f ++ xs) ((t.withMemory m').withStr (t.str.increaseSize f xs.length)) ∧
      (t.str.increaseSize f xs.length).capacity f = t.capacity f := by
  have hfits := h.fits.le hroom
  have hbytes : (t.str.length + f.toBytes xs.length) % 2 ^ 16 = (t.size f + xs.length) * f.charSize := by
    rw [(hfits.le (Nat.le_add_left _ _)).toBytes, h.length, ← Nat.add_mul]
    exact Nat.mod_eq_of_lt hfits
  have hstr : t.str.increaseSize f xs.length =
      { t.str with length := (t.size f + xs.length) * f.charSize } := by
    rw [Native.increaseSize, hbytes]
  obtain ⟨hevolves, hsize⟩ := Evolves.inPlace h hf hw hroom
  rw [hstr]
  constructor
  · constructor
    · rfl
    · exact hevolves
    · have htext := load_overwrite hcell
      change m'.load t.str.buffer 0 (Native.size f { t.str with
        length := (t.size f + xs.length) * f.charSize }) = _
      rw [hsize]
      exact htext
  · rfl

def Puts (handler : Handler α) (t : State α) (i count : Nat) (xs : List (Option α)) : Prop :=
  xs.length = count ∧ Writes t.str.buffer t.memory (handler t.memory t.str.buffer i count) ∧
    (handler t.memory t.str.buffer i count).cell t.str.buffer = overwrite (t.memory.cell t.str.buffer) i xs

section

theorem puts_write (xs : List (Option α)) (hroom : i + xs.length ≤ t.memory.room t.str.buffer) :
    Puts (fun m dst i _ => m.write dst i xs) t i xs.length xs :=
  ⟨rfl, writes_write _ _ _ _ hroom⟩

theorem puts_external (hroom : i + count ≤ t.memory.room t.str.buffer) (hcount : count ≤ vs.length) :
    Puts (copyHelper (.external vs)) t i count ((vs.take count).map some) := by
  have hlen : ((vs.take count).map some).length = count := by
    rw [List.length_map, List.length_take, Nat.min_eq_left hcount]
  have hputs := puts_write (t := t) (i := i) ((vs.take count).map some) (by rwa [hlen])
  exact ⟨hlen, hputs.2⟩

theorem puts_external_all (hroom : i + vs.length ≤ t.memory.room t.str.buffer) :
    Puts (copyHelper (.external vs)) t i vs.length (vs.map some) := by
  have hputs := puts_external hroom le_rfl
  rwa [List.take_length] at hputs

section
variable (hroom : i + count ≤ t.memory.room t.str.buffer)
include hroom

theorem puts_external_move (hcount : count ≤ vs.length) :
    Puts (moveHelper (.external vs)) t i count ((vs.take count).map some) :=
  puts_external hroom hcount

theorem puts_fill : Puts (fillHelper ch) t i count (List.replicate count (some ch)) := by
  have hlen : (List.replicate count (some ch)).length = count := List.length_replicate
  have hputs := puts_write (t := t) (i := i) (List.replicate count (some ch)) (by rwa [hlen])
  exact ⟨hlen, hputs.2⟩

theorem puts_pointer (hsrc : j + count ≤ t.memory.room p) (hover : ¬ Memory.Overlap t.str.buffer i p j count) :
    Puts (copyHelper (.pointer p j)) t i count (t.memory.load p j count) :=
  ⟨length_load, writes_copy _ _ _ _ _ _ hroom hsrc hover⟩

theorem puts_pointer_move (hsrc : j + count ≤ t.memory.room p) :
    Puts (moveHelper (.pointer p j)) t i count (t.memory.load p j count) :=
  ⟨length_load, writes_move _ _ _ _ _ _ hroom hsrc⟩

end

end

theorem becomes_self (h : Owns f s.memory s.home s.str) (hf : Fresh s.memory) : Becomes f s (s.content f) s :=
  ⟨rfl, Evolves.refl h hf, rfl⟩

theorem Becomes.trans (h : Becomes f s xs t) (h' : Becomes f t ys u) : Becomes f s ys u := by
  have hevolves := h'.evolves
  rw [h.home] at hevolves
  exact ⟨h'.home.trans h.home, h.evolves.trans hevolves, h'.content⟩

theorem Grown.becomes (h : Grown f s newCapacity n (· = xs) t) : Becomes f s xs t :=
  ⟨h.home, h.evolves, h.text⟩

theorem Becomes.owns (h : Becomes f s xs t) : Owns f t.memory t.home t.str := by
  rw [h.home]
  exact h.evolves.owns

theorem concatImpl_returned (reallocator : State α → Nat → Result α)
    (hre : reallocator s ((s.size f + count) % 2 ^ 16) = .returned t) (ht : Becomes f s old t)
    (hsize : old.length = s.size f) (hroom : s.size f + count ≤ t.capacity f)
    (hputs : Puts handler t (s.size f) count xs) :
    ∃ u, s.concatImpl f reallocator handler count = .returned u ∧ Becomes f s (old ++ xs) u ∧
      u.capacity f = t.capacity f := by
  obtain ⟨hlen, hw, hcell⟩ := hputs
  have hsame := ht.size.trans hsize
  have hroom' : t.size f + xs.length ≤ t.capacity f := by
    rw [hsame, hlen]
    exact hroom
  obtain ⟨hext, hcap⟩ := extended ht.owns ht.evolves.fresh hroom' hw (by rw [hsame]; exact hcell)
  rw [ht.content, hlen] at hext
  rw [hlen] at hcap
  simp only [State.concatImpl, hre, Outcome.map_returned]
  exact ⟨_, rfl, ht.trans hext, hcap⟩

end

section

variable {s : State α}

/-- There is room for `required` characters, the first ones are `old`, and all else is where it was.
-/
structure Prepared (f : Format) (s : State α) (required : Nat) (old : List (Option α)) (t : State α) : Prop where
  becomes : Becomes f s old t
  room : required ≤ t.capacity f
  kept : ∀ p, p ≠ t.str.buffer → (∀ q, held s.str = some q → p ≠ .heap q) → t.memory.cell p = s.memory.cell p
  same : t = s ∨ s.capacity f < required ∧ ∀ q, held s.str = some q → held t.str ≠ some q

def Refused (s : State α) (r : Result α) : Prop :=
  s.memory.fails s.memory.next = true ∧ r = .threw .badAlloc (s.withMemory { s.memory with next := s.memory.next + 1 })

/-- The call returns a state with `P`, or its request for memory is refused. -/
def Ends (s : State α) (r : Result α) (P : State α → Prop) : Prop := (∃ t, r = .returned t ∧ P t) ∨ Refused s r

theorem Refused.evolves (hr : Refused s r) (h : Owns f s.memory s.home s.str) (hf : Fresh s.memory) :
    r.state.home = s.home ∧ Evolves f s.home s.memory s.str r.state.memory r.state.str := by
  rw [hr.2]
  exact ⟨rfl, Evolves.refused h hf⟩

theorem Refused.map (hr : Refused s r) (g : State α → State α) : Refused s (r.map g) := by
  obtain ⟨hfail, rfl⟩ := hr
  exact ⟨hfail, rfl⟩

theorem length_content : (s.content f).length = s.size f := length_load

theorem calcOptimalGrowth_le (hless : capacity < required) (hmax : required ≤ f.maxSize) :
    calcOptimalGrowth f capacity required ≤ f.maxSize := by
  have hne : capacity ≠ f.maxSize := by omega
  rw [calcOptimalGrowth, calcGrowth, if_neg hne]
  exact Nat.max_le.mpr ⟨Nat.min_le_left _ _, hmax⟩

section
variable (h : Owns f s.memory s.home s.str) (hf : Fresh s.memory)
include h hf

theorem prepared_self (hroom : required ≤ s.capacity f) : Prepared f s required (s.content f) s :=
  ⟨becomes_self h hf, hroom, fun _ _ _ => rfl, .inl rfl⟩

theorem grow_prepared (hless : s.capacity f < required) (hle : required ≤ newCapacity)
    (hmax : newCapacity ≤ f.maxSize) (hold : old.length ≤ newCapacity)
    (htr : Transfers f s transfer newCapacity old.length (· = old)) :
    Ends s (s.grow f newCapacity transfer) (Prepared f s required old) := by
  rw [State.grow, if_pos hmax]
  have hmore : s.capacity f ≤ newCapacity := by omega
  rcases growUnchecked_cases h hf hmore (fits_of_le hmax) hold htr with ⟨t, ht, hgrown⟩ | href
  · exact .inl ⟨t, ht, hgrown.becomes, by rwa [hgrown.capacity], hgrown.kept, .inr ⟨hless, hgrown.moved⟩⟩
  · exact .inr href

theorem optimal_prepared (hsize : s.size f ≤ required) (hmax : required ≤ f.maxSize) :
    Ends s (s.growOptimally f required) (Prepared f s required (s.content f)) := by
  unfold State.growOptimally
  split_ifs with hless
  · have hle : required ≤ calcOptimalGrowth f (s.capacity f) required := Nat.le_max_right _ _
    have hold : (s.content f).length ≤ calcOptimalGrowth f (s.capacity f) required := by
      rw [length_content]
      exact hsize.trans hle
    apply grow_prepared h hf hless hle (calcOptimalGrowth_le hless hmax) hold
    rw [length_content] at hold ⊢
    exact transfers_without_shift hold
  · exact .inl ⟨s, rfl, prepared_self h hf (not_lt.mp hless)⟩

theorem reserve_prepared (hmax : required ≤ f.maxSize) :
    Ends s (s.reserve f required) (Prepared f s required (s.content f)) := by
  unfold State.reserve State.growIfNeeded
  split_ifs with hless
  · have hold : (s.content f).length ≤ required := by
      rw [length_content]
      exact h.size_le.trans hless.le
    apply grow_prepared h hf hless le_rfl hmax hold
    rw [length_content] at hold ⊢
    exact transfers_without_shift hold
  · exact .inl ⟨s, rfl, prepared_self h hf (not_lt.mp hless)⟩

theorem dummy_prepared (hzero : s.size f = 0) (hmax : required ≤ f.maxSize) :
    Ends s (s.growIfNeeded f required dummyTransfer) (Prepared f s required []) := by
  unfold State.growIfNeeded
  split_ifs with hless
  · exact grow_prepared h hf hless le_rfl hmax (Nat.zero_le _) (transfers_dummy hzero)
  · have hself := prepared_self h hf (not_lt.mp hless)
    have hnil : s.content f = [] := by
      rw [State.content, hzero]
      rfl
    rw [hnil] at hself
    exact .inl ⟨s, rfl, hself⟩

end

theorem concatImpl_ends {P : List (Option α) → Prop} (reallocator : State α → Nat → Result α) (handler : Handler α)
    (hre : Ends s (reallocator s (s.size f + count)) (Prepared f s (s.size f + count) old))
    (hmax : s.size f + count ≤ f.maxSize) (hold : old.length = s.size f)
    (hputs : ∀ t, Prepared f s (s.size f + count) old t → ∃ xs, P xs ∧ Puts handler t (s.size f) count xs) :
    Ends s (s.concatImpl f reallocator handler count) fun u => ∃ xs, P xs ∧ Becomes f s (old ++ xs) u := by
  have hmod := mod_of_le hmax
  rcases hre with ⟨t, ht, hprep⟩ | href
  · obtain ⟨xs, hxs, hwritten⟩ := hputs t hprep
    rw [← hmod] at ht
    obtain ⟨u, hu, hbecomes, _⟩ := concatImpl_returned _ ht hprep.becomes hold hprep.room hwritten
    exact .inl ⟨u, hu, xs, hxs, hbecomes⟩
  · rw [← hmod] at href
    exact .inr (href.map _)

theorem Prepared.room_le (h : Prepared f s required old t) (hi : i ≤ required) : i ≤ t.memory.room t.str.buffer :=
  hi.trans (h.room.trans h.becomes.owns.capacity_le_room)

end

end Ktl.StringOwnership
