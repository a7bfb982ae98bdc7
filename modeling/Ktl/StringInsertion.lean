import Ktl.StringLengths

/-!
What `insert` leaves in a string, for characters that are not the string's own. If the buffer
has to grow, the characters behind the place of insertion are copied to the wrong place; and
at the end an iterator gets the characters twice.
-/
namespace Ktl.StringInsertion

open TextMemory WinntString StringOwnership StringBuffers StringLengths List

variable {α : Type} {s t : State α} {count : Nat}

def chars (m : Memory α) (count : Nat) : Source α → List (Option α)
  | .external vs => (vs.take count).map some
  | .pointer p offset => m.load p offset count

def Outside (f : Format) (s : State α) (count : Nat) (src : Source α) : Prop :=
  Readable f s count (fun _ => False) src

def inserted (f : Format) (s : State α) (index : Nat) (xs : List (Option α)) : List (Option α) :=
  (s.content f).take index ++ xs ++ (s.content f).drop index

theorem length_outside (h : Outside f s count src) : (chars s.memory count src).length = count := by
  cases src with
  | external vs =>
    change count ≤ vs.length at h
    rw [chars, length_map, length_take, Nat.min_eq_left h]
  | pointer p offset => exact length_load

theorem length_inserted (hindex : index ≤ s.size f) : (inserted f s index xs).length = s.size f + xs.length := by
  simp only [inserted, length_append, length_take, length_drop, length_content]
  omega

def Apart (s t : State α) : Prop := ∀ p, Foreign s p → t.memory.cell p = s.memory.cell p

theorem apart_of_writes (h : Owns f s.memory s.home s.str) (hw : Writes s.str.buffer s.memory m) (p : Place)
    (hp : Foreign s p) : m.cell p = s.memory.cell p := by
  apply hw.others
  rintro rfl
  by_cases hsmall : s.str.capacity f ≤ f.sso
  · rw [placed_small h.placed hsmall] at hp
    exact hp rfl
  · obtain ⟨q, hq, _⟩ := placed_heap h.placed (not_le.mp hsmall)
    rw [hq] at hp
    exact hp.2 (held_heap hq)

theorem apart_of_kept (hk : Keeps f s (.returned t))
    (hkept : ∀ p, p ≠ t.str.buffer → (∀ q, held s.str = some q → p ≠ .heap q) →
      t.memory.cell p = s.memory.cell p) : Apart s t := by
  intro p hp
  apply hkept p (Foreign.keeps hp hk).1.symm
  rintro q hq rfl
  exact hp.2 hq

theorem Outside.puts (hsrc : Outside f s count src) (hk : Keeps f s (.returned t)) (hapart : Apart s t)
    (hroom : i + count ≤ t.memory.room t.str.buffer) :
    Puts (copyHelper src) t i count (chars s.memory count src) := by
  cases src with
  | external vs => exact puts_external hroom hsrc
  | pointer p offset =>
    obtain ⟨hp, hread⟩ | ⟨_, _, hno⟩ := hsrc
    · obtain ⟨hne, hsame, _⟩ := hp.keeps hk
      have hputs := puts_pointer (t := t) (p := p) hroom (by rwa [hsame]) fun hover => hne hover.1
      have hload : t.memory.load p offset count = s.memory.load p offset count :=
        load_of_cell (hapart p hp)
      rwa [hload] at hputs
    · exact hno.elim

theorem content_written (hputs : Puts handler t i count xs) (hle : i + count ≤ t.size f) :
    (t.withMemory (handler t.memory t.str.buffer i count)).content f =
      (t.content f).take i ++ xs ++ (t.content f).drop (i + count) := by
  obtain ⟨rfl, _, hcell⟩ := hputs
  obtain ⟨rest, hrest⟩ := Nat.exists_eq_add_of_le hle
  change Memory.load _ t.str.buffer 0 (t.size f) = _
  rw [State.content, take_load (by omega), drop_load hle, hrest, load_add, Nat.zero_add, Nat.add_sub_cancel_left]
  exact congrArg₂ (· ++ ·) (load_overwrite hcell) (load_apart hcell (.inr le_rfl))

/-- The part of `insert_impl` that comes before the new characters are written. -/
def opened (f : Format) (s : State α) (index count : Nat) : Result α :=
  let required := (s.size f + count) % 2 ^ 16
  if s.capacity f < required then
    s.grow f (calcOptimalGrowth f (s.capacity f) required) (shifter index count)
  else
    let m := s.memory.move s.str.buffer (index + count) s.str.buffer index (s.size f - index)
    .returned ((s.withMemory m).withStr (s.str.increaseSize f count))

theorem insertImpl_eq (handler : Handler α) : s.insertImpl f index handler count =
      (opened f s index count).map fun t => t.withMemory (handler t.memory t.str.buffer index count) := rfl

structure Gap (f : Format) (s : State α) (index count : Nat) (t : State α) : Prop where
  keeps : Keeps f s (.returned t)
  size : t.size f = s.size f + count
  before : (t.content f).take index = (s.content f).take index
  behind : (t.content f).drop (index + count) = (s.content f).drop index
  apart : Apart s t

section

variable (h : Gap f s index count t) (hindex : index ≤ s.size f)

include h hindex

theorem Gap.becomes (hputs : Puts handler t index count xs) :
    Becomes f s (inserted f s index xs) (t.withMemory (handler t.memory t.str.buffer index count)) := by
  have hsize := h.size
  obtain ⟨hhome, hevolves⟩ := h.keeps
  have hcontent := content_written hputs (f := f) (by omega)
  rw [h.before, h.behind] at hcontent
  have hev : Evolves f t.home t.memory t.str _ t.str := Evolves.rewritten h.keeps.owns hevolves.fresh hputs.2.1
  rw [show t.home = s.home from hhome] at hev
  exact ⟨hhome, hevolves.trans hev, hcontent⟩

theorem Gap.room : index + count ≤ t.memory.room t.str.buffer := by
  have hsize := h.size
  have hle : t.size f ≤ t.capacity f := h.keeps.owns.size_le
  have hroom := h.keeps.owns.capacity_le_room
  change t.capacity f ≤ t.memory.room t.str.buffer at hroom
  omega

theorem Gap.right (hsrc : Outside f s count src) (hmax : s.size f + count ≤ f.maxSize) :
    Right f s (inserted f s index (chars s.memory count src))
      (.returned (t.withMemory (copyHelper src t.memory t.str.buffer index count))) := by
  apply right_of_becomes (h.becomes hindex (hsrc.puts h.keeps h.apart (h.room hindex)))
  rwa [length_inserted hindex, length_outside hsrc]

end

theorem opened_inPlace (h : Owns f s.memory s.home s.str) (hf : Fresh s.memory) (hindex : index ≤ s.size f)
    (hroom : s.size f + count ≤ s.capacity f) :
    ∃ t, opened f s index count = .returned t ∧ Gap f s index count t ∧ t.str.buffer = s.str.buffer ∧
      t.memory.cell s.str.buffer = overwrite (s.memory.cell s.str.buffer) (index + count)
        (s.memory.load s.str.buffer index (s.size f - index)) := by
  have hcap : s.capacity f ≤ s.memory.room s.str.buffer := h.capacity_le_room
  have hfits := h.fits.le hroom
  obtain ⟨hw, hcell⟩ := writes_move s.memory s.str.buffer (index + count) s.str.buffer index
    (s.size f - index) (by omega) (by omega)
  have hstr : s.str.increaseSize f count = { s.str with length := (s.size f + count) * f.charSize } := by
    have hlen : s.str.length = s.size f * f.charSize := h.length
    rw [Native.increaseSize, (hfits.le (Nat.le_add_left _ _)).toBytes, hlen, ← Nat.add_mul, Nat.mod_eq_of_lt hfits]
  obtain ⟨hevolves, hsize⟩ := Evolves.inPlace h hf hw hroom
  have hopened : opened f s index count = .returned ((s.withMemory (s.memory.move s.str.buffer (index + count)
      s.str.buffer index (s.size f - index))).withStr
        { s.str with length := (s.size f + count) * f.charSize }) := by
    rw [opened, Nat.mod_eq_of_lt hfits.lt, if_neg hroom.not_gt, hstr]
  generalize s.memory.move s.str.buffer (index + count) s.str.buffer index (s.size f - index) = m
    at hw hcell hevolves hopened
  refine ⟨_, hopened, ?_, rfl, hcell⟩
  have hcontent : ((s.withMemory m).withStr { s.str with length := (s.size f + count) * f.charSize }).content f =
      m.load s.str.buffer 0 (s.size f + count) := congrArg (m.load s.str.buffer 0) hsize
  constructor
  · exact ⟨rfl, hevolves⟩
  · exact hsize
  · rw [hcontent, State.content, take_load (by omega), take_load hindex]
    exact load_apart hcell (.inl (by omega))
  · have hrest : s.size f + count - (index + count) = (s.memory.load s.str.buffer index (s.size f - index)).length := by
      rw [length_load]
      omega
    rw [hcontent, State.content, drop_load (by omega), drop_load hindex, Nat.zero_add, Nat.zero_add, hrest]
    exact load_written hcell
  · exact apart_of_writes h hw

theorem copy_zero {m : Memory α} : m.copy dst i p j 0 = m := by
  have hover : ¬ Memory.Overlap dst i p j 0 := by
    rintro ⟨_, _, hless, hless'⟩
    omega
  rw [Memory.copy, if_neg hover, Memory.move, if_pos rfl]

theorem transfers_front (hroom : s.size f + count ≤ newCapacity) (hfits : Fits f newCapacity)
    (hshift : f.sso < newCapacity ∨ s.size f ≤ count) :
    Transfers f s (shifter 0 count) newCapacity (s.size f + count) fun ys => ys.drop count = s.content f := by
  intro m p t hp hsrc hplace hload ht
  subst ht
  have hover : ¬ Memory.Overlap p count s.str.buffer 0 (s.size f) := by
    rintro ⟨hsame, _, hless, _⟩
    have hstays := hplace.resolve_right fun hnot => hnot hsame
    omega
  obtain ⟨hw, hcell⟩ := writes_copy m p count s.str.buffer 0 (s.size f) (by omega) (by omega) hover
  have hcopy : (shifter 0 count m p (s.size f) s.str.buffer).1 = m.copy p count s.str.buffer 0 (s.size f) := by
    simp [shifter, copy_zero]
  have hwritten := load_written hcell
  rw [length_load, hload] at hwritten
  rw [hcopy]
  refine ⟨?_, hw, ?_⟩
  · exact Nat.mod_eq_of_lt (hfits.le hroom).lt
  · change (Memory.load _ p 0 (s.size f + count)).drop count = _
    rw [drop_load (Nat.le_add_left _ _), Nat.zero_add, Nat.add_sub_cancel]
    exact hwritten

theorem transfers_same (hindex : index ≤ s.size f) (hroom : s.size f ≤ newCapacity) (hfits : Fits f newCapacity) :
    Transfers f s (shifter index index) newCapacity (s.size f) (· = s.content f) := by
  intro m p t hp hsrc _ hload ht
  subst ht
  obtain ⟨hw, hcell⟩ := writes_copy m p 0 s.str.buffer 0 index (by omega) (by omega) (by simp [Memory.Overlap])
  generalize hm : m.copy p 0 s.str.buffer 0 index = m₁ at hw hcell
  obtain ⟨hw', hcell'⟩ := writes_copy m₁ p index s.str.buffer index (s.size f - index)
    (by rw [hw.room]; omega) (by rw [hw.room]; omega) (by simp [Memory.Overlap])
  have hbehind : m₁.load s.str.buffer index (s.size f - index) = m.load s.str.buffer index (s.size f - index) := by
    by_cases hsame : s.str.buffer = p
    · rw [hsame] at hcell ⊢
      exact load_apart hcell (.inr (by rw [length_load]; omega))
    · exact load_of_cell (hw.others _ hsame)
  have hfirst := load_overwrite hcell
  have hall := load_overwrite hcell'
  rw [length_load, Nat.zero_add, load_zero, nil_append] at hfirst
  rw [length_load, Nat.add_sub_cancel' hindex, hfirst, hbehind] at hall
  refine ⟨?_, ?_, ?_⟩
  · change (s.size f + index - index) % 2 ^ 16 = s.size f
    rw [Nat.add_sub_cancel]
    exact Nat.mod_eq_of_lt (hfits.le hroom).lt
  · simp only [shifter, hm]
    exact hw.trans hw'
  · simp only [shifter, hm]
    have hparts := load_add (m := m) (p := s.str.buffer) (i := 0) index (s.size f - index)
    rw [Nat.add_sub_cancel' hindex, Nat.zero_add, hload] at hparts
    rw [hall, ← hparts]

theorem opened_of_less (hless : s.capacity f < s.size f + count) (hmax : s.size f + count ≤ f.maxSize) :
    opened f s index count = s.growUnchecked f (calcOptimalGrowth f (s.capacity f) (s.size f + count))
      (shifter index count) := by
  simp only [opened, mod_of_le hmax, if_pos hless, State.grow, if_pos (calcOptimalGrowth_le hless hmax)]

theorem Grown.apart (h : Grown f s newCapacity n P t) : Apart s t :=
  apart_of_kept ⟨h.home, h.evolves⟩ h.kept

theorem opened_front (h : Usable f s) (hless : s.capacity f < s.size f + count) (hmax : s.size f + count ≤ f.maxSize)
    (hshift : f.sso < calcOptimalGrowth f (s.capacity f) (s.size f + count) ∨ s.size f ≤ count) :
    ∃ t, opened f s 0 count = .returned t ∧ Gap f s 0 count t := by
  have hge := calcOptimalGrowth_ge f (s.capacity f) (s.size f + count)
  have hfits := fits_of_le (calcOptimalGrowth_le hless hmax)
  obtain ⟨t, ht, hgrown⟩ := (growUnchecked_cases h.owns h.fresh (hless.le.trans hge) hfits hge
    (transfers_front hge hfits hshift)).resolve_right h.not_refused
  rw [opened_of_less hless hmax]
  refine ⟨t, ht, ⟨hgrown.home, hgrown.evolves⟩, hgrown.size, rfl, ?_, Grown.apart hgrown⟩
  rw [Nat.zero_add, hgrown.text, drop_zero]

theorem opened_size (index : Nat) (h : Usable f s) (hless : s.capacity f < s.size f + count)
    (hmax : s.size f + count ≤ f.maxSize) :
    ∃ t, opened f s index count = .returned t ∧ t.size f = s.size f + count - index := by
  have hfits : Fits f (s.size f + count - index) := (fits_of_le hmax).le (Nat.sub_le _ _)
  have hsize (m : Memory α) (p : Place) :
      f.toChars (f.toBytes (shifter index count m p (s.size f) s.str.buffer).2) = s.size f + count - index := by
    simp only [shifter, Nat.mod_eq_of_lt hfits.lt]
    exact hfits.toChars
  rw [opened_of_less hless hmax]
  by_cases hsmall : calcOptimalGrowth f (s.capacity f) (s.size f + count) ≤ f.sso
  · exact ⟨_, growUnchecked_of_small hsmall, hsize _ _⟩
  · exact ⟨_, growUnchecked_of_heap (not_le.mp hsmall) (h.served _) rfl, hsize _ _⟩

theorem opened_overlap (index : Nat) (hsmall : calcOptimalGrowth f (s.capacity f) (s.size f + count) ≤ f.sso)
    (hless : s.capacity f < s.size f + count) (hmax : s.size f + count ≤ f.maxSize)
    (hover : Memory.Overlap (.inside s.home) count s.str.buffer index (s.size f - index)) :
    ∃ t, opened f s index count = .returned t ∧ s.memory.misuse < t.memory.misuse := by
  rw [opened_of_less hless hmax, growUnchecked_of_small hsmall]
  refine ⟨_, rfl, Nat.lt_of_lt_of_le ?_ destroy_misuse_le⟩
  have htame : Tame s.memory (s.memory.copy (.inside s.home) 0 s.str.buffer 0 index) := tame_copy
  simp only [shifter, State.withMemory]
  rw [Memory.copy, if_pos hover]
  exact Nat.lt_succ_of_le htame.misuse

theorem tame_copyHelper : Tame m (copyHelper src m dst i count) := by
  cases src with
  | external vs => exact tame_write
  | pointer p offset => exact tame_copy

def Opens (f : Format) (size capacity index count : Nat) : Prop :=
  size + count ≤ capacity ∨ index = 0 ∧ (f.sso < calcOptimalGrowth f capacity (size + count) ∨ size ≤ count)

theorem opened_first (h : Usable f s) (hmax : s.size f + count ≤ f.maxSize) :
    ∃ t, opened f s 0 count = .returned t ∧ (Opens f (s.size f) (s.capacity f) 0 count ∧ Gap f s 0 count t ∨
        ¬ Opens f (s.size f) (s.capacity f) 0 count ∧ s.memory.misuse < t.memory.misuse) := by
  have hle := h.size_le
  by_cases hroom : s.size f + count ≤ s.capacity f
  · obtain ⟨t, ht, hgap, _⟩ := opened_inPlace h.owns h.fresh (Nat.zero_le _) hroom
    exact ⟨t, ht, .inl ⟨.inl hroom, hgap⟩⟩
  have hless := not_le.mp hroom
  by_cases hshift : f.sso < calcOptimalGrowth f (s.capacity f) (s.size f + count) ∨ s.size f ≤ count
  · obtain ⟨t, ht, hgap⟩ := opened_front h hless hmax hshift
    exact ⟨t, ht, .inl ⟨.inr ⟨rfl, hshift⟩, hgap⟩⟩
  · obtain ⟨hsmall, hshort⟩ := not_or.mp hshift
    have hge := calcOptimalGrowth_ge f (s.capacity f) (s.size f + count)
    have hinside := placed_small h.owns.placed (show s.capacity f ≤ f.sso by omega)
    obtain ⟨t, ht, hmisuse⟩ := opened_overlap 0 (not_lt.mp hsmall) hless hmax
      ⟨hinside.symm, by omega, by omega, by omega⟩
    exact ⟨t, ht, .inr ⟨fun hopens => hopens.elim hroom fun hfront => hshift hfront.2, hmisuse⟩⟩

theorem not_right_of_size (hindex : index ≤ s.size f) (hsize : t.size f ≠ s.size f + xs.length) :
    ¬ Right f s (inserted f s index xs) (.returned t) := by
  rintro ⟨_, hcontent, _⟩
  apply hsize
  rw [← length_content, hcontent, length_inserted hindex]

theorem right_insertImpl_iff (h : Usable f s) (hindex : index ≤ s.size f) (hmax : s.size f + count ≤ f.maxSize)
    (hsrc : Outside f s count src) :
    Right f s (inserted f s index (chars s.memory count src)) (s.insertImpl f index (copyHelper src) count) ↔
      Opens f (s.size f) (s.capacity f) index count := by
  rw [insertImpl_eq]
  by_cases hzero : index = 0
  · subst hzero
    obtain ⟨t, ht, ⟨hopens, hgap⟩ | ⟨hopens, hmisuse⟩⟩ := opened_first h hmax
    · rw [ht]
      exact iff_of_true (hgap.right hindex hsrc hmax) hopens
    · rw [ht]
      exact iff_of_false (not_right_of_misuse (hmisuse.trans_le tame_copyHelper.misuse)) hopens
  · by_cases hroom : s.size f + count ≤ s.capacity f
    · obtain ⟨t, ht, hgap, _⟩ := opened_inPlace h.owns h.fresh hindex hroom
      rw [ht]
      exact iff_of_true (hgap.right hindex hsrc hmax) (.inl hroom)
    · obtain ⟨t, ht, hsize⟩ := opened_size index h (not_le.mp hroom) hmax
      rw [ht]
      refine iff_of_false (not_right_of_size hindex ?_) fun hopens => hopens.elim hroom fun hfront => hzero hfront.1
      rw [length_outside hsrc]
      change t.size f ≠ _
      omega

def grownCapacity (f : Format) (capacity required : Nat) : Nat :=
  if required ≤ capacity then capacity else calcOptimalGrowth f capacity required

def Stays (f : Format) (capacity required : Nat) : Prop :=
  required ≤ capacity ∨ calcOptimalGrowth f capacity required ≤ f.sso

theorem growOptimally_cases (h : Usable f s) (hsize : s.size f ≤ required) (hmax : required ≤ f.maxSize) :
    ∃ t, s.growOptimally f required = .returned t ∧ Becomes f s (s.content f) t ∧ Apart s t ∧
      t.capacity f = grownCapacity f (s.capacity f) required ∧
      (t.str.buffer = s.str.buffer ↔ Stays f (s.capacity f) required) := by
  by_cases hroom : required ≤ s.capacity f
  · rw [State.growOptimally, if_neg hroom.not_gt, grownCapacity, if_pos hroom]
    exact ⟨s, rfl, becomes_self h.owns h.fresh, fun _ _ => rfl, rfl, iff_of_true rfl (.inl hroom)⟩
  · have hless := not_le.mp hroom
    have hle := calcOptimalGrowth_le hless hmax
    have hge := calcOptimalGrowth_ge f (s.capacity f) required
    obtain ⟨t, ht, hgrown⟩ := (growUnchecked_cases h.owns h.fresh (hless.le.trans hge)
      (fits_of_le hle) (hsize.trans hge) (transfers_without_shift (hsize.trans hge))).resolve_right
      h.not_refused
    have hb := hgrown.becomes
    rw [State.growOptimally, if_pos hless, State.grow, if_pos hle, grownCapacity, if_neg hroom]
    refine ⟨t, ht, hb, Grown.apart hgrown, hgrown.capacity, ?_⟩
    have hcapacity : t.str.capacity f = calcOptimalGrowth f (s.capacity f) required := hgrown.capacity
    rw [Stays, or_iff_right hroom]
    by_cases hsmall : calcOptimalGrowth f (s.capacity f) required ≤ f.sso
    · have hold := placed_small h.owns.placed (show s.capacity f ≤ f.sso by omega)
      have hnew := placed_small hb.owns.placed (hcapacity ▸ hsmall)
      rw [hb.home] at hnew
      exact iff_of_true (hnew.trans hold.symm) hsmall
    · obtain ⟨q, hq, _⟩ := placed_heap hb.owns.placed (hcapacity ▸ not_le.mp hsmall)
      refine iff_of_false (fun hsame => ?_) hsmall
      exact hgrown.moved q (held_heap (hsame ▸ hq)) (held_heap hq)

theorem concatImpl_outside (reallocator : State α → Nat → Result α)
    (ht : reallocator s (s.size f + count) = .returned t) (hb : Becomes f s old t)
    (hold : old.length = s.size f) (hapart : Apart s t) (hroom : s.size f + count ≤ t.capacity f)
    (hmax : s.size f + count ≤ f.maxSize) (hsrc : Outside f s count src) :
    ∃ u, s.concatImpl f reallocator (copyHelper src) count = .returned u ∧
      Becomes f s (old ++ chars s.memory count src) u ∧ Apart s u ∧ u.capacity f = t.capacity f ∧
      u.str.buffer = t.str.buffer := by
  have hputs := hsrc.puts (keeps_becomes hb) hapart (hroom.trans hb.owns.capacity_le_room)
  rw [← mod_of_le hmax] at ht
  obtain ⟨u, hu, hb', hcap⟩ := concatImpl_returned reallocator ht hb hold hroom hputs
  refine ⟨u, hu, hb', ?_, hcap, ?_⟩
  · intro p hp
    simp only [State.concatImpl, ht, Outcome.map_returned, Outcome.returned.injEq] at hu
    rw [← hu, ← hapart p hp]
    exact hputs.2.1.others p (Foreign.keeps hp (keeps_becomes hb)).1.symm
  · simp only [State.concatImpl, ht, Outcome.map_returned, Outcome.returned.injEq] at hu
    rw [← hu]
    rfl

theorem append_cases (h : Usable f s) (hmax : s.size f + count ≤ f.maxSize) (hsrc : Outside f s count src) :
    ∃ t, s.append f src count = .returned t ∧ Becomes f s (s.content f ++ chars s.memory count src) t ∧
      Apart s t ∧ t.capacity f = grownCapacity f (s.capacity f) (s.size f + count) ∧
      (t.str.buffer = s.str.buffer ↔ Stays f (s.capacity f) (s.size f + count)) := by
  obtain ⟨t, ht, hb, hapart, hcapacity, hbuf⟩ := growOptimally_cases h (Nat.le_add_right _ count) hmax
  have hroom : s.size f + count ≤ t.capacity f := by
    rw [hcapacity, grownCapacity]
    split
    · assumption
    · exact calcOptimalGrowth_ge _ _ _
  rw [State.append, mod_of_le (Nat.le_of_add_left_le hmax)]
  obtain ⟨u, hu, hb', hapart', hcap, hsame⟩ := concatImpl_outside (fun s required => s.growOptimally f required)
    ht hb length_content hapart hroom hmax hsrc
  exact ⟨u, hu, hb', hapart', hcap.trans hcapacity, by rwa [hsame]⟩

theorem inserted_end (xs : List (Option α)) : inserted f s (s.size f) xs = s.content f ++ xs := by
  have hlen : (s.content f).length = s.size f := length_content
  rw [inserted, ← hlen, take_length, drop_length, append_nil]

/-- `insert(index, str, count)` is right at the end of the string, with enough room, and at its
beginning if the characters are not copied over themselves in the internal buffer. -/
theorem right_insert_iff (h : Usable f s) (hindex : index ≤ s.size f) (hmax : s.size f + count ≤ f.maxSize)
    (hsrc : Outside f s count src) :
    Right f s (inserted f s index (chars s.memory count src)) (s.insert f index src count) ↔
      index = s.size f ∨ Opens f (s.size f) (s.capacity f) index count := by
  rw [State.insert, if_neg hindex.not_gt]
  by_cases hend : index = s.size f
  · obtain ⟨t, ht, hb, _⟩ := append_cases h hmax hsrc
    rw [if_pos hend, ht, hend, inserted_end]
    refine iff_of_true (right_of_becomes hb ?_) (.inl rfl)
    rwa [length_append, length_content, length_outside hsrc]
  · rw [if_neg hend, or_iff_right hend, mod_of_le (Nat.le_of_add_left_le hmax)]
    exact right_insertImpl_iff h hindex hmax hsrc

def full : State Nat :=
  ⟨(Memory.empty 16 fun _ => false).store (.inside 0) 0 ((List.range 16).map some), 0, ⟨.inside 0, 32, 32⟩⟩

theorem right_insert_iff_single : Usable unicode single ∧ Outside unicode single 2 (.external [98, 99]) ∧
      Right unicode single (inserted unicode single 0 (chars single.memory 2 (.external [98, 99])))
        (single.insert unicode 0 (.external [98, 99]) 2) := by
  have hsrc : Outside unicode single 2 (.external [98, 99]) := Nat.le_refl 2
  exact ⟨usable_single, hsrc,
    (right_insert_iff usable_single (Nat.zero_le _) (by decide) hsrc).mpr (.inr (.inl (by decide)))⟩

/-- One character is inserted at 1 without room: it replaces the character there. -/
theorem insert_replaces : ∃ t, full.insert unicode 1 (.external [99]) 1 = .returned t ∧
      t.content unicode = some 0 :: some 99 :: (full.content unicode).drop 2 ∧
      ¬ Right unicode full (inserted unicode full 1 [some 99]) (.returned t) := by
  have hcall : ∃ t, full.insert unicode 1 (.external [99]) 1 = .returned t ∧
      t.content unicode = some 0 :: some 99 :: (full.content unicode).drop 2 := ⟨_, rfl, by decide +kernel⟩
  obtain ⟨t, ht, hcontent⟩ := hcall
  refine ⟨t, ht, hcontent, ?_⟩
  rintro ⟨_, hright, _⟩
  have hlen := congrArg length (hcontent.symm.trans hright)
  revert hlen
  decide +kernel

theorem chars_apart (hsrc : Outside f s count src) (hapart : Apart s t) :
    chars t.memory count src = chars s.memory count src := by
  cases src with
  | external vs => rfl
  | pointer p offset =>
    obtain ⟨hp, _⟩ | ⟨_, _, hno⟩ := hsrc
    · exact load_of_cell (hapart p hp)
    · exact hno.elim

theorem Owns.room_lt (h : Owns f m home v) : m.room v.buffer < 2 ^ 16 := by
  by_cases hsmall : v.capacity f ≤ f.sso
  · rw [placed_small h.placed hsmall]
    exact h.small.le.trans_lt f.sso_lt
  · obtain ⟨q, hq, hcount⟩ := placed_heap h.placed (not_le.mp hsmall)
    simp only [hq, Memory.room, hcount, Option.getD_some]
    exact h.fits.lt

theorem again_cases (h : Usable f t) (hindex : index + count = t.size f) (hpos : 0 < count)
    (hcount : count ≤ f.maxSize) (hsrc : Outside f t count src) :
    (t.capacity f < t.size f + count ∧ t.size f + count ≤ f.maxSize ∧ count = index ∧
      ∃ u, t.insertImpl f index (copyHelper src) count = .returned u ∧
        Becomes f t ((t.content f).take index ++ chars t.memory count src) u) ∨
    ¬ (t.capacity f < t.size f + count ∧ t.size f + count ≤ f.maxSize ∧ count = index) ∧
      ((∃ u, t.insertImpl f index (copyHelper src) count = .returned u ∧
        (u.size f ≠ t.size f ∨ t.memory.misuse < u.memory.misuse)) ∨
      ∃ u, t.insertImpl f index (copyHelper src) count = .threw .lengthError u) := by
  have hle := h.size_le
  rw [insertImpl_eq]
  by_cases hroom : t.size f + count ≤ t.capacity f
  · obtain ⟨u, hu, hgap, _⟩ := opened_inPlace h.owns h.fresh (show index ≤ t.size f by omega) hroom
    have hsize := hgap.size
    rw [hu]
    refine .inr ⟨by omega, .inl ⟨_, rfl, .inl ?_⟩⟩
    change u.size f ≠ _
    omega
  have hless := not_le.mp hroom
  by_cases hmax : t.size f + count ≤ f.maxSize
  · by_cases hsame : count = index
    · subst hsame
      have hge := calcOptimalGrowth_ge f (t.capacity f) (t.size f + count)
      have hfits := fits_of_le (calcOptimalGrowth_le hless hmax)
      have hold : t.size f ≤ calcOptimalGrowth f (t.capacity f) (t.size f + count) := by omega
      obtain ⟨u, hu, hgrown⟩ := (growUnchecked_cases h.owns h.fresh (hless.le.trans hge) hfits
        hold (transfers_same (show count ≤ t.size f by omega) hold hfits)).resolve_right h.not_refused
      have hb := hgrown.becomes
      have husize := hgrown.size
      have hputs := hsrc.puts (i := count) (keeps_becomes hb) (Grown.apart hgrown) (by
        have hcap : u.str.capacity f = _ := hgrown.capacity
        have hroom := hb.owns.capacity_le_room
        omega)
      rw [opened_of_less hless hmax, hu]
      refine .inl ⟨hless, hmax, rfl, _, rfl, hb.home, ?_, ?_⟩
      · have hev := Evolves.rewritten hb.owns hb.evolves.fresh hputs.2.1
        rw [hb.home] at hev
        exact hb.evolves.trans hev
      · have hcontent := content_written hputs (f := f) (by omega)
        have hnil : (u.content f).drop (count + count) = [] := by
          rw [drop_eq_nil_iff, length_content]
          omega
        rw [hnil, append_nil, hb.content] at hcontent
        exact hcontent
    · obtain ⟨u, hu, hsize⟩ := opened_size index h hless hmax
      rw [hu]
      refine .inr ⟨fun hand => hsame hand.2.2, .inl ⟨_, rfl, .inl ?_⟩⟩
      change u.size f ≠ _
      omega
  · refine .inr ⟨fun hand => hmax hand.2.1, ?_⟩
    have hlong := not_le.mp hmax
    by_cases hwrap : t.capacity f < (t.size f + count) % 2 ^ 16
    · right
      have hrequired : (t.size f + count) % 2 ^ 16 = t.size f + count := by
        have hlt := maxSize_lt (f := f)
        have hcap := h.owns.fits.lt
        change t.capacity f < 2 ^ 16 at hcap
        omega
      have hlarge : ¬ calcOptimalGrowth f (t.capacity f) (t.size f + count) ≤ f.maxSize :=
        (hlong.trans_le (calcOptimalGrowth_ge _ _ _)).not_ge
      rw [hrequired] at hwrap
      simp only [opened, hrequired, if_pos hwrap, State.grow, if_neg hlarge]
      exact ⟨_, rfl⟩
    · -- the sum has wrapped, so that the characters are moved past the end of the buffer
      left
      have hroom_lt := Owns.room_lt h.owns
      have hroom_le := h.owns.capacity_le_room
      change t.capacity f ≤ _ at hroom_le
      have hbig : t.memory.room t.str.buffer < index + count + count := by omega
      simp only [opened, if_neg hwrap]
      refine ⟨_, rfl, .inr (Nat.lt_of_lt_of_le ?_ tame_copyHelper.misuse)⟩
      change t.memory.misuse < (t.memory.move _ _ _ _ _).misuse
      rw [Memory.move, if_neg (by omega), if_pos (by omega)]
      have hload : t.size f - index = (t.memory.load t.str.buffer index (t.size f - index)).length :=
        length_load.symm
      apply write_misuse
      · intro hnil
        rw [hnil, length_nil] at hload
        omega
      · rw [← hload]
        omega

/-- At the end the range is inserted twice, unless the second insertion moves nothing and sets the
right length. -/
def InsertsOnce (f : Format) (size capacity index count : Nat) : Prop :=
  if index = size then
    count = 0 ∨ count = size ∧ Stays f capacity (size + count) ∧
      grownCapacity f capacity (size + count) < size + 2 * count ∧ size + 2 * count ≤ f.maxSize
  else Opens f size capacity index count

theorem right_insertPointers_end_iff (h : Usable f s) (hmax : s.size f + count ≤ f.maxSize)
    (hsrc : Outside f s count src) :
    Right f s (s.content f ++ chars s.memory count src) (s.insertPointers f (s.size f) src count) ↔
      count = 0 ∨ count = s.size f ∧ Stays f (s.capacity f) (s.size f + count) ∧
        grownCapacity f (s.capacity f) (s.size f + count) < s.size f + 2 * count ∧
        s.size f + 2 * count ≤ f.maxSize := by
  have hcount := Nat.le_of_add_left_le hmax
  have hlen : (s.content f ++ chars s.memory count src).length = s.size f + count := by
    rw [length_append, length_content, length_outside hsrc]
  obtain ⟨t, ht, hb, hapart, hcapacity, hbuf⟩ := append_cases h hmax hsrc
  have hsize := hb.size.trans hlen
  have hmisuse := hb.evolves.misuse
  have hchars := chars_apart hsrc hapart
  simp only [State.insertPointers, if_true, State.thenInsert, ht, Outcome.andThen_returned, mod_of_le hcount]
  by_cases hstays : Stays f (s.capacity f) (s.size f + count)
  · rw [if_pos (hbuf.mpr hstays)]
    have hsrc' : Outside f t count src :=
      hsrc.keeps (keeps_becomes hb) (hbuf.mpr hstays) (by omega) fun _ _ hno => hno
    by_cases hzero : count = 0
    · subst hzero
      have hroom : t.size f + 0 ≤ t.capacity f := hb.owns.size_le
      obtain ⟨u, hu, hgap, _⟩ := opened_inPlace hb.owns hb.evolves.fresh (show s.size f ≤ t.size f by omega) hroom
      have hb' := hgap.becomes (by omega) (hsrc'.puts hgap.keeps hgap.apart (hgap.room (by omega)))
      have hnil := length_eq_zero_iff.mp (length_outside hsrc')
      rw [hnil, inserted, append_nil, take_append_drop, hb.content] at hb'
      rw [insertImpl_eq, hu]
      exact iff_of_true (right_of_becomes (hb.trans hb') (by rwa [hlen])) (.inl rfl)
    · rw [or_iff_right hzero]
      obtain ⟨hless, hle, hsame, u, hu, hb'⟩ | ⟨hnot, hwrong⟩ :=
        again_cases (h.becomes hb) hsize.symm (Nat.pos_of_ne_zero hzero) hcount hsrc'
      · rw [hb.content, take_left' length_content, hchars] at hb'
        rw [hu]
        exact iff_of_true (right_of_becomes (hb.trans hb') (by rwa [hlen])) ⟨hsame, hstays, by omega, by omega⟩
      · apply iff_of_false
        · obtain ⟨u, hu, husize | humisuse⟩ | ⟨u, hu⟩ := hwrong
          · rw [hu]
            rintro ⟨_, hcontent, _⟩
            apply husize
            rw [hsize, ← hlen, ← hcontent, length_content]
          · rw [hu]
            exact not_right_of_misuse (hmisuse ▸ humisuse)
          · rw [hu]
            rintro ⟨hlong, _⟩
            omega
        · rintro ⟨hsame, _, hless, hle⟩
          exact hnot ⟨by omega, by omega, hsame⟩
  · rw [if_neg fun hsame => hstays (hbuf.mp hsame)]
    apply iff_of_false
    · apply not_right_of_misuse
      exact Nat.lt_succ_of_le hmisuse.symm.le
    · rintro (hzero | ⟨_, hstays', _⟩)
      · subst hzero
        exact hstays (.inl h.size_le)
      · exact hstays hstays'

/-- `insert(pos, first, last)` with pointers into another buffer. -/
theorem right_insertPointers_iff (h : Usable f s) (hindex : index ≤ s.size f)
    (hmax : s.size f + count ≤ f.maxSize) (hsrc : Outside f s count src) :
    Right f s (inserted f s index (chars s.memory count src)) (s.insertPointers f index src count) ↔
      InsertsOnce f (s.size f) (s.capacity f) index count := by
  unfold InsertsOnce
  split_ifs with hend
  · subst hend
    rw [inserted_end]
    exact right_insertPointers_end_iff h hmax hsrc
  · simp only [State.insertPointers, if_neg hend, mod_of_le (Nat.le_of_add_left_le hmax)]
    exact right_insertImpl_iff h hindex hmax hsrc

theorem right_insertPointers_iff_single : Usable unicode single ∧ Outside unicode single 2 (.external [98, 99]) ∧
      Right unicode single (inserted unicode single 0 (chars single.memory 2 (.external [98, 99])))
        (single.insertPointers unicode 0 (.external [98, 99]) 2) := by
  have hsrc : Outside unicode single 2 (.external [98, 99]) := Nat.le_refl 2
  refine ⟨usable_single, hsrc, (right_insertPointers_iff usable_single (Nat.zero_le _) (by decide) hsrc).mpr ?_⟩
  rw [InsertsOnce, if_neg (by decide)]
  exact .inl (by decide)

/-- At the end of `"a"` the range is inserted twice. -/
theorem insertPointers_twice : ∃ t, single.insertPointers unicode 1 (.external [98, 99]) 2 = .returned t ∧
      t.content unicode = [some 97, some 98, some 99, some 98, some 99] ∧
      inserted unicode single 1 [some 98, some 99] = [some 97, some 98, some 99] :=
  ⟨_, rfl, by decide +kernel, by decide +kernel⟩

end Ktl.StringInsertion
