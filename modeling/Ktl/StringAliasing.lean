import Ktl.StringInsertion

/-!
Characters of a string that are appended to it or inserted into it. They are read after the
buffer has been replaced or the characters have been moved.
-/
namespace Ktl.StringAliasing

open TextMemory WinntString StringOwnership StringBuffers StringLengths StringInsertion

variable {α : Type}

inductive Operation where
  /-- `s.append(s.data() + offset, count)` -/
  | append (offset count : Nat)
  /-- `s += s` -/
  | appendSelf
  /-- `s.insert(index, s.data() + offset, count)` -/
  | insert (index offset count : Nat)
  deriving DecidableEq

namespace Operation

variable (f : Format) (s : State α)

def offset : Operation → Nat
  | .append offset _ | .insert _ offset _ => offset
  | .appendSelf => 0

def count : Operation → Nat
  | .append _ count | .insert _ _ count => count
  | .appendSelf => s.size f

def call (src : Source α) : Operation → Result α
  | .append _ count => s.append f src count
  | .appendSelf => s.append f src (s.size f)
  | .insert index _ count => s.insert f index src count

/-- The characters are those of the string, the index is one, and the result is not
too long. -/
def Proper (op : Operation) : Prop :=
  op.offset + op.count f s ≤ s.size f ∧ s.size f + op.count f s ≤ f.maxSize ∧
    match op with
    | .insert index _ _ => index ≤ s.size f
    | .append _ _ | .appendSelf => True

def AppendSafe (count : Nat) : Prop := s.size f + count ≤ s.capacity f ∨ s.capacity f ≤ f.sso

/-- The ranges from `i` and from `j` on are the same or have nothing in common. -/
def Distinct (i j count : Nat) : Prop := j = i ∨ j + count ≤ i ∨ i + count ≤ j

/-- In place the characters behind the index have been moved away. A block is gone before it is
read. -/
def InsertSafe (index offset count : Nat) : Prop :=
  if s.size f + count ≤ s.capacity f then
    count = 0 ∨ offset + count ≤ index ∨ offset = index ∨ index + count ≤ offset ∧
        s.memory.load s.str.buffer (offset - count) count = s.memory.load s.str.buffer offset count
  else if f.sso < calcOptimalGrowth f (s.capacity f) (s.size f + count) then s.capacity f ≤ f.sso
  else
    (count = index ∨ s.size f ≤ count ∨ count + (s.size f - index) ≤ index) ∧ Distinct index offset count

def Safe : Operation → Prop
  | .append _ count => AppendSafe f s count
  | .appendSelf => AppendSafe f s (s.size f)
  | .insert index offset count =>
    if index = s.size f then AppendSafe f s count else InsertSafe f s index offset count

end Operation

variable {f : Format} {s : State α} {src : Source α}

/-- Both calls return, with the same characters, and with own characters no rule is broken. -/
def Same (f : Format) (s : State α) (own copied : Result α) : Prop :=
  ∃ t u, own = .returned t ∧ copied = .returned u ∧ t.content f = u.content f ∧ t.memory.misuse = s.memory.misuse

def SameInserted (f : Format) (s : State α) (index offset count : Nat) (src : Source α) : Prop :=
  Same f s (s.insertImpl f index (copyHelper (.pointer s.str.buffer offset)) count)
    (s.insertImpl f index (copyHelper src) count)

/-- The source holds, elsewhere, the characters of the string from `offset` on. -/
structure Copied (f : Format) (s : State α) (offset count : Nat) (src : Source α) : Prop where
  own : offset + count ≤ s.size f
  max : s.size f + count ≤ f.maxSize
  outside : Outside f s count src
  agrees : chars s.memory count src = s.memory.load s.str.buffer offset count

theorem not_same_of_misuse (h : s.memory.misuse < own.state.memory.misuse) : ¬ Same f s own copied := by
  rintro ⟨t, u, rfl, _, _, hmisuse⟩
  exact h.ne' hmisuse

theorem same_append_iff (h : Usable f s) (hcopied : Copied f s offset count src) :
    Same f s (s.append f (.pointer s.str.buffer offset) count) (s.append f src count) ↔
      Operation.AppendSafe f s count := by
  by_cases hstay : s.size f + count ≤ s.capacity f ∨ s.capacity f ≤ f.sso
  · obtain ⟨t, ht, hb⟩ := append_own h hcopied.own hcopied.max hstay
    obtain ⟨u, hu, hb', _⟩ := append_cases h hcopied.max hcopied.outside
    have hcontent := hb'.content
    rw [hcopied.agrees, ← hb.content] at hcontent
    exact iff_of_true ⟨t, u, ht, hu, hcontent.symm, hb.evolves.misuse⟩ hstay
  · obtain ⟨hless, hlarge⟩ := not_or.mp hstay
    refine iff_of_false (not_same_of_misuse ?_) hstay
    exact append_own_misuse h hcopied.max (not_le.mp hless) (not_le.mp hlarge)

theorem content_congr (h : Puts handler t i count xs) (h' : Puts handler' t i count xs) :
    (t.withMemory (handler t.memory t.str.buffer i count)).content f =
      (t.withMemory (handler' t.memory t.str.buffer i count)).content f := by
  apply load_congr
  intro k _ _
  exact congrFun (h.2.2.trans h'.2.2.symm) k

theorem content_behind (h : Puts handler t i count xs) (hle : t.size f ≤ i) :
    (t.withMemory (handler t.memory t.str.buffer i count)).content f = t.content f :=
  load_apart h.2.2 (.inl (by rw [Nat.zero_add]; exact hle))

theorem content_inj (h : Puts handler t i count xs) (h' : Puts handler' t i count ys) (hle : i + count ≤ t.size f) :
    (t.withMemory (handler t.memory t.str.buffer i count)).content f =
      (t.withMemory (handler' t.memory t.str.buffer i count)).content f ↔ xs = ys := by
  rw [content_written h hle, content_written h' hle]
  constructor
  · intro heq
    have hlen : ((t.content f).take i ++ xs).length = ((t.content f).take i ++ ys).length := by
      rw [List.length_append, List.length_append, h.1, h'.1]
    exact List.append_cancel_left (List.append_inj heq hlen).1
  · rintro rfl
    rfl

theorem same_opened_iff (hopened : opened f s index count = .returned t) (hk : Keeps f s (.returned t))
    (hputs : Puts (copyHelper (.pointer s.str.buffer offset)) t index count xs) :
    SameInserted f s index offset count src ↔
      (t.withMemory (copyHelper (.pointer s.str.buffer offset) t.memory t.str.buffer index count)).content f =
        (t.withMemory (copyHelper src t.memory t.str.buffer index count)).content f := by
  rw [SameInserted, insertImpl_eq, insertImpl_eq, hopened]
  constructor
  · rintro ⟨u, u', hu, hu', hcontent, _⟩
    cases hu
    cases hu'
    exact hcontent
  · intro hcontent
    exact ⟨_, _, rfl, rfl, hcontent, hputs.2.1.clean.trans hk.2.misuse⟩

theorem not_same_of_opened (hopened : opened f s index count = .returned t)
    (hmisuse : s.memory.misuse < (t.memory.copy t.str.buffer index s.str.buffer offset count).misuse) :
    ¬ Same f s (s.insertImpl f index (copyHelper (.pointer s.str.buffer offset)) count) copied := by
  apply not_same_of_misuse
  rw [insertImpl_eq, hopened]
  exact hmisuse

theorem copy_overlap {m : Memory α} (hover : Memory.Overlap dst i p j count) :
    m.misuse < (m.copy dst i p j count).misuse := by
  rw [Memory.copy, if_pos hover]
  exact Nat.lt_succ_self _

theorem overlap_iff : Memory.Overlap p index p offset count ↔ ¬ Operation.Distinct index offset count := by
  unfold Memory.Overlap Operation.Distinct
  constructor
  · rintro ⟨_, hne, hless, hless'⟩
    omega
  · intro hnot
    exact ⟨rfl, by omega, by omega, by omega⟩

theorem Grown.room_le (h : Grown f s newCapacity n P t) : newCapacity ≤ t.memory.room t.str.buffer := by
  have howns := h.evolves.owns.capacity_le_room
  rwa [show t.str.capacity f = newCapacity from h.capacity] at howns

section
variable (h : Usable f s) (hindex : index ≤ s.size f)
include h hindex

theorem same_inPlace_iff (hcopied : Copied f s offset count src) (hroom : s.size f + count ≤ s.capacity f) :
    SameInserted f s index offset count src ↔ count = 0 ∨ offset + count ≤ index ∨ offset = index ∨
        index + count ≤ offset ∧
          s.memory.load s.str.buffer (offset - count) count = s.memory.load s.str.buffer offset count := by
  obtain ⟨t, ht, hgap, hbuf, hcell⟩ := opened_inPlace h.owns h.fresh hindex hroom
  have hsize := hgap.size
  have hown := hcopied.own
  have hroom' := hgap.room hindex
  by_cases hover : Memory.Overlap s.str.buffer index s.str.buffer offset count
  · apply iff_of_false
    · apply not_same_of_opened ht
      rw [← show t.memory.misuse = s.memory.misuse from hgap.keeps.2.misuse, hbuf]
      exact copy_overlap hover
    · obtain ⟨_, hne, hless, hless'⟩ := hover
      omega
  · have hread : offset + count ≤ t.memory.room s.str.buffer := by
      have hcap := hgap.keeps.owns.size_le
      have hroom_t := hgap.keeps.owns.capacity_le_room
      rw [Outcome.state_returned, hbuf] at hroom_t
      change t.size f ≤ _ at hcap
      simp only [Outcome.state_returned] at hcap
      omega
    have hputs := puts_pointer hroom' hread (by rwa [hbuf])
    have hputs' := hcopied.outside.puts hgap.keeps hgap.apart hroom'
    rw [same_opened_iff ht hgap.keeps hputs, content_inj hputs hputs' (by omega), hcopied.agrees]
    by_cases hbefore : offset < index + count ∨ count = 0
    · have hsame : t.memory.load s.str.buffer offset count = s.memory.load s.str.buffer offset count := by
        by_cases hzero : count = 0
        · rw [hzero, load_zero, load_zero]
        · apply load_apart hcell
          left
          by_contra hnot
          exact hover ⟨rfl, by omega, by omega, by omega⟩
      rw [hsame]
      refine iff_of_true rfl ?_
      by_contra hnot
      exact hover ⟨rfl, by omega, by omega, by omega⟩
    · -- the characters are behind the index and have been moved
      obtain ⟨d, rfl⟩ := Nat.exists_eq_add_of_le (show index + count ≤ offset by omega)
      have hmoved : t.memory.load s.str.buffer (index + count + d) count =
          s.memory.load s.str.buffer (index + d) count := by
        rw [load_written_slice hcell (by rw [length_load]; omega), ← load_slice (by omega)]
      rw [hmoved, show index + count + d - count = index + d by omega]
      constructor
      · exact fun heq => .inr (.inr (.inr ⟨by omega, heq⟩))
      · rintro (hzero | hle | heq | ⟨_, heq⟩)
        · omega
        · omega
        · omega
        · exact heq

theorem opened_grown (hless : s.capacity f < s.size f + count) (hmax : s.size f + count ≤ f.maxSize)
    (hshift : f.sso < calcOptimalGrowth f (s.capacity f) (s.size f + count) ∨
      count = index ∨ s.size f ≤ count ∨ count + (s.size f - index) ≤ index) :
    ∃ t, opened f s index count = .returned t ∧
      Grown f s (calcOptimalGrowth f (s.capacity f) (s.size f + count)) (s.size f + count - index)
        (fun _ => True) t := by
  have hge := calcOptimalGrowth_ge f (s.capacity f) (s.size f + count)
  have hfits := fits_of_le (calcOptimalGrowth_le hless hmax)
  rw [opened_of_less hless hmax]
  exact (growUnchecked_cases h.owns h.fresh (hless.le.trans hge) hfits
    ((Nat.sub_le _ _).trans hge) (transfers_shifter hindex hge hfits hshift)).resolve_right h.not_refused

theorem same_heap_iff (hcopied : Copied f s offset count src) (hless : s.capacity f < s.size f + count)
    (hlarge : f.sso < calcOptimalGrowth f (s.capacity f) (s.size f + count)) :
    SameInserted f s index offset count src ↔ s.capacity f ≤ f.sso := by
  have hle := h.size_le
  have hown := hcopied.own
  obtain ⟨t, ht, hgrown⟩ := opened_grown h hindex hless hcopied.max (.inl hlarge)
  have hcapacity : t.str.capacity f = _ := hgrown.capacity
  obtain ⟨q, hq, _⟩ := placed_heap hgrown.evolves.owns.placed (hcapacity ▸ hlarge)
  by_cases hsmall : s.capacity f ≤ f.sso
  · have hinside := placed_small h.owns.placed hsmall
    have hne : s.str.buffer ≠ t.str.buffer := by
      rw [hinside, hq]
      exact nofun
    have hcell : t.memory.cell s.str.buffer = s.memory.cell s.str.buffer := by
      apply hgrown.kept _ hne
      intro q' _
      rw [hinside]
      exact nofun
    have hroom : index + count ≤ t.memory.room t.str.buffer := by
      have hge := calcOptimalGrowth_ge f (s.capacity f) (s.size f + count)
      have hroom := Grown.room_le hgrown
      omega
    have hread : offset + count ≤ t.memory.room s.str.buffer := by
      rw [hinside]
      change _ ≤ t.memory.small
      rw [hgrown.evolves.small, h.owns.small]
      omega
    have hputs := puts_pointer (t := t) hroom hread fun hover => hne hover.1.symm
    have hputs' := hcopied.outside.puts ⟨hgrown.home, hgrown.evolves⟩ (Grown.apart hgrown) hroom
    rw [load_of_cell hcell, ← hcopied.agrees] at hputs
    rw [same_opened_iff ht ⟨hgrown.home, hgrown.evolves⟩ hputs]
    exact iff_of_true (content_congr hputs hputs') hsmall
  · obtain ⟨q', hq', _⟩ := placed_heap h.owns.placed (not_le.mp hsmall)
    have hgone := hgrown.evolves.released q' (held_heap hq') (hgrown.moved q' (held_heap hq'))
    refine iff_of_false (not_same_of_opened ht ?_) hsmall
    rw [← hgrown.evolves.misuse]
    apply copy_misuse _ _ (by omega)
    rw [hq']
    simp only [Memory.room, hgone, Option.map_none, Option.getD_none]
    omega

theorem opened_inside (hless : s.capacity f < s.size f + count) (hmax : s.size f + count ≤ f.maxSize)
    (hsmall : calcOptimalGrowth f (s.capacity f) (s.size f + count) ≤ f.sso)
    (hshift : count = index ∨ s.size f ≤ count ∨ count + (s.size f - index) ≤ index) :
    ∃ t, opened f s index count = .returned t ∧
      Grown f s (calcOptimalGrowth f (s.capacity f) (s.size f + count)) (s.size f + count - index)
        (fun _ => True) t ∧ t.str.buffer = s.str.buffer ∧
      t.memory.cell s.str.buffer = overwrite (s.memory.cell s.str.buffer) count
        (s.memory.load s.str.buffer index (s.size f - index)) := by
  have hge := calcOptimalGrowth_ge f (s.capacity f) (s.size f + count)
  have hcap : s.capacity f ≤ f.sso := by omega
  have hinside := placed_small h.owns.placed hcap
  have hroom : s.memory.room s.str.buffer = f.sso := by
    rw [hinside]
    exact h.owns.small
  obtain ⟨t, ht, hgrown⟩ := opened_grown h hindex hless hmax (.inr hshift)
  refine ⟨t, ht, hgrown, ?_⟩
  rw [opened_of_less hless hmax, growUnchecked_of_small hsmall] at ht
  cases ht
  refine ⟨hinside.symm, ?_⟩
  have hover : ¬ Memory.Overlap s.str.buffer count s.str.buffer index (s.size f - index) := by
    rintro ⟨_, hne, hless, hless'⟩
    omega
  obtain ⟨hw, hcell⟩ := writes_copy s.memory s.str.buffer 0 s.str.buffer 0 index (by omega) (by omega)
    (by simp [Memory.Overlap])
  rw [overwrite_self] at hcell
  obtain ⟨_, hcell'⟩ := writes_copy (s.memory.copy s.str.buffer 0 s.str.buffer 0 index) s.str.buffer count
    s.str.buffer index (s.size f - index) (by rw [hw.room]; omega) (by rw [hw.room]; omega) hover
  rw [hcell, load_of_cell hcell] at hcell'
  rw [← hinside]
  have hdestroy : ∀ m : Memory α, (s.withMemory m).destroy f = m := fun m => if_pos hcap
  change ((s.withMemory _).destroy f).cell s.str.buffer = _
  rw [hdestroy]
  exact hcell'

end

section
variable (h : Usable f s) (hindex : index < s.size f) (hcopied : Copied f s offset count src)
include h hindex hcopied

theorem same_inside_iff
    (hless : s.capacity f < s.size f + count) (hsmall : calcOptimalGrowth f (s.capacity f) (s.size f + count) ≤ f.sso) :
    SameInserted f s index offset count src ↔ (count = index ∨ s.size f ≤ count ∨ count + (s.size f - index) ≤ index) ∧
        Operation.Distinct index offset count := by
  have hle := h.size_le
  have hown := hcopied.own
  have hge := calcOptimalGrowth_ge f (s.capacity f) (s.size f + count)
  have hinside := placed_small h.owns.placed (show s.capacity f ≤ f.sso by omega)
  by_cases hshift : count = index ∨ s.size f ≤ count ∨ count + (s.size f - index) ≤ index
  · obtain ⟨t, ht, hgrown, hbuf, hcell⟩ := opened_inside h hindex.le hless hcopied.max hsmall hshift
    have hk : Keeps f s (.returned t) := ⟨hgrown.home, hgrown.evolves⟩
    have hroom := Grown.room_le hgrown
    by_cases hover : Memory.Overlap s.str.buffer index s.str.buffer offset count
    · apply iff_of_false
      · apply not_same_of_opened ht
        rw [← hgrown.evolves.misuse, hbuf]
        exact copy_overlap hover
      · exact fun hand => overlap_iff.mp hover hand.2
    · have hroom' : index + count ≤ t.memory.room t.str.buffer := by omega
      have hputs := puts_pointer (t := t) (p := s.str.buffer) (j := offset) hroom'
        (by rw [← hbuf]; omega) (by rwa [hbuf])
      have hputs' := hcopied.outside.puts hk (Grown.apart hgrown) hroom'
      rw [same_opened_iff ht hk hputs]
      refine iff_of_true ?_ ⟨hshift, not_not.mp fun hnot => hover (overlap_iff.mpr hnot)⟩
      by_cases hbehind : count + (s.size f - index) ≤ index
      · -- the string is so short that the characters are written behind its end
        have hsize := hgrown.size
        simp (disch := omega) only [content_behind]
      · have hsame : t.memory.load s.str.buffer offset count = s.memory.load s.str.buffer offset count := by
          obtain heq | hlong := hshift.imp_right fun hor => hor.resolve_right hbehind
          · rw [heq, overwrite_self] at hcell
            exact load_of_cell hcell
          · exact load_apart hcell (.inl (by omega))
        rw [hsame, ← hcopied.agrees] at hputs
        exact content_congr hputs hputs'
  · refine iff_of_false ?_ fun hand => hshift hand.1
    obtain ⟨t, ht, hmisuse⟩ := opened_overlap index hsmall hless hcopied.max
      ⟨hinside.symm, by omega, by omega, by omega⟩
    exact not_same_of_opened ht (hmisuse.trans_le tame_copy.misuse)

theorem same_insertImpl_iff :
    SameInserted f s index offset count src ↔ Operation.InsertSafe f s index offset count := by
  unfold Operation.InsertSafe
  split
  · rename_i hroom
    exact same_inPlace_iff h hindex.le hcopied hroom
  · rename_i hroom
    have hless := not_le.mp hroom
    split_ifs with hlarge
    · exact same_heap_iff h hindex.le hcopied hless hlarge
    · exact same_inside_iff h hindex hcopied hless (not_lt.mp hlarge)

end

/-- The calls with own characters that do what they do with a copy of them. -/
theorem same_iff_safe {op : Operation} (h : Usable f s) (hproper : op.Proper f s)
    (hsrc : Outside f s (op.count f s) src)
    (hchars : chars s.memory (op.count f s) src = s.memory.load s.str.buffer op.offset (op.count f s)) :
    Same f s (op.call f s (.pointer s.str.buffer op.offset)) (op.call f s src) ↔ op.Safe f s := by
  obtain ⟨hown, hmax, hindex⟩ := hproper
  have hcopied : Copied f s op.offset (op.count f s) src := ⟨hown, hmax, hsrc, hchars⟩
  cases op with
  | append offset count | appendSelf => exact same_append_iff h hcopied
  | insert index offset count =>
    change s.size f + count ≤ f.maxSize at hmax
    have hnot := hindex.not_gt
    simp only [Operation.call, Operation.Safe, State.insert, if_neg hnot]
    by_cases hend : index = s.size f
    · rw [if_pos hend, if_pos hend, if_pos hend]
      exact same_append_iff h hcopied
    · rw [if_neg hend, if_neg hend, if_neg hend, mod_of_le (Nat.le_of_add_left_le hmax)]
      exact same_insertImpl_iff h (Nat.lt_of_le_of_ne hindex hend) hcopied

theorem same_iff_safe_single : Usable unicode single ∧ (Operation.append 0 1).Proper unicode single ∧
      Outside unicode single 1 (.external [97]) ∧
      Same unicode single ((Operation.append 0 1).call unicode single (.pointer (.inside 0) 0))
        ((Operation.append 0 1).call unicode single (.external [97])) := by
  have hproper : (Operation.append 0 1).Proper unicode single := ⟨by decide, by decide, trivial⟩
  have hsrc : Outside unicode single 1 (.external [97]) := Nat.le_refl 1
  have hchars : chars single.memory 1 (.external [97]) = single.memory.load single.str.buffer 0 1 := by decide
  exact ⟨usable_single, hproper, hsrc, (same_iff_safe usable_single hproper hsrc hchars).mpr (.inl (by decide))⟩

def pair : State Nat :=
  ⟨(Memory.empty 16 fun _ => false).store (.inside 0) 0 [some 97, some 98], 0, ⟨.inside 0, 4, 32⟩⟩

/-- The last character of `"ab"` is inserted at the beginning: the first one arrives. -/
theorem insert_reads_moved : (∃ t, (Operation.insert 0 1 1).call unicode pair (.pointer (.inside 0) 1) = .returned t ∧
      t.content unicode = [some 97, some 97, some 98]) ∧
    ∃ t, (Operation.insert 0 1 1).call unicode pair (.external [98]) = .returned t ∧
      t.content unicode = [some 98, some 97, some 98] :=
  ⟨⟨_, rfl, by decide +kernel⟩, ⟨_, rfl, by decide +kernel⟩⟩

end Ktl.StringAliasing
