import Ktl.StringOwnership

/-!
The operations of one string, each of which leaves the string and its buffer in order however
it ends, with an allocator that may refuse a request.
-/
namespace Ktl.StringBuffers

open TextMemory WinntString StringOwnership Outcome

variable {α : Type} {s t : State α}

def Keeps (f : Format) (s : State α) (r : Result α) : Prop :=
  r.state.home = s.home ∧ Evolves f s.home s.memory s.str r.state.memory r.state.str

theorem keeps_becomes (hb : Becomes f s xs t) : Keeps f s (.returned t) := ⟨hb.home, hb.evolves⟩

theorem Keeps.owns (hk : Keeps f s r) : Owns f r.state.memory r.state.home r.state.str := by
  rw [hk.1]
  exact hk.2.owns

theorem Keeps.trans (hk : Keeps f s (.returned t)) (hr : Keeps f t r) : Keeps f s r := by
  obtain ⟨hhome, hev⟩ := hk
  obtain ⟨hhome', hev'⟩ := hr
  rw [show t.home = s.home from hhome] at hhome' hev'
  exact ⟨hhome', hev.trans hev'⟩

def LeavesNone (r : Result α) : Prop := ∀ err t, r = .threw err t → held t.str = none

theorem leavesNone_of_ends (hr : Ends s r P) (hs : held s.str = none) : LeavesNone r := by
  intro err t ht
  rcases hr with ⟨u, hu, _⟩ | ⟨_, hthrew⟩
  · rw [hu] at ht
    cases ht
  · rw [hthrew] at ht
    cases ht
    exact hs

section

variable (h : Owns f s.memory s.home s.str) (hf : Fresh s.memory)
include h hf

theorem keeps_self (hr : r.state = s) : Keeps f s r := by
  rw [Keeps, hr]
  exact ⟨rfl, Evolves.refl h hf⟩

theorem keeps_of_ends (hr : Ends s r P) (hP : ∀ t, P t → Keeps f s (.returned t)) : Keeps f s r := by
  rcases hr with ⟨t, rfl, ht⟩ | href
  · exact hP t ht
  · exact href.evolves h hf

theorem Evolves.rewritten (hw : Writes s.str.buffer s.memory m') : Evolves f s.home s.memory s.str m' s.str := by
  obtain ⟨hev, _⟩ := Evolves.inPlace h hf hw h.size_le
  rw [← h.length] at hev
  exact hev

end

section

variable {src : Source α} {own : Nat → Prop}

def Foreign (s : State α) : Place → Prop
  | .inside j => j ≠ s.home
  | .heap q => s.memory.block q ≠ none ∧ held s.str ≠ some q

theorem Foreign.keeps (hp : Foreign s p) (hk : Keeps f s (.returned t)) :
    t.str.buffer ≠ p ∧ t.memory.room p = s.memory.room p ∧ Foreign t p := by
  obtain ⟨hhome, hev⟩ := hk
  cases p with
  | inside j =>
    refine ⟨?_, hev.small, by rwa [Foreign, show t.home = s.home from hhome]⟩
    · intro hb
      by_cases hsmall : t.str.capacity f ≤ f.sso
      · have hinside := placed_small hev.owns.placed hsmall
        rw [state_returned, hb] at hinside
        exact hp (Place.inside.inj hinside)
      · obtain ⟨q, hq, _⟩ := placed_heap hev.owns.placed (not_le.mp hsmall)
        rw [state_returned, hb] at hq
        cases hq
  | heap q =>
    have hnew : held t.str ≠ some q := fun hq => hp.1 (hev.acquired q hq hp.2)
    have hcount := hev.others q hp.2 hnew
    refine ⟨fun hb => hnew (held_heap hb), congrArg (fun c => c.getD 0) hcount, ?_, hnew⟩
    intro hnone
    exact hp.1 (block_none_of_count (hcount.symm.trans (map_count_none hnone)))

/-- `n` characters of the caller, of another string, or of the string itself where `own` allows. -/
def Readable (f : Format) (s : State α) (n : Nat) (own : Nat → Prop) : Source α → Prop
  | .external vs => n ≤ vs.length
  | .pointer p offset =>
    Foreign s p ∧ offset + n ≤ s.memory.room p ∨ p = s.str.buffer ∧ offset + n ≤ s.size f ∧ own offset

theorem own_room (h : Owns f s.memory s.home s.str) (hk : Keeps f s (.returned t))
    (hcap : s.capacity f ≤ t.capacity f) (hplace : t.str.buffer = s.str.buffer ∨ s.capacity f ≤ f.sso) :
    s.size f ≤ t.memory.room s.str.buffer := by
  rcases hplace with hsame | hsmall
  · rw [← hsame]
    exact h.size_le.trans (hcap.trans hk.owns.capacity_le_room)
  · rw [placed_small h.placed hsmall]
    have hroom := hk.2.small.trans h.small
    exact (h.size_le.trans hsmall).trans hroom.symm.le

section

variable (hread : Readable f s n own src)

include hread

theorem Readable.mono (himp : ∀ offset, offset + n ≤ s.size f → own offset → own' offset) :
    Readable f s n own' src := by
  cases src with
  | external vs => exact hread
  | pointer p offset =>
    rcases hread with hforeign | ⟨hp, hsize, hown⟩
    · exact .inl hforeign
    · exact .inr ⟨hp, hsize, himp offset hsize hown⟩

theorem Readable.keeps (hk : Keeps f s (.returned t)) (hbuf : t.str.buffer = s.str.buffer)
    (hsize : s.size f ≤ t.size f) (himp : ∀ offset, offset + n ≤ s.size f → own offset → own' offset) :
    Readable f t n own' src := by
  cases src with
  | external vs => exact hread
  | pointer p offset =>
    rcases hread with ⟨hp, hroom⟩ | ⟨hp, hle, hown⟩
    · obtain ⟨_, hsame, hp'⟩ := hp.keeps hk
      exact .inl ⟨hp', by rwa [hsame]⟩
    · exact .inr ⟨hp.trans hbuf.symm, hle.trans hsize, himp offset hle hown⟩

section
variable (h : Owns f s.memory s.home s.str) (hk : Keeps f s (.returned t)) (hcap : s.capacity f ≤ t.capacity f)
  (hroom : i + n ≤ t.memory.room t.str.buffer)
include h hk hcap hroom

theorem Readable.puts_copy
    (hown : ∀ offset, own offset → offset + n ≤ s.size f → (t.str.buffer = s.str.buffer ∨ s.capacity f ≤ f.sso) ∧
      (t.str.buffer = s.str.buffer → i = offset ∨ i + n ≤ offset ∨ offset + n ≤ i)) :
    ∃ xs, Puts (copyHelper src) t i n xs := by
  cases src with
  | external vs => exact ⟨_, puts_external hroom hread⟩
  | pointer p offset =>
    rcases hread with ⟨hp, hsrc⟩ | ⟨rfl, hsize, hown'⟩
    · obtain ⟨hne, hsame, _⟩ := hp.keeps hk
      exact ⟨_, puts_pointer hroom (by rwa [hsame]) fun hover => hne hover.1⟩
    · obtain ⟨hplace, hapart⟩ := hown offset hown' hsize
      refine ⟨_, puts_pointer hroom (hsize.trans (own_room h hk hcap hplace)) ?_⟩
      rintro ⟨hsame, hne, hless, hless'⟩
      have := hapart hsame
      omega

theorem Readable.puts_move (hown : ∀ offset, offset + n ≤ s.size f → t.str.buffer = s.str.buffer) :
    ∃ xs, Puts (moveHelper src) t i n xs := by
  cases src with
  | external vs => exact ⟨_, puts_external_move hroom hread⟩
  | pointer p offset =>
    rcases hread with ⟨hp, hsrc⟩ | ⟨rfl, hsize, _⟩
    · obtain ⟨_, hsame, _⟩ := hp.keeps hk
      exact ⟨_, puts_pointer_move hroom (by rwa [hsame])⟩
    · have hplace := hown offset hsize
      exact ⟨_, puts_pointer_move hroom (hsize.trans (own_room h hk hcap (.inl hplace)))⟩

end

end

end

theorem Prepared.capacity_le (hp : Prepared f s required old t) : s.capacity f ≤ t.capacity f := by
  rcases hp.same with rfl | ⟨hless, _⟩
  · exact le_rfl
  · exact hless.le.trans hp.room

theorem concatImpl_keeps (hre : Ends s (reallocator s (s.size f + count)) (Prepared f s (s.size f + count) old))
    (hmax : s.size f + count ≤ f.maxSize) (hold : old.length = s.size f)
    (hputs : ∀ t, Prepared f s (s.size f + count) old t → ∃ xs, Puts handler t (s.size f) count xs) :
    Ends s (s.concatImpl f reallocator handler count) fun t => Keeps f s (.returned t) := by
  rcases concatImpl_ends (P := fun _ => True) reallocator handler hre hmax hold
    fun t ht => (hputs t ht).imp fun _ hxs => ⟨trivial, hxs⟩ with ⟨u, hu, xs, _, hb⟩ | href
  · exact .inl ⟨u, hu, keeps_becomes hb⟩
  · exact .inr href

theorem append_keeps (h : Owns f s.memory s.home s.str) (hf : Fresh s.memory) (hmax : s.size f + n ≤ f.maxSize)
    (hread : Readable f s n (fun _ => s.size f + n ≤ s.capacity f ∨ s.capacity f ≤ f.sso) src) :
    Keeps f s (s.append f src n) := by
  rw [State.append, mod_of_le (Nat.le_of_add_left_le hmax)]
  refine keeps_of_ends h hf
    (concatImpl_keeps (optimal_prepared h hf (Nat.le_add_right _ _) hmax) hmax length_content ?_) fun _ hk => hk
  intro t ht
  apply hread.puts_copy h (keeps_becomes ht.becomes) (Prepared.capacity_le ht) (ht.room_le le_rfl)
  intro offset hstay hsize
  constructor
  · rcases ht.same with rfl | ⟨hless, _⟩
    · exact .inl rfl
    · exact .inr (hstay.resolve_left hless.not_ge)
  · intro _
    exact .inr (.inr hsize)

section

variable {reallocator : State α → Nat → Result α}

theorem size_clear : (s.clear f).size f = 0 := by
  simp [State.clear, State.withStr, State.size, Native.setSize, Native.size, Format.toBytes, Format.toChars]

theorem content_eq_nil : s.content f = [] ↔ s.size f = 0 := by
  rw [← List.length_eq_zero_iff, length_content]

theorem prepared_own (hn : n ≤ s.capacity f) (ht : Prepared f (s.clear f) n [] t) : t = s.clear f := by
  rcases ht.same with hsame | ⟨hless, _⟩
  · exact hsame
  · exact absurd hn hless.not_ge

def Clears (f : Format) (s : State α) (reallocator : State α → Nat → Result α) : Prop :=
  ∀ n ≤ f.maxSize, Ends (s.clear f) (reallocator (s.clear f) n) (Prepared f (s.clear f) n [])

theorem concatEmpty_ends (reallocator : State α → Nat → Result α) (handler : Handler α) (hzero : s.size f = 0)
    (hre : Ends s (reallocator s n) (Prepared f s n [])) (hmax : n ≤ f.maxSize)
    (hputs : ∀ t, Prepared f s n [] t → ∃ xs, Puts handler t 0 n xs) :
    Ends s (s.concatImpl f reallocator handler n) fun t => Keeps f s (.returned t) := by
  have hsum : s.size f + n = n := by rw [hzero, Nat.zero_add]
  refine concatImpl_keeps ?_ ?_ (show [].length = s.size f from hzero.symm) ?_
  · rwa [hsum]
  · rwa [hsum]
  · rw [hsum, hzero]
    exact hputs

variable (h : Owns f s.memory s.home s.str) (hf : Fresh s.memory)
include h hf

theorem clear_becomes : Becomes f s [] (s.clear f) := by
  have hstr : s.str.setSize f 0 = { s.str with length := 0 * f.charSize } := by
    rw [Native.setSize, (fits_of_le (Nat.zero_le _)).toBytes]
  constructor
  · rfl
  · simp only [State.clear, hstr]
    exact (Evolves.inPlace h hf (Writes.refl _ _) (Nat.zero_le _)).1
  · rw [State.content, size_clear]
    rfl

theorem clears_dummy : Clears f s fun s required => s.growIfNeeded f required dummyTransfer := by
  have hclear := clear_becomes h hf
  exact fun _ hn => dummy_prepared hclear.owns hclear.evolves.fresh size_clear hn

theorem clears_reserve : Clears f s fun s required => s.reserve f required := by
  intro n hn
  have hclear := clear_becomes h hf
  have hprep := reserve_prepared hclear.owns hclear.evolves.fresh hn
  rwa [content_eq_nil.mpr size_clear] at hprep

theorem assign_keeps (handler : Handler α) (hre : Clears f s reallocator) (hmax : n ≤ f.maxSize)
    (hputs : ∀ t, Prepared f (s.clear f) n [] t → ∃ xs, Puts handler t 0 n xs) :
    Keeps f s ((s.clear f).concatImpl f reallocator handler n) := by
  have hclear := clear_becomes h hf
  have hends := concatEmpty_ends reallocator handler size_clear (hre n hmax) hmax hputs
  exact (keeps_becomes hclear).trans (keeps_of_ends hclear.owns hclear.evolves.fresh hends fun _ hk => hk)

theorem assignCopy_keeps (hre : Clears f s reallocator) (hmax : n ≤ f.maxSize)
    (hread : Readable f s n (fun offset => offset = 0 ∨ n ≤ offset) src) :
    Keeps f s ((s.clear f).concatImpl f reallocator (copyHelper src) n) := by
  have hclear := clear_becomes h hf
  apply assign_keeps h hf _ hre hmax
  intro t ht
  have hcap := Prepared.capacity_le (s := s.clear f) ht
  apply hread.puts_copy h ((keeps_becomes hclear).trans (keeps_becomes ht.becomes)) hcap
  · exact (Nat.zero_add n).le.trans (ht.room_le le_rfl)
  · intro offset hapart hsize
    have hle := hsize.trans h.size_le
    obtain rfl := prepared_own ((Nat.le_add_left _ _).trans hle) ht
    constructor
    · exact .inl rfl
    · intro _
      omega

theorem assignChars_keeps (own : Nat → Prop) (hmax : n ≤ f.maxSize) (hread : Readable f s n own src) :
    Keeps f s (s.assignChars f src n) := by
  have hclear := clear_becomes h hf
  rw [State.assignChars, mod_of_le hmax]
  apply assign_keeps h hf _ (clears_dummy h hf) hmax
  intro t ht
  have hcap := Prepared.capacity_le (s := s.clear f) ht
  apply hread.puts_move h ((keeps_becomes hclear).trans (keeps_becomes ht.becomes)) hcap
  · exact (Nat.zero_add n).le.trans (ht.room_le le_rfl)
  · intro offset hsize
    have hle := hsize.trans h.size_le
    obtain rfl := prepared_own ((Nat.le_add_left _ _).trans hle) ht
    rfl

theorem assignNative_keeps (hmax : n ≤ f.maxSize) (hread : Readable f s n (fun offset => offset = 0 ∨ n ≤ offset) src) :
    Keeps f s (s.assignNative f src n) := by
  rw [State.assignNative, mod_of_le hmax]
  exact assignCopy_keeps h hf (clears_dummy h hf) hmax hread

theorem assignRange_keeps (hmax : n ≤ f.maxSize) (hread : Readable f s n (fun offset => offset = 0 ∨ n ≤ offset) src) :
    Keeps f s (s.assignRange f src n) := by
  rw [State.assignRange, mod_of_le hmax]
  exact assignCopy_keeps h hf (clears_reserve h hf) hmax hread

end

section

theorem Owns.capacity_le_max (h : Owns f m home v) (hwide : f.charSize = 2) : v.capacity f ≤ f.maxSize := by
  have hfits := h.fits
  unfold Fits at hfits
  rw [maxSize_eq, hwide, if_neg (by decide)]
  rw [hwide] at hfits
  omega

variable (h : Owns f s.memory s.home s.str) (hf : Fresh s.memory)
include h hf

theorem resize_cases (ch : α) (hsize : s.size f ≤ n) (hmax : n ≤ f.maxSize) :
    Ends s (s.resize f n ch) (Becomes f s (s.content f ++ List.replicate (n - s.size f) (some ch))) := by
  rcases reserve_prepared h hf hmax with ⟨t, ht, hprep⟩ | href
  · have hsame := hprep.becomes.size.trans length_content
    have hlen : (List.replicate (n - s.size f) (some ch)).length = n - s.size f := List.length_replicate
    have hroom : t.size f + (List.replicate (n - s.size f) (some ch)).length ≤ t.capacity f := by
      rw [hsame, hlen]
      exact (Nat.add_sub_cancel' hsize).le.trans hprep.room
    obtain ⟨hw, hcell⟩ := writes_write t.memory t.str.buffer (t.size f) _
      (hroom.trans hprep.becomes.owns.capacity_le_room)
    obtain ⟨hext, _⟩ := extended hprep.becomes.owns hprep.becomes.evolves.fresh hroom hw hcell
    have hstr : t.str.increaseSize f (List.replicate (n - s.size f) (some ch)).length = t.str.setSize f n := by
      have hown := hprep.becomes.owns.length
      have hfits := fits_of_le hmax
      rw [Native.increaseSize, Native.setSize, hlen, (hfits.le (Nat.sub_le _ _)).toBytes, hown, ← Nat.add_mul]
      change { t.str with length := (t.size f + (n - s.size f)) * f.charSize % 2 ^ 16 } = _
      rw [hsame, Nat.add_sub_cancel' hsize, Format.toBytes]
    have hmem : (if t.size f < n then fillHelper ch t.memory t.str.buffer (t.size f) (n - t.size f)
        else t.memory) = t.memory.write t.str.buffer (t.size f) (List.replicate (n - s.size f) (some ch)) := by
      rw [hsame]
      split
      · rfl
      · have hzero : n - s.size f = 0 := by omega
        rw [hzero]
        rfl
    rw [hstr, hprep.becomes.content] at hext
    simp only [State.resize, ht, map_returned, hmem]
    exact .inl ⟨_, rfl, hprep.becomes.trans hext⟩
  · exact .inr (href.map _)

theorem setSize_keeps (hw : Writes s.str.buffer s.memory m') (hn : n ≤ s.capacity f) :
    Keeps f s (.returned ((s.withMemory m').withStr (s.str.setSize f n))) := by
  have hstr : s.str.setSize f n = { s.str with length := n * f.charSize } := by
    rw [Native.setSize, (h.fits.le hn).toBytes]
  simp only [hstr]
  exact ⟨rfl, (Evolves.inPlace h hf hw hn).1⟩

theorem reserve_keeps : Keeps f s (s.reserve f n) := by
  by_cases hmax : n ≤ f.maxSize
  · exact keeps_of_ends h hf (reserve_prepared h hf hmax) fun _ hprep => keeps_becomes hprep.becomes
  · apply keeps_self h hf
    simp only [State.reserve, State.growIfNeeded, State.grow, if_neg hmax]
    split <;> rfl

theorem resize_keeps (hwide : f.charSize = 2) : Keeps f s (s.resize f n ch) := by
  have hcap : s.capacity f ≤ f.maxSize := Owns.capacity_le_max h hwide
  by_cases hmax : n ≤ f.maxSize
  · by_cases hsize : s.size f ≤ n
    · exact keeps_of_ends h hf (resize_cases h hf ch hsize hmax) fun _ => keeps_becomes
    · have hle : s.size f ≤ s.capacity f := h.size_le
      have hreserve : s.reserve f n = .returned s := by
        rw [State.reserve, State.growIfNeeded, if_neg (by omega)]
      simp only [State.resize, hreserve, map_returned]
      rw [if_neg (by omega)]
      exact setSize_keeps h hf (Writes.refl _ _) (by omega)
  · apply keeps_self h hf
    simp [State.resize, State.reserve, State.growIfNeeded, State.grow, if_neg hmax,
      if_pos (show s.capacity f < n by omega), map_threw, state_threw]

theorem appendFill_keeps (hwide : f.charSize = 2) : Keeps f s (s.appendFill f count ch) := resize_keeps h hf hwide

theorem assignFill_keeps (hwide : f.charSize = 2) : Keeps f s (s.assignFill f count ch) := by
  have hclear := clear_becomes h hf
  exact (keeps_becomes hclear).trans (resize_keeps hclear.owns hclear.evolves.fresh hwide)

theorem assignChar_keeps (hpos : 0 < s.capacity f) : Keeps f s (.returned (s.assignChar f ch)) := by
  obtain ⟨hw, _⟩ := writes_write s.memory s.str.buffer 0 [some ch] (Nat.le_trans hpos h.capacity_le_room)
  exact setSize_keeps h hf hw hpos

theorem erase_keeps : Keeps f s (s.erase f index count) := by
  unfold State.erase
  split_ifs with hindex
  · exact keeps_self h hf rfl
  · generalize hk : min count (s.size f - index) = k
    have hsize : s.size f ≤ s.capacity f := h.size_le
    have hroom : s.capacity f ≤ s.memory.room s.str.buffer := h.capacity_le_room
    have hbytes : (s.str.length + 2 ^ 16 - f.toBytes k) % 2 ^ 16 = (s.size f - k) * f.charSize := by
      have hfits : Fits f (s.size f) := h.fits.le h.size_le
      have hle : k * f.charSize ≤ s.size f * f.charSize := Nat.mul_le_mul_right _ (by omega)
      have hlt : s.size f * f.charSize < 2 ^ 16 := hfits
      have hlen : s.str.length = s.size f * f.charSize := h.length
      rw [(hfits.le (by omega)).toBytes, Nat.sub_mul, hlen]
      omega
    obtain ⟨hw, _⟩ := writes_move s.memory s.str.buffer index s.str.buffer (index + k)
      (s.size f - (index + k)) (by omega) (by omega)
    simp only [State.eraseUnchecked, Native.decreaseSize, hbytes]
    exact ⟨rfl, (Evolves.inPlace h hf hw ((Nat.sub_le _ _).trans hsize)).1⟩

end

section

theorem calcGrowth_of_small (hpos : 0 < c) (hless : c < 2 ^ 15) (hmax : c < f.maxSize) :
    c < calcGrowth f c ∧ calcGrowth f c ≤ f.maxSize := by
  rw [calcGrowth, if_neg hmax.ne, calcGrowthUnchecked]
  omega

structure Pushed (f : Format) (s : State α) (ch : α) (t : State α) : Prop where
  becomes : Becomes f s (s.content f ++ [some ch]) t
  capacity : t.capacity f = if s.size f = s.capacity f then calcGrowth f (s.capacity f) else s.capacity f
  next : t.memory.next = s.memory.next +
    if s.size f = s.capacity f ∧ f.sso < calcGrowth f (s.capacity f) then 1 else 0
  buffer : s.size f ≠ s.capacity f → t.str.buffer = s.str.buffer

theorem Pushed.size (h : Pushed f s ch t) : t.size f = s.size f + 1 := by
  rw [h.becomes.size, List.length_append, length_content, List.length_singleton]

theorem pushed_of_room (ch : α) (h : Owns f t.memory t.home t.str) (hf : Fresh t.memory)
    (hroom : t.size f + 1 ≤ t.capacity f) :
    ∃ u, (t.withMemory (t.memory.write t.str.buffer (t.size f) [some ch])).withStr
      (t.str.increaseSize f 1) = u ∧ Becomes f t (t.content f ++ [some ch]) u ∧
      u.capacity f = t.capacity f ∧ u.memory.next = t.memory.next ∧ u.str.buffer = t.str.buffer := by
  have hroom' : t.size f + [some ch].length ≤ t.capacity f := hroom
  obtain ⟨hw, hcell⟩ := writes_write t.memory t.str.buffer (t.size f) _ (hroom'.trans h.capacity_le_room)
  obtain ⟨hext, hcap⟩ := extended h hf hroom' hw hcell
  exact ⟨_, rfl, hext, hcap, hw.next, rfl⟩

theorem lt_of_fits_wide (hfits : Fits f c) (hwide : f.charSize = 2) : c < 2 ^ 15 := by
  unfold Fits at hfits
  rw [hwide] at hfits
  omega

theorem Pushed.capacity_pos (h : Pushed f s ch t) : 0 < t.capacity f :=
  (Nat.succ_pos _).trans_le (h.size.symm.le.trans h.becomes.owns.size_le)

/-- How many blocks are asked for while `n` characters are pushed one by one. -/
def requests (f : Format) (size capacity : Nat) : Nat → Nat
  | 0 => 0
  | n + 1 =>
    if size = capacity then
      (if f.sso < calcGrowth f capacity then 1 else 0) + requests f (size + 1) (calcGrowth f capacity) n
    else requests f (size + 1) capacity n

variable (h : Owns f s.memory s.home s.str) (hf : Fresh s.memory)
include h hf

theorem pushBack_cases (ch : α) (hmax : s.size f < f.maxSize)
    (hgrows : s.capacity f = s.size f → 0 < s.capacity f ∧ s.capacity f < 2 ^ 15) :
    (∃ t, s.pushBack f ch = .returned t ∧ Pushed f s ch t) ∨
    Refused s (s.pushBack f ch) ∧ s.size f = s.capacity f ∧ f.sso < calcGrowth f (s.capacity f) := by
  by_cases hfull : s.capacity f = s.size f
  · obtain ⟨hpos, hless⟩ := hgrows hfull
    obtain ⟨hmore, hle⟩ := calcGrowth_of_small (f := f) hpos hless (by omega)
    have hold : s.size f ≤ calcGrowth f (s.capacity f) := by omega
    rcases growUnchecked_cases h hf hmore.le (fits_of_le hle) hold
      (transfers_without_shift hold) with ⟨t, ht, hgrown⟩ | href
    · left
      have hsize := hgrown.size
      have hcapacity := hgrown.capacity
      obtain ⟨u, hu, hb, hcap, hnext, _⟩ := pushed_of_room ch hgrown.becomes.owns hgrown.evolves.fresh (by omega)
      rw [hsize] at hu
      simp only [State.pushBack, if_pos hfull, State.grow, if_pos hle, ht, map_returned]
      refine ⟨_, rfl, ?_⟩
      rw [hu]
      constructor
      · have hb' := hgrown.becomes.trans hb
        rwa [hgrown.becomes.content] at hb'
      · rw [if_pos hfull.symm, hcap, hcapacity]
      · rw [hnext, hgrown.next]
        simp [hfull.symm]
      · exact fun hne => absurd hfull.symm hne
    · right
      have hlarge : f.sso < calcGrowth f (s.capacity f) := by
        by_contra hsmall
        rw [growUnchecked_of_small (not_lt.mp hsmall)] at href
        cases href.2
      refine ⟨?_, hfull.symm, hlarge⟩
      simp only [State.pushBack, if_pos hfull, State.grow, if_pos hle]
      exact Refused.map href _
  · left
    have hsize : s.size f ≤ s.capacity f := h.size_le
    obtain ⟨u, hu, hb, hcap, hnext, hbuf⟩ := pushed_of_room ch h hf (by omega)
    simp only [State.pushBack, if_neg hfull, map_returned, hu]
    refine ⟨_, rfl, ?_⟩
    constructor
    · exact hb
    · rw [if_neg (Ne.symm hfull), hcap]
    · rw [if_neg fun hand => hfull hand.1.symm]
      exact hnext
    · exact fun _ => hbuf

theorem pushBack_keeps (hwide : f.charSize = 2) (hmax : s.size f < f.maxSize) (hpos : 0 < s.capacity f) :
    Keeps f s (s.pushBack f ch) := by
  rcases pushBack_cases h hf ch hmax fun _ => ⟨hpos, lt_of_fits_wide h.fits hwide⟩ with
    ⟨t, ht, hpushed⟩ | ⟨href, _⟩
  · rw [ht]
    exact keeps_becomes hpushed.becomes
  · exact href.evolves h hf

theorem pushEach_of_room (hwide : f.charSize = 2) (hroom : s.size f + vs.length ≤ s.capacity f) :
    ∃ t, pushEach f s vs = .returned t ∧ Becomes f s (s.content f ++ vs.map some) t ∧
      t.capacity f = s.capacity f ∧ t.str.buffer = s.str.buffer ∧
      t.memory.next = s.memory.next := by
  induction vs generalizing s with
  | nil => exact ⟨s, rfl, by simpa using becomes_self h hf, rfl, rfl, rfl⟩
  | cons ch vs ih =>
    simp only [List.length_cons] at hroom
    have hcap : s.capacity f ≤ f.maxSize := Owns.capacity_le_max h hwide
    rcases pushBack_cases h hf ch (by omega) fun hfull => by omega with
      ⟨t, ht, hpushed⟩ | ⟨_, hfull, _⟩
    · have hsize := hpushed.size
      have hcap' := hpushed.capacity
      rw [if_neg (by omega)] at hcap'
      have hnext := hpushed.next
      rw [if_neg (by omega), Nat.add_zero] at hnext
      obtain ⟨u, hu, hb, hcapu, hbuf, hnextu⟩ := ih hpushed.becomes.owns hpushed.becomes.evolves.fresh (by omega)
      rw [hpushed.becomes.content, List.append_assoc] at hb
      refine ⟨u, ?_, hpushed.becomes.trans hb, hcapu.trans hcap',
        hbuf.trans (hpushed.buffer (by omega)), hnextu.trans hnext⟩
      rw [pushEach, ht, andThen_returned, hu]
    · omega

omit h hf

/-- Characters that can be pushed one by one: there is a capacity that can be doubled. -/
structure Pushable (f : Format) (s : State α) (vs : List α) : Prop where
  owns : Owns f s.memory s.home s.str
  fresh : Fresh s.memory
  wide : f.charSize = 2
  fits : s.size f + vs.length ≤ f.maxSize
  positive : vs = [] ∨ 0 < s.capacity f

theorem Pushable.grows (h : Pushable f s (ch :: vs)) :
    s.size f < f.maxSize ∧ 0 < s.capacity f ∧ s.capacity f < 2 ^ 15 := by
  have hfits := h.fits
  rw [List.length_cons] at hfits
  exact ⟨by omega, h.positive.resolve_left (List.cons_ne_nil _ _), lt_of_fits_wide h.owns.fits h.wide⟩

theorem Pushable.next (h : Pushable f s (ch :: vs)) (hpushed : Pushed f s ch t) : Pushable f t vs := by
  have hsize := hpushed.size
  have hfits := h.fits
  rw [List.length_cons] at hfits
  exact ⟨hpushed.becomes.owns, hpushed.becomes.evolves.fresh, h.wide, by omega, .inr hpushed.capacity_pos⟩

theorem Pushed.requests (h : Pushed f s ch t) (n : Nat) : StringBuffers.requests f (s.size f) (s.capacity f) (n + 1) =
      (if s.size f = s.capacity f ∧ f.sso < calcGrowth f (s.capacity f) then 1 else 0) +
        StringBuffers.requests f (t.size f) (t.capacity f) n := by
  rw [StringBuffers.requests, h.size, h.capacity]
  by_cases hfull : s.size f = s.capacity f
  · simp [hfull]
  · rw [if_neg hfull, if_neg hfull, if_neg fun hand => hfull hand.1, Nat.zero_add]

theorem Pushable.no_request (h : Pushable f s (ch :: vs)) (hs : s.pushBack f ch = .returned t)
    (hfail : s.memory.fails s.memory.next = true) :
    ¬ (s.size f = s.capacity f ∧ f.sso < calcGrowth f (s.capacity f)) := by
  rintro ⟨hfull, hlarge⟩
  obtain ⟨hmax, hpos, hless⟩ := h.grows
  have hle := calcGrowth_of_small (f := f) hpos hless (by omega)
  simp only [State.pushBack, if_pos hfull.symm, State.grow, if_pos hle.2, growUnchecked_of_fails hlarge hfail] at hs
  cases hs

theorem pushEach_cases (h : Pushable f s vs) :
    (∃ t, pushEach f s vs = .returned t ∧ Becomes f s (s.content f ++ vs.map some) t) ∨
    ∃ err t, pushEach f s vs = .threw err t ∧ Keeps f s (.returned t) ∧
      (∃ k < requests f (s.size f) (s.capacity f) vs.length, s.memory.fails (s.memory.next + k) = true) ∧
      (s.capacity f ≤ f.sso → s.memory.fails s.memory.next = true → held t.str = none) := by
  induction vs generalizing s with
  | nil => exact .inl ⟨s, rfl, by simpa using becomes_self h.owns h.fresh⟩
  | cons ch vs ih =>
    obtain ⟨hmax, hgrows⟩ := h.grows
    rw [pushEach]
    rcases pushBack_cases h.owns h.fresh ch hmax fun _ => hgrows with ⟨t, ht, hpushed⟩ | ⟨href, hfull, hlarge⟩
    · have hb := hpushed.becomes
      rw [ht, andThen_returned]
      rcases ih (h.next hpushed) with ⟨u, hu, hb'⟩ | ⟨err, u, hu, hk, ⟨k, hasked, hfails⟩, hnone⟩
      · rw [hb.content, List.append_assoc] at hb'
        exact .inl ⟨u, hu, hb.trans hb'⟩
      · rw [hb.evolves.fails, hpushed.next] at hfails hnone
        refine .inr ⟨err, u, hu, (keeps_becomes hb).trans hk, ⟨_, ?_, Nat.add_assoc _ _ k ▸ hfails⟩, ?_⟩
        · rw [List.length_cons, hpushed.requests]
          exact Nat.add_lt_add_left hasked _
        · intro hsmall hfail
          have hnot := h.no_request ht hfail
          rw [if_neg hnot, hpushed.capacity] at hnone
          refine hnone ?_ hfail
          split_ifs with hfull
          · exact not_lt.mp fun hlarge => hnot ⟨hfull, hlarge⟩
          · exact hsmall
    · rw [href.2]
      refine .inr ⟨_, _, rfl, ⟨rfl, Evolves.refused h.owns h.fresh⟩, ⟨0, ?_, href.1⟩, fun hsmall _ => ?_⟩
      · rw [List.length_cons, requests, if_pos hfull, if_pos hlarge]
        omega
      · exact held_inside (placed_small h.owns.placed hsmall)

theorem pushEach_keeps (h : Pushable f s vs) : Keeps f s (pushEach f s vs) := by
  rcases pushEach_cases h with ⟨t, ht, hb⟩ | ⟨err, t, ht, hk, _⟩
  · rw [ht]
    exact keeps_becomes hb
  · rw [ht]
    exact hk

theorem pushEach_leavesNone (h : Pushable f s vs) (hsmall : s.capacity f ≤ f.sso)
    (hserved : s.memory.fails s.memory.next = true ∨
      ∀ k < requests f (s.size f) (s.capacity f) vs.length, s.memory.fails (s.memory.next + k) = false) :
    LeavesNone (pushEach f s vs) := by
  intro err t ht
  rcases pushEach_cases h with ⟨u, hu, _⟩ | ⟨err', u, hu, _, ⟨k, hasked, hfails⟩, hnone⟩
  · rw [hu] at ht
    cases ht
  · rw [hu] at ht
    cases ht
    rcases hserved with href | hserved
    · exact hnone hsmall href
    · rw [hserved k hasked] at hfails
      cases hfails

theorem assignEach_keeps (h : Owns f s.memory s.home s.str) (hf : Fresh s.memory) (hwide : f.charSize = 2)
    (hmax : vs.length ≤ f.maxSize) (hpos : vs = [] ∨ 0 < s.capacity f) : Keeps f s (s.assignEach f vs) := by
  have hclear := clear_becomes h hf
  apply (keeps_becomes hclear).trans
  exact pushEach_keeps ⟨hclear.owns, hclear.evolves.fresh, hwide, by rwa [size_clear, Nat.zero_add], hpos⟩

end

section

theorem calcOptimalGrowth_ge (f : Format) (capacity required : Nat) :
    required ≤ calcOptimalGrowth f capacity required :=
  Nat.le_max_right _ _

/-- In a block that is not replaced, and not across the place of the insertion. -/
def InsertsOwn (f : Format) (size capacity index n offset : Nat) : Prop :=
  (size + n ≤ capacity ∨ capacity ≤ f.sso) ∧ (index = offset ∨ index + n ≤ offset ∨ offset + n ≤ index)
deriving Decidable

variable (h : Owns f s.memory s.home s.str) (hf : Fresh s.memory)
include h hf

theorem insertImpl_keeps (hindex : index ≤ s.size f) (hsum : s.size f + count < 2 ^ 16)
    (hshift : Shiftable f (s.capacity f) (s.size f) index count)
    (hputs : ∀ t, Keeps f s (.returned t) → s.capacity f ≤ t.capacity f →
      (t.str.buffer = s.str.buffer ∨ s.capacity f < s.size f + count) → index + count ≤ t.memory.room t.str.buffer →
        ∃ xs, Puts handler t index count xs) :
    Keeps f s (s.insertImpl f index handler count) := by
  have hwrite : ∀ t, Keeps f s (.returned t) → s.capacity f ≤ t.capacity f →
      (t.str.buffer = s.str.buffer ∨ s.capacity f < s.size f + count) →
      s.size f + count ≤ t.capacity f →
      Keeps f s (.returned (t.withMemory (handler t.memory t.str.buffer index count))) := by
    intro t hk hcap hplace hle
    have hroom := ((Nat.add_le_add_right hindex _).trans hle).trans hk.owns.capacity_le_room
    obtain ⟨xs, _, hw, _⟩ := hputs t hk hcap hplace hroom
    exact hk.trans ⟨rfl, Evolves.rewritten hk.owns hk.2.fresh hw⟩
  simp only [State.insertImpl, Nat.mod_eq_of_lt hsum]
  by_cases hless : s.capacity f < s.size f + count
  · rw [if_pos hless, State.grow]
    have hge : s.size f + count ≤ calcOptimalGrowth f (s.capacity f) (s.size f + count) :=
      calcOptimalGrowth_ge _ _ _
    by_cases hmax : calcOptimalGrowth f (s.capacity f) (s.size f + count) ≤ f.maxSize
    · rw [if_pos hmax]
      have hfits := fits_of_le hmax
      rcases growUnchecked_cases h hf (hless.le.trans hge) hfits
        ((Nat.sub_le _ _).trans hge) (transfers_shifter hindex hge hfits (hshift hless)) with
        ⟨t, ht, hgrown⟩ | href
      · have hcap := hgrown.capacity
        rw [ht]
        exact hwrite t ⟨hgrown.home, hgrown.evolves⟩ (by omega) (.inr hless) (by omega)
      · exact (Refused.map href _).evolves h hf
    · rw [if_neg hmax]
      exact keeps_self h hf rfl
  · have hle := not_lt.mp hless
    have hroom : s.capacity f ≤ s.memory.room s.str.buffer := h.capacity_le_room
    obtain ⟨hw, _⟩ := writes_move s.memory s.str.buffer (index + count) s.str.buffer index
      (s.size f - index) (by omega) (by omega)
    have hstr : s.str.increaseSize f count =
        { s.str with length := (s.size f + count) * f.charSize } := by
      have hfits := h.fits.le hle
      have hlen : s.str.length = s.size f * f.charSize := h.length
      rw [Native.increaseSize, (hfits.le (Nat.le_add_left _ _)).toBytes, hlen, ← Nat.add_mul, Nat.mod_eq_of_lt hfits]
    rw [if_neg hless, hstr]
    exact hwrite _ ⟨rfl, (Evolves.inPlace h hf hw hle).1⟩ le_rfl (.inl rfl) hle

theorem insertCopy_keeps (hindex : index ≤ s.size f) (hsum : s.size f + n < 2 ^ 16)
    (hshift : Shiftable f (s.capacity f) (s.size f) index n)
    (hread : Readable f s n (InsertsOwn f (s.size f) (s.capacity f) index n) src) :
    Keeps f s (s.insertImpl f index (copyHelper src) n) := by
  apply insertImpl_keeps h hf hindex hsum hshift
  intro t hk hcap hplace hroom
  apply hread.puts_copy h hk hcap hroom
  rintro offset ⟨hstay, hapart⟩ _
  constructor
  · rcases hplace with hsame | hless
    · exact .inl hsame
    · exact .inr (hstay.resolve_left hless.not_ge)
  · exact fun _ => hapart

theorem insert_keeps (hn : n ≤ f.maxSize) (hsum : s.size f + n < 2 ^ 16)
    (hmax : index = s.size f → s.size f + n ≤ f.maxSize) (hshift : Shiftable f (s.capacity f) (s.size f) index n)
    (hread : Readable f s n (InsertsOwn f (s.size f) (s.capacity f) index n) src) :
    Keeps f s (s.insert f index src n) := by
  unfold State.insert
  split
  · exact keeps_self h hf rfl
  · rename_i hindex
    split_ifs with hend
    · exact append_keeps h hf (hmax hend) (hread.mono fun offset _ hown => hown.1)
    · rw [mod_of_le hn]
      exact insertCopy_keeps h hf (not_lt.mp hindex) hsum hshift hread

theorem append_of_room (hmax : s.size f + n ≤ f.maxSize) (hroom : s.size f + n ≤ s.capacity f)
    (hread : Readable f s n (fun _ => True) src) :
    ∃ t, s.append f src n = .returned t ∧ Keeps f s (.returned t) ∧ t.size f = s.size f + n ∧
      t.capacity f = s.capacity f ∧ t.str.buffer = s.str.buffer := by
  have hself := prepared_self h hf hroom
  obtain ⟨xs, hxs⟩ := hread.puts_copy (i := s.size f) h (keeps_becomes hself.becomes) le_rfl
    (hself.room_le le_rfl) fun offset _ hsize => ⟨.inl rfl, fun _ => .inr (.inr hsize)⟩
  have hre : s.growOptimally f ((s.size f + n) % 2 ^ 16) = .returned s := by
    rw [mod_of_le hmax, State.growOptimally, if_neg hroom.not_gt]
  have hcall : s.append f src n = .returned ((s.withMemory (copyHelper src s.memory s.str.buffer
      (s.size f) n)).withStr (s.str.increaseSize f n)) := by
    simp only [State.append, mod_of_le (Nat.le_of_add_left_le hmax), State.concatWithOptimalGrowth,
      State.concatImpl, hre, map_returned]
  obtain ⟨u, hu, hb, hcap⟩ := concatImpl_returned (fun s required => s.growOptimally f required) hre hself.becomes
    length_content hroom hxs
  have hsame : s.append f src n = .returned u := by
    rw [← hu, State.append, mod_of_le (Nat.le_of_add_left_le hmax)]
    rfl
  refine ⟨u, hsame, keeps_becomes hb, ?_, hcap, ?_⟩
  · rw [hb.size, List.length_append, length_content, hxs.1]
  · rw [hcall] at hsame
    cases hsame
    rfl

theorem insertPointers_keeps (hwide : f.charSize = 2) (hindex : index ≤ s.size f)
    (hmax : s.size f + n ≤ f.maxSize) (hend : index = s.size f → s.size f + n ≤ s.capacity f)
    (hlater : later = if index = s.size f then s.size f + n else s.size f)
    (hshift : Shiftable f (s.capacity f) later index n)
    (hread : Readable f s n (InsertsOwn f later (s.capacity f) index n) src) :
    Keeps f s (s.insertPointers f index src n) := by
  simp only [State.insertPointers, mod_of_le (Nat.le_of_add_left_le hmax)]
  by_cases hat : index = s.size f
  · rw [if_pos hat] at hlater
    subst hlater
    obtain ⟨t, ht, hk, hsize, hcap, hbuf⟩ := append_of_room h hf hmax (hend hat) (hread.mono fun _ _ _ => trivial)
    have hsum : t.size f + n < 2 ^ 16 := by
      have hmaxSize := maxSize_eq (f := f)
      rw [hwide, if_neg (by decide)] at hmaxSize
      omega
    simp only [if_pos hat, State.thenInsert, ht, andThen_returned, if_pos hbuf]
    apply hk.trans
    apply insertCopy_keeps (s := t) hk.owns hk.2.fresh (by rw [hsize]; omega) hsum
    · rwa [hsize, hcap]
    · rw [hsize, hcap]
      exact hread.keeps hk hbuf (by omega) fun _ _ hown => hown
  · rw [if_neg hat] at hlater
    subst hlater
    rw [if_neg hat]
    exact insertCopy_keeps h hf hindex (hmax.trans_lt maxSize_lt) hshift hread

end

section

theorem owns_small (hsmall : m.small = f.sso) (hn : n ≤ smallCapacity f) : Owns f m home (.small f home n) := by
  have hsize : (Native.small f home n).size f = n := (fits_smallCapacity.le hn).toChars
  have hcap : (Native.small f home n).capacity f = smallCapacity f := rfl
  constructor
  · exact hsmall
  · rw [hsize]
    exact (fits_smallCapacity.le hn).toBytes
  · rw [hcap]
    change f.toBytes f.sso = f.toChars (f.toBytes f.sso) * f.charSize
    unfold Format.toChars Format.toBytes
    rcases f.charSize_eq with hone | htwo
    · rw [hone]
      omega
    · rw [htwo]
      omega
  · exact fits_smallCapacity
  · rwa [hsize, hcap]
  · exact le_rfl
  · rw [Placed, hcap, if_pos smallCapacity_le]
    rfl

variable (h : Owns f s.memory s.home s.str) (hf : Fresh s.memory)
include h hf

theorem destroy_keeps : Keeps f s (.returned ⟨s.destroy f, s.home, .small f s.home 0⟩) := by
  obtain ⟨hgone, hkept, hsmall, hnext, hfails, hmisuse, _⟩ := h.destroy
  refine ⟨rfl, ?_⟩
  constructor
  · exact owns_small (hsmall.trans h.small) (Nat.zero_le _)
  · intro q hq
    by_cases hold : held s.str = some q
    · exact hgone q hold
    · rw [state_returned, hkept q hold]
      exact hf q (hnext.symm.le.trans hq)
  · exact hsmall
  · exact hfails
  · exact hmisuse
  · intro q hq _
    exact congrArg (Option.map Block.count) (hkept q hq)
  · intro q hq _
    exact hgone q hq
  · intro q hq
    cases hq

theorem copyAssign_keeps (propagate : Bool) (hother : Foreign s other.buffer) (hsize : other.size f ≤ f.maxSize)
    (hroom : other.size f ≤ s.memory.room other.buffer) : Keeps f s (s.copyAssign f propagate other) := by
  cases propagate with
  | false =>
    exact assignCopy_keeps h hf (clears_dummy h hf) hsize (.inl ⟨hother, by rwa [Nat.zero_add]⟩)
  | true =>
    have hk := destroy_keeps h hf
    obtain ⟨_, hsame, hother'⟩ := hother.keeps hk
    apply hk.trans
    rw [← hsame] at hroom
    exact assignCopy_keeps (s := ⟨s.destroy f, s.home, .small f s.home 0⟩) hk.owns hk.2.fresh
      (clears_dummy hk.owns hk.2.fresh) hsize (.inl ⟨hother', by rwa [Nat.zero_add]⟩)

theorem appendPart_keeps (hmax : s.size f + min (other.size f - pos) count ≤ f.maxSize)
    (hread : pos ≤ other.size f → Readable f s (min (other.size f - pos) count)
      (fun _ => s.size f + min (other.size f - pos) count ≤ s.capacity f ∨ s.capacity f ≤ f.sso)
        (.pointer other.buffer pos)) :
    Keeps f s (s.appendPart f other pos count) := by
  unfold State.appendPart State.withPart
  split_ifs with hpos
  · exact keeps_self h hf rfl
  · exact append_keeps h hf hmax (hread (not_lt.mp hpos))

theorem assignPart_keeps (hmax : min (other.size f - pos) count ≤ f.maxSize)
    (hread : pos ≤ other.size f → Readable f s (min (other.size f - pos) count)
      (fun offset => offset = 0 ∨ min (other.size f - pos) count ≤ offset) (.pointer other.buffer pos)) :
    Keeps f s (s.assignPart f other pos count) := by
  have hclear := clear_becomes h hf
  unfold State.assignPart State.withPart
  split_ifs with hpos
  · exact (keeps_becomes hclear).trans (keeps_self hclear.owns hclear.evolves.fresh rfl)
  · exact assignCopy_keeps h hf (clears_dummy h hf) hmax (hread (not_lt.mp hpos))

omit h hf

theorem writes_other (hsmall : m.small = f.sso) (hother : Owns f m j other) (hcap : other.capacity f ≤ f.sso) :
    Writes (.inside home) m (m.copy (.inside home) 0 other.buffer 0 (other.size f)) := by
  have hroom : other.size f ≤ m.small := by
    rw [hsmall]
    exact hother.size_le.trans hcap
  rw [placed_small hother.placed hcap]
  exact (writes_copy _ _ _ _ _ _ (by rwa [Nat.zero_add]) (by rwa [Nat.zero_add]) (by simp [Memory.Overlap])).1

theorem moveConstruct_small (hv : held v = none) (hf : Fresh m) (hsmall : m.small = f.sso)
    (hother : Owns f m j other) (hcap : other.capacity f ≤ f.sso) :
    Evolves f home m v (m.copy (.inside home) 0 other.buffer 0 (other.size f))
      { other with buffer := .inside home } := by
  refine .of_writes ?_ hf (writes_other hsmall hother hcap) hv.symm
  constructor
  · exact hsmall
  · exact hother.length
  · exact hother.maximum
  · exact hother.fits
  · exact hother.size_le
  · exact hother.base
  · exact (if_pos hcap).mpr rfl

theorem moveAssign_small (hv : held v = none) (hf : Fresh m) (hsmall : m.small = f.sso)
    (hother : Owns f m j other) (hcap : other.capacity f ≤ f.sso) (hsize : other.size f ≤ smallCapacity f) :
    Evolves f home m v (m.copy (.inside home) 0 other.buffer 0 (other.size f)) (.small f home (other.size f)) :=
  .of_writes (owns_small hsmall hsize) hf (writes_other hsmall hother hcap) hv.symm

end

end Ktl.StringBuffers
