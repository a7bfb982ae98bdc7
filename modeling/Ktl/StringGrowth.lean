import Ktl.StringLengths

/-!
How `push_back` lets a full string grow. The capacity is doubled as a number of 16
bits before it is compared with the largest size, so that it becomes smaller from
`2 ^ 15` on.
-/
namespace Ktl.StringGrowth

open TextMemory WinntString StringOwnership StringBuffers StringLengths

variable {α : Type} {f : Format}

def Grows (f : Format) (s : State α) (ch : α) : Prop :=
  ∃ t, s.pushBack f ch = .returned t ∧ s.capacity f < t.capacity f ∧ t.capacity f ≤ f.maxSize ∧
    t.content f = s.content f ++ [some ch] ∧ t.memory.misuse = s.memory.misuse

def Collects (f : Format) (m : Memory α) (home : Nat) (vs : List α) : Prop :=
  ∃ t, pushEach f (blank f m home) vs = .returned t ∧ t.content f = vs.map some ∧ t.memory.misuse = m.misuse

/-- The numbers of characters that can be pushed into a new string: any that are allowed if the
characters are wide, otherwise as many as its buffer holds after it has been doubled as often as
possible. -/
def Reachable (f : Format) (k : Nat) : Prop :=
  k = 0 ∨ 0 < f.sso ∧ (f.charSize = 2 ∨ ∃ i, f.sso * 2 ^ i < 2 ^ 16 ∧ k ≤ f.sso * 2 ^ i)

theorem calcGrowth_iff (hmax : c < f.maxSize) :
    c < calcGrowth f c ∧ calcGrowth f c ≤ f.maxSize ↔ 0 < c ∧ c < 2 ^ 15 := by
  constructor
  · rintro ⟨hmore, _⟩
    rw [calcGrowth, if_neg hmax.ne, calcGrowthUnchecked] at hmore
    omega
  · rintro ⟨hpos, hless⟩
    exact calcGrowth_of_small hpos hless hmax

theorem grows_iff (h : Usable f s) (hfull : s.size f = s.capacity f) (hmax : s.capacity f < f.maxSize) :
    Grows f s ch ↔ 0 < s.capacity f ∧ s.capacity f < 2 ^ 15 := by
  by_cases hgrows : 0 < s.capacity f ∧ s.capacity f < 2 ^ 15
  · obtain ⟨t, ht, hpushed⟩ := pushBack_becomes ch h (by omega) fun _ => hgrows
    have hcap := hpushed.capacity
    rw [if_pos hfull] at hcap
    obtain ⟨hmore, hle⟩ := calcGrowth_of_small (f := f) hgrows.1 hgrows.2 hmax
    rw [← hcap] at hmore hle
    exact iff_of_true ⟨t, ht, hmore, hle, hpushed.becomes.content, hpushed.becomes.evolves.misuse⟩ hgrows
  · refine iff_of_false ?_ hgrows
    rintro ⟨t, ht, hmore, _, _, hmisuse⟩
    by_cases hwide : s.capacity f = 0 ∧ 0 < f.sso
    · -- the internal buffer is so large that its capacity is and stays zero
      obtain ⟨u, hu, hwide', _⟩ := (h.wide hwide.1 hwide.2).pushBack ch (by omega)
      rw [ht] at hu
      cases hu
      have hzero := hwide'.capacity
      omega
    · have hworse := pushBack_misuse ch h hfull.symm hmax.ne (by omega)
      rw [ht] at hworse
      exact hworse.ne' hmisuse

section

theorem maxSize_narrow (hnarrow : f.charSize = 1) : f.maxSize = 65534 := by rw [maxSize_eq, if_pos hnarrow]
theorem maxSize_wide (hwide : f.charSize = 2) : f.maxSize = 32767 := by
  rw [maxSize_eq, hwide, if_neg (by decide)]

theorem pushesGrow_narrow_iff (hnarrow : f.charSize = 1) (hsize : size ≤ c) (hpos : 0 < c) (hc : c < 2 ^ 16)
    (hmax : size + k ≤ f.maxSize) :
    PushesGrow f size c k ↔ ∃ i, c * 2 ^ i < 2 ^ 16 ∧ size + k ≤ c * 2 ^ i := by
  have hend := maxSize_narrow hnarrow
  induction k generalizing size c with
  | zero => exact iff_of_true trivial ⟨0, by omega, by omega⟩
  | succ k ih =>
    rw [PushesGrow]
    split_ifs with hfull
    · subst hfull
      by_cases hless : size < 2 ^ 15
      · have hgrowth : calcGrowth f size = size * 2 := by
          rw [calcGrowth, if_neg (by omega), calcGrowthUnchecked]
          omega
        have hnext := ih (show size + 1 ≤ size * 2 by omega) (by omega) (by omega) (by omega)
        rw [hgrowth]
        refine (and_iff_right ⟨hpos, hless⟩).trans (hnext.trans ?_)
        constructor
        · rintro ⟨i, hlt, hle⟩
          exact ⟨i + 1, by rw [Nat.pow_succ', ← Nat.mul_assoc]; exact hlt,
            by rw [Nat.pow_succ', ← Nat.mul_assoc]; omega⟩
        · rintro ⟨i, hlt, hle⟩
          cases i with
          | zero => omega
          | succ i =>
            rw [Nat.pow_succ', ← Nat.mul_assoc] at hlt hle
            exact ⟨i, hlt, by omega⟩
      · refine iff_of_false (fun hand => hless hand.1.2) ?_
        rintro ⟨i, hlt, hle⟩
        cases i with
        | zero => omega
        | succ i =>
          have hdouble : size * 2 ≤ size * 2 ^ (i + 1) :=
            Nat.mul_le_mul_left _ (Nat.le_self_pow (Nat.succ_ne_zero i) 2)
          omega
    · have hnext := ih (show size + 1 ≤ c by omega) hpos hc (by omega)
      rwa [Nat.add_right_comm, Nat.add_assoc] at hnext

theorem pushesGrow_wide (hwide : f.charSize = 2) (hsize : size ≤ c) (hpos : 0 < c) (hc : c < 2 ^ 15)
    (hmax : size + k ≤ f.maxSize) : PushesGrow f size c k := by
  have hend := maxSize_wide hwide
  induction k generalizing size c with
  | zero => trivial
  | succ k ih =>
    rw [PushesGrow]
    split
    · obtain ⟨hmore, hle⟩ := calcGrowth_of_small (f := f) hpos hc (by omega)
      exact ⟨⟨hpos, hc⟩, ih (by omega) (by omega) (by omega) (by omega)⟩
    · exact ih (by omega) hpos hc (by omega)

theorem not_pushesGrow_zero (hk : k ≠ 0) : ¬ PushesGrow f 0 0 k := by
  obtain ⟨k, rfl⟩ := Nat.exists_eq_succ_of_ne_zero hk
  rw [PushesGrow, if_pos rfl]
  exact fun hand => Nat.lt_irrefl 0 hand.1.1

theorem reachable_iff (hk : k ≤ f.maxSize) :
    Reachable f k ↔ smallCapacity f = 0 ∧ 0 < f.sso ∨ PushesGrow f 0 (smallCapacity f) k := by
  have hlt := f.sso_lt
  by_cases hzero : k = 0
  · subst hzero
    exact iff_of_true (.inl rfl) (.inr trivial)
  by_cases hsso : f.sso = 0
  · have hsmall := Nat.le_zero.mp (hsso ▸ smallCapacity_le)
    rw [hsmall]
    refine iff_of_false ?_ ?_
    · rintro (hk' | ⟨hpos, _⟩) <;> omega
    · rintro (⟨_, hpos⟩ | hgrow)
      · omega
      · exact not_pushesGrow_zero hzero hgrow
  have hpos : 0 < f.sso := Nat.pos_of_ne_zero hsso
  cases f.charSize_eq with
  | inl hnarrow =>
    have hsmall : smallCapacity f = f.sso := by
      simp only [smallCapacity, Format.toChars, Format.toBytes, hnarrow, Nat.mul_one, Nat.div_one]
      exact Nat.mod_eq_of_lt hlt
    simp (disch := omega) only [hsmall, pushesGrow_narrow_iff, Nat.zero_add]
    simp [Reachable, hzero, hsso, hpos, hnarrow]
  | inr hwide =>
    refine iff_of_true (.inr ⟨hpos, .inl hwide⟩) ?_
    by_cases hsmall : smallCapacity f = 0
    · exact .inl ⟨hsmall, hpos⟩
    · have hfits := lt_of_fits_wide fits_smallCapacity hwide
      exact .inr (pushesGrow_wide hwide (Nat.zero_le _) (Nat.pos_of_ne_zero hsmall) hfits (by omega))

theorem usable_blank (hsmall : m.small = f.sso) (hf : Fresh m) (hserved : ∀ q, m.fails q = false) :
    Usable f (blank f m home) :=
  ⟨owns_small hsmall (Nat.zero_le _), hf, hserved⟩

theorem collects_pushed_iff (h : Usable f (blank f m home)) (hmax : vs.length ≤ f.maxSize) :
    Collects f m home vs ↔ Reachable f vs.length := by
  have hsize : (blank f m home).size f = 0 := by
    change f.toChars (f.toBytes 0) = 0
    exact (fits_of_le (Nat.zero_le _)).toChars
  have hcap : (blank f m home).capacity f = smallCapacity f := rfl
  have hnil := content_eq_nil.mpr hsize
  have hmax' : (blank f m home).size f + vs.length ≤ f.maxSize := by rwa [hsize, Nat.zero_add]
  rw [reachable_iff hmax]
  by_cases hwide : smallCapacity f = 0 ∧ 0 < f.sso
  · obtain ⟨t, ht, hcontent, hmisuse⟩ := (h.wide hwide.1 hwide.2).pushEach hmax'
    rw [hnil, List.nil_append] at hcontent
    exact iff_of_true ⟨t, ht, hcontent, hmisuse⟩ (.inl hwide)
  · rw [or_iff_right hwide]
    by_cases hgrow : PushesGrow f 0 (smallCapacity f) vs.length
    · obtain ⟨t, ht, hb⟩ := pushEach_becomes h hmax' (by rwa [hsize, hcap])
      have hcontent := hb.content
      rw [hnil, List.nil_append] at hcontent
      exact iff_of_true ⟨t, ht, hcontent, hb.evolves.misuse⟩ hgrow
    · refine iff_of_false ?_ hgrow
      rintro ⟨t, ht, _, hmisuse⟩
      have hworse := pushEach_misuse h hmax' hwide (by rwa [hsize, hcap])
      rw [ht] at hworse
      exact hworse.ne' hmisuse

end

/-- A full string grows exactly if the capacity is not zero and less than `2 ^ 15`. -/
theorem growth_iff (f : Format) :
    (∀ c < f.maxSize, c < calcGrowth f c ∧ calcGrowth f c ≤ f.maxSize ↔ 0 < c ∧ c < 2 ^ 15) ∧
    (∀ (s : State α) (ch : α), Usable f s → s.size f = s.capacity f → s.capacity f < f.maxSize →
      (Grows f s ch ↔ 0 < s.capacity f ∧ s.capacity f < 2 ^ 15)) ∧
    ∀ (m : Memory α) (home : Nat) (vs : List α), Usable f (blank f m home) → vs.length ≤ f.maxSize →
      (Collects f m home vs ↔ Reachable f vs.length) :=
  ⟨fun _ => calcGrowth_iff, fun _ _ => grows_iff, fun _ _ _ => collects_pushed_iff⟩

theorem defaultBuffer_lt : 16 < 2 ^ 16 := by decide

def ansiString : Format := ⟨1, 16, narrowChar_size, defaultBuffer_lt⟩

def half : State Nat :=
  ⟨⟨16, fun _ _ => none, fun q => if q = 0 then some ⟨2 ^ 15, fun _ => some 97⟩ else none, 1, fun _ => false, 0⟩,
    0, ⟨.heap 0, 2 ^ 15, 2 ^ 15⟩⟩

theorem usable_half : Usable ansiString half := by
  constructor
  · refine ⟨rfl, rfl, rfl, by unfold Fits; decide, by decide, by decide, ?_⟩
    rw [Placed, if_neg (by decide)]
    exact ⟨0, rfl, rfl⟩
  · intro q hq
    have hne : q ≠ 0 := Nat.ne_of_gt hq
    exact if_neg hne
  · exact fun _ => rfl

theorem growth_iff_ansiString : (16 < calcGrowth ansiString 16 ∧ calcGrowth ansiString 16 ≤ ansiString.maxSize) ∧
      (Usable ansiString half ∧ ¬ Grows ansiString half 97) ∧
      Collects ansiString (Memory.empty 16 fun _ => false) 0 [97, 98] := by
  obtain ⟨hcalc, hgrows, hcollects⟩ := growth_iff (α := Nat) ansiString
  refine ⟨(hcalc 16 (by decide)).mpr (by decide), ⟨usable_half, ?_⟩, ?_⟩
  · exact fun h => absurd ((hgrows half 97 usable_half rfl (by decide)).mp h).2 (by decide)
  · refine (hcollects _ 0 [97, 98] (usable_blank rfl (fun _ _ => rfl) fun _ => rfl) (by decide)).mpr ?_
    exact .inr ⟨by decide, .inr ⟨0, by decide, by decide⟩⟩

/-- The capacity `2 ^ 15` is doubled to zero, and the characters leave the internal buffer. -/
theorem pushBack_shrinks : Usable ansiString half ∧ half.size ansiString = half.capacity ansiString ∧
      half.capacity ansiString < ansiString.maxSize ∧ calcGrowth ansiString (half.capacity ansiString) = 0 ∧
      half.memory.misuse < (half.pushBack ansiString 97).state.memory.misuse :=
  ⟨usable_half, rfl, by decide, by decide, pushBack_misuse 97 usable_half rfl (by decide) (.inr (by decide))⟩

end Ktl.StringGrowth
