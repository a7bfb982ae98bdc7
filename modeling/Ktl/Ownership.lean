import Mathlib.Logic.Function.Basic

/-!
Objects that hold at most one block each. A heap is tidy if its blocks are exactly those that
are held, each of them once.
-/
namespace Ktl.Ownership

open Function Option

variable {ι β : Type*} [DecidableEq ι] {held : ι → Option β} {live live' : β → Prop}

structure Tidy (held : ι → Option β) (live : β → Prop) : Prop where
  alone : ∀ i j q, held i = some q → held j = some q → i = j
  live_iff : ∀ q, live q ↔ ∃ i, held i = some q

/-- What may happen to the heap while one holder goes from the block `b` to `b'`. -/
structure Exchange (b b' : Option β) (live live' : β → Prop) : Prop where
  kept : ∀ q, b' = some q → live' q
  others : ∀ q, b ≠ some q → b' ≠ some q → (live' q ↔ live q)
  released : ∀ q, b = some q → b' ≠ some q → ¬ live' q
  acquired : ∀ q, b' = some q → b ≠ some q → ¬ live q

omit [DecidableEq ι] in
theorem tidy_empty (hheld : ∀ i, held i = none) (hlive : ∀ q, ¬ live q) : Tidy held live := by
  constructor
  · intro i j q hi
    rw [hheld i] at hi
    cases hi
  · intro q
    simp [hheld, hlive q]

omit [DecidableEq ι] in
theorem Tidy.other (h : Tidy held live) (hx : Exchange (held i) b' live live') (hk : k ≠ i)
    (hq : held k = some q) : held i ≠ some q ∧ b' ≠ some q := by
  have hold : held i ≠ some q := fun hi => hk (h.alone k i q hq hi)
  exact ⟨hold, fun hnew => hx.acquired q hnew hold ((h.live_iff q).mpr ⟨k, hq⟩)⟩

theorem Tidy.exchange (h : Tidy held live) (hx : Exchange (held i) b' live live') : Tidy (update held i b') live' := by
  constructor
  · intro k l q hk hl
    by_cases hki : k = i <;> by_cases hli : l = i
    · rw [hki, hli]
    · subst hki
      rw [update_self] at hk
      rw [update_of_ne hli] at hl
      exact absurd hk (h.other hx hli hl).2
    · subst hli
      rw [update_self] at hl
      rw [update_of_ne hki] at hk
      exact absurd hl (h.other hx hki hk).2
    · rw [update_of_ne hki] at hk
      rw [update_of_ne hli] at hl
      exact h.alone k l q hk hl
  · intro q
    constructor
    · intro hq
      by_cases hnew : b' = some q
      · exact ⟨i, by rw [update_self, hnew]⟩
      · have hold : held i ≠ some q := fun hi => hx.released q hi hnew hq
        obtain ⟨k, hk⟩ := (h.live_iff q).mp ((hx.others q hold hnew).mp hq)
        have hki : k ≠ i := by
          rintro rfl
          exact hold hk
        exact ⟨k, by rw [update_of_ne hki, hk]⟩
    · rintro ⟨k, hk⟩
      by_cases hki : k = i
      · subst hki
        rw [update_self] at hk
        exact hx.kept q hk
      · rw [update_of_ne hki] at hk
        obtain ⟨hold, hnew⟩ := h.other hx hki hk
        exact (hx.others q hold hnew).mpr ((h.live_iff q).mpr ⟨k, hk⟩)

theorem Tidy.handOver (h : Tidy held live) (hi : held i = none) (hne : i ≠ j) :
    Tidy (update (update held j none) i (held j)) live := by
  -- the holder `k` holds what `i` or `k` held before
  have hfrom : ∀ k q, update (update held j none) i (held j) k = some q →
      held (if k = i then j else k) = some q ∧ k ≠ j := by
    intro k q hk
    by_cases hki : k = i
    · subst hki
      rw [update_self] at hk
      rw [if_pos rfl]
      exact ⟨hk, hne⟩
    · rw [update_of_ne hki] at hk
      have hkj : k ≠ j := by
        rintro rfl
        rw [update_self] at hk
        cases hk
      rw [update_of_ne hkj] at hk
      rw [if_neg hki]
      exact ⟨hk, hkj⟩
  constructor
  · intro k l q hk hl
    obtain ⟨hk, hkj⟩ := hfrom k q hk
    obtain ⟨hl, hlj⟩ := hfrom l q hl
    have hsame := h.alone _ _ q hk hl
    by_cases hki : k = i <;> by_cases hli : l = i
    · rw [hki, hli]
    · rw [if_pos hki, if_neg hli] at hsame
      exact absurd hsame.symm hlj
    · rw [if_neg hki, if_pos hli] at hsame
      exact absurd hsame hkj
    · rwa [if_neg hki, if_neg hli] at hsame
  · intro q
    rw [h.live_iff]
    constructor
    · rintro ⟨k, hk⟩
      have hki : k ≠ i := by
        rintro rfl
        rw [hi] at hk
        cases hk
      by_cases hkj : k = j
      · subst hkj
        exact ⟨i, by rw [update_self, hk]⟩
      · exact ⟨k, by rw [update_of_ne hki, update_of_ne hkj, hk]⟩
    · rintro ⟨k, hk⟩
      exact ⟨_, (hfrom k q hk).1⟩

/-! ## Objects that hold blocks -/

section

variable {ω : Type*} {block : ω → Option β} {owns owns' : ι → ω → Prop} {object : ι → Option ω}

/-- Every object that exists is in order with what it holds, and the heap is tidy. -/
structure Housed (block : ω → Option β) (owns : ι → ω → Prop) (object : ι → Option ω) (live : β → Prop) : Prop where
  owns : ∀ i v, object i = some v → owns i v
  tidy : Tidy (fun i => (object i).bind block) live

theorem pair_eq_some {ψ : Type*} {w w' : ψ} {act : ω → ω → ψ}
    (h : ((object i).bind fun this => (object j).bind fun other =>
      if i = j then some w else some (act this other)) = some w') :
    w = w' ∨ ∃ this other, object i = some this ∧ object j = some other ∧ i ≠ j ∧ act this other = w' := by
  obtain ⟨this, hi, h⟩ := bind_eq_some_iff.mp h
  obtain ⟨other, hj, h⟩ := bind_eq_some_iff.mp h
  split at h
  · exact .inl (some.inj h)
  · rename_i hne
    exact .inr ⟨this, other, hi, hj, hne, some.inj h⟩

omit [DecidableEq ι] in
theorem ne_of_none (hi : object i = none) (hj : object j = some v) : i ≠ j :=
  ne_of_apply_ne object (by rw [hi, hj]; nofun)

theorem bind_update (x : Option ω) :
    (fun k => (update object i x k).bind block) = update (fun k => (object k).bind block) i (x.bind block) := by
  funext k
  by_cases hk : k = i
  · subst hk
    rw [update_self, update_self]
  · rw [update_of_ne hk, update_of_ne hk]

theorem forall_update (hself : ∀ v, x = some v → owns i v) (hothers : ∀ k ≠ i, ∀ u, object k = some u → owns k u) :
    ∀ k u, update object i x k = some u → owns k u := by
  intro k u hu
  by_cases hk : k = i
  · subst hk
    rw [update_self] at hu
    exact hself u hu
  · rw [update_of_ne hk] at hu
    exact hothers k hk u hu

variable (h : Housed block owns object live)
include h

/-- One object exchanges its block. -/
theorem Housed.evolve (hi : object i = some v) (hx : Exchange (block v) (block v') live live')
    (hself : owns' i v') (hothers : ∀ k u, owns k u →
      (∀ q, block u = some q → block v ≠ some q ∧ block v' ≠ some q) → owns' k u) :
    Housed block owns' (update object i (some v')) live' := by
  have hbind : (object i).bind block = block v := by rw [hi, bind_some]
  rw [← hbind] at hx
  constructor
  · refine forall_update (by rintro _ ⟨⟩; exact hself) fun k hk u hu => ?_
    refine hothers k u (h.owns k u hu) fun q hq => hbind ▸ h.tidy.other hx hk ?_
    rw [hu, bind_some, hq]
  · rw [bind_update]
    exact h.tidy.exchange hx

theorem Housed.replace (hblock : x.bind block = (object i).bind block) (hself : ∀ v, x = some v → owns i v) :
    Housed block owns (update object i x) live := by
  constructor
  · exact forall_update hself fun k _ => h.owns k
  · rw [bind_update, hblock, update_eq_self]
    exact h.tidy

/-- The object `j` gives its block to `i`. -/
theorem Housed.handOver (hi : (object i).bind block = none) (hj : object j = some v) (hne : i ≠ j)
    (hempty : block empty = none) (hself : owns i v) (hother : owns j empty) :
    Housed block owns (update (update object j (some empty)) i (some v)) live := by
  constructor
  · refine forall_update (by rintro _ ⟨⟩; exact hself) fun k _ => ?_
    exact forall_update (by rintro _ ⟨⟩; exact hother) (fun k _ => h.owns k) k
  · have hmoved := h.tidy.handOver hi hne
    rwa [bind_update, bind_update, bind_some, bind_some, hempty, ← bind_some v block, ← hj]

end

end Ktl.Ownership
