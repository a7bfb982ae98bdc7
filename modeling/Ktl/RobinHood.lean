import Mathlib.Data.List.Perm.Subperm
import Mathlib.Tactic.Ring

/-!
Arrays of slots in the order of a robin hood table. The info of a slot is zero if it is empty,
else its distance from the home of its value in units of `inc`, counted from one, plus less
than one unit. The infos are ordered if none exceeds the one before it by more than a unit,
unless the value is at home.
-/
namespace Ktl.RobinHood

open Function List

/-! ## Making room and closing up -/

section
variable {γ : Type*} {f : Nat → γ} {g : γ → γ}

def openSlot (f : Nat → γ) (g : γ → γ) (x : γ) (q e : Nat) : Nat → γ := fun i =>
  if i = q then x else if q < i ∧ i ≤ e then g (f (i - 1)) else f i

/-- The values behind slot `q` move down, up to slot `e`, which gets a new value. -/
def closeSlot (f : Nat → γ) (g : γ → γ) (x : γ) (q e : Nat) : Nat → γ := fun i =>
  if i = e then x else if q ≤ i ∧ i < e then g (f (i + 1)) else f i

theorem openSlot_before (hi : i < q) : openSlot f g x q e i = f i := by
  rw [openSlot, if_neg (by omega), if_neg (by omega)]
theorem openSlot_new : openSlot f g x q e q = x := if_pos rfl
theorem openSlot_moved (hq : q ≤ i) (hi : i < e) : openSlot f g x q e (i + 1) = g (f i) := by
  rw [openSlot, if_neg (by omega), if_pos (by omega), Nat.add_sub_cancel]
theorem openSlot_after (hqe : q ≤ e) (hi : e < i) : openSlot f g x q e i = f i := by
  rw [openSlot, if_neg (by omega), if_neg (by omega)]
theorem closeSlot_before (hqe : q ≤ e) (hi : i < q) : closeSlot f g x q e i = f i := by
  rw [closeSlot, if_neg (by omega), if_neg (by omega)]
theorem closeSlot_moved (hq : q ≤ i) (hi : i < e) : closeSlot f g x q e i = g (f (i + 1)) := by
  rw [closeSlot, if_neg (by omega), if_pos (by omega)]
theorem closeSlot_last : closeSlot f g x q e e = x := if_pos rfl
theorem closeSlot_after (hi : e < i) : closeSlot f g x q e i = f i := by
  rw [closeSlot, if_neg (by omega), if_neg (by omega)]

theorem closeSlot_self (f : Nat → γ) (g : γ → γ) (x : γ) (q : Nat) : closeSlot f g x q q = update f q x := by
  funext i
  by_cases hi : i = q
  · rw [hi, closeSlot_last, update_self]
  · rw [closeSlot, if_neg hi, if_neg (by omega), update_of_ne hi]

theorem closeSlot_update (f : Nat → γ) (g : γ → γ) (x : γ) (hqe : q < e) :
    closeSlot (update f q (g (f (q + 1)))) g x (q + 1) e = closeSlot f g x q e := by
  funext i
  rcases Nat.lt_trichotomy i q with hi | rfl | hi
  · rw [closeSlot_before (by omega) (by omega), closeSlot_before hqe.le hi, update_of_ne (by omega)]
  · rw [closeSlot_before (by omega) (by omega), closeSlot_moved le_rfl hqe, update_self]
  · rcases Nat.lt_trichotomy i e with hie | rfl | hie
    · rw [closeSlot_moved hi hie, closeSlot_moved hi.le hie, update_of_ne (by omega)]
    · rw [closeSlot_last, closeSlot_last]
    · rw [closeSlot_after hie, closeSlot_after hie, update_of_ne (by omega)]

end

/-! ## The values of some slots -/

section
variable {γ : Type*} {f : Nat → Option γ}

def entriesFrom (f : Nat → Option γ) (a k : Nat) : List γ := (List.range' a k).filterMap f

theorem entriesFrom_add (f : Nat → Option γ) (a k l : Nat) :
    entriesFrom f a (k + l) = entriesFrom f a k ++ entriesFrom f (a + k) l := by
  rw [entriesFrom, ← range'_append_1, filterMap_append]
  rfl

theorem entriesFrom_one (f : Nat → Option γ) (a : Nat) : entriesFrom f a 1 = (f a).toList := by
  cases hfa : f a <;> simp [entriesFrom, hfa]

theorem entriesFrom_succ (f : Nat → Option γ) (a k : Nat) :
    entriesFrom f a (k + 1) = (f a).toList ++ entriesFrom f (a + 1) k := by
  rw [Nat.add_comm, entriesFrom_add, entriesFrom_one]

theorem entriesFrom_congr (hsame : ∀ i, a ≤ i → i < a + k → f i = g i) : entriesFrom f a k = entriesFrom g a k := by
  apply filterMap_congr
  intro i hi
  rw [mem_range'_1] at hi
  exact hsame i hi.1 hi.2

theorem entriesFrom_shift (hsame : ∀ i, a ≤ i → i < a + k → g (i + 1) = f i) :
    entriesFrom g (a + 1) k = entriesFrom f a k := by
  induction k generalizing a with
  | zero => rfl
  | succ k ih =>
    simp (disch := omega) only [entriesFrom_succ, hsame]
    rw [ih fun i hi hik => hsame i (by omega) (by omega)]

theorem mem_entriesFrom : x ∈ entriesFrom f a k ↔ ∃ i, a ≤ i ∧ i < a + k ∧ f i = some x := by
  simp [entriesFrom, and_assoc]

theorem entriesFrom_eq_nil (hempty : ∀ i, a ≤ i → i < a + k → f i = none) : entriesFrom f a k = [] := by
  rw [entriesFrom, filterMap_eq_nil_iff]
  intro i hi
  rw [mem_range'_1] at hi
  exact hempty i hi.1 hi.2

theorem length_entriesFrom_le (f : Nat → Option γ) (a k : Nat) : (entriesFrom f a k).length ≤ k := by
  have hle := length_filterMap_le f (range' a k)
  rwa [length_range'] at hle

theorem length_entriesFrom_of_full (hfull : ∀ i, a ≤ i → i < a + k → f i ≠ none) : (entriesFrom f a k).length = k := by
  induction k generalizing a with
  | zero => rfl
  | succ k ih =>
    obtain ⟨x, hx⟩ := Option.ne_none_iff_exists'.mp (hfull a le_rfl (by omega))
    rw [entriesFrom_succ, hx, Option.toList_some, singleton_append, length_cons,
      ih fun i hi hik => hfull i (by omega) (by omega)]

theorem entriesFrom_split (f : Nat → Option γ) (hq : q < n) :
    entriesFrom f 0 n = entriesFrom f 0 q ++ ((f q).toList ++ entriesFrom f (q + 1) (n - (q + 1))) := by
  obtain ⟨k, rfl⟩ : ∃ k, n = q + (k + 1) := ⟨n - (q + 1), by omega⟩
  rw [entriesFrom_add, entriesFrom_succ, Nat.zero_add]
  congr 4
  omega

theorem entriesFrom_openSlot (hqe : q ≤ e) (hen : e < n) (hempty : f e = none) :
    entriesFrom (openSlot f id (some x) q e) 0 n = entriesFrom f 0 q ++ x :: entriesFrom f q (n - q) := by
  obtain ⟨k, rfl⟩ : ∃ k, e = q + k := ⟨e - q, by omega⟩
  obtain ⟨l, rfl⟩ : ∃ l, n = q + (k + (l + 1)) := ⟨n - (q + k + 1), by omega⟩
  have hg : ∀ g : Nat → Option γ, entriesFrom g 0 (q + (k + (l + 1)))
      = entriesFrom g 0 q ++ ((g q).toList ++ (entriesFrom g (q + 1) k ++ entriesFrom g (q + 1 + k) l)) := by
    intro g
    rw [show q + (k + (l + 1)) = q + (1 + (k + l)) by omega, entriesFrom_add, entriesFrom_add, entriesFrom_one,
      entriesFrom_add, Nat.zero_add]
  have hf : entriesFrom f q (k + (l + 1)) = entriesFrom f q k ++ entriesFrom f (q + k + 1) l := by
    rw [entriesFrom_add, entriesFrom_succ, hempty, Option.toList_none, nil_append]
  have hfront : entriesFrom (openSlot f id (some x) q (q + k)) 0 q = entriesFrom f 0 q :=
    entriesFrom_congr fun i _ hi => openSlot_before (by omega)
  have hmiddle : entriesFrom (openSlot f id (some x) q (q + k)) (q + 1) k = entriesFrom f q k :=
    entriesFrom_shift fun i hi hik => openSlot_moved hi hik
  have hback : entriesFrom (openSlot f id (some x) q (q + k)) (q + 1 + k) l = entriesFrom f (q + k + 1) l := by
    rw [entriesFrom_congr fun i hi _ => openSlot_after hqe (by omega), Nat.add_right_comm q 1 k]
  rw [hg, openSlot_new, hfront, hmiddle, hback, Nat.add_sub_cancel_left, hf]
  rfl

theorem entriesFrom_closeSlot (hqe : q ≤ e) (hen : e < n) :
    entriesFrom (closeSlot f id none q e) q (n - q) = entriesFrom f (q + 1) (n - (q + 1)) := by
  obtain ⟨k, rfl⟩ : ∃ k, e = q + k := ⟨e - q, by omega⟩
  obtain ⟨l, rfl⟩ : ∃ l, n = q + (k + (l + 1)) := ⟨n - (q + k + 1), by omega⟩
  have hfront : entriesFrom (closeSlot f id none q (q + k)) q k = entriesFrom f (q + 1) k := by
    rw [entriesFrom_shift]
    intro i hi hik
    rw [closeSlot_moved hi hik, id]
  have hback : entriesFrom (closeSlot f id none q (q + k)) (q + k + 1) l = entriesFrom f (q + 1 + k) l := by
    rw [entriesFrom_congr fun i hi _ => closeSlot_after (by omega), Nat.add_right_comm q k 1]
  have hcount : q + (k + (l + 1)) - (q + 1) = k + l := by omega
  rw [Nat.add_sub_cancel_left, hcount, entriesFrom_add, entriesFrom_succ, closeSlot_last,
    Option.toList_none, nil_append, hfront, hback, ← entriesFrom_add]

theorem entriesFrom_closeSlot_all (hqe : q ≤ e) (hen : e < n) : entriesFrom (closeSlot f id none q e) 0 n
      = entriesFrom f 0 q ++ entriesFrom f (q + 1) (n - (q + 1)) := by
  have hn : n = q + (n - q) := by omega
  have hfront : entriesFrom (closeSlot f id none q e) 0 q = entriesFrom f 0 q :=
    entriesFrom_congr fun i _ hi => closeSlot_before hqe (by omega)
  conv_lhs => rw [hn]
  rw [entriesFrom_add, Nat.zero_add, hfront, entriesFrom_closeSlot hqe hen]

end

/-! ## Infos in order -/

def infoAt (inc home bits i : Nat) : Nat := (i - home + 1) * inc + bits

section
variable {info : Nat → Nat}

theorem infoAt_home (inc home bits : Nat) : infoAt inc home bits home = inc + bits := by
  rw [infoAt, Nat.sub_self, Nat.zero_add, Nat.one_mul]

theorem infoAt_succ (hi : home ≤ i) : infoAt inc home bits (i + 1) = infoAt inc home bits i + inc := by
  rw [infoAt, infoAt, show i + 1 - home = i - home + 1 by omega]
  ring

theorem le_infoAt (inc home bits i : Nat) : inc + bits ≤ infoAt inc home bits i := by
  rw [infoAt]
  have hmul : inc ≤ (i - home + 1) * inc := Nat.le_mul_of_pos_left inc (by omega)
  omega

theorem two_mul_le_infoAt (inc bits : Nat) (hi : home < i) : 2 * inc + bits ≤ infoAt inc home bits i := by
  obtain ⟨k, rfl⟩ : ∃ k, i = k + 1 := ⟨i - 1, by omega⟩
  have hle := le_infoAt inc home bits k
  rw [infoAt_succ (by omega)]
  omega

structure Ordered (inc : Nat) (info : Nat → Nat) : Prop where
  first : info 0 < 2 * inc
  next : ∀ i, info (i + 1) ≤ info i + inc ∨ info (i + 1) < 2 * inc

section
variable (hord : Ordered inc info)
include hord

theorem Ordered.lt_infoAt (hq : home ≤ q)
    (hless : info q < infoAt inc home bits q) (hj : q ≤ j) : info j < infoAt inc home bits j := by
  induction j, hj using Nat.le_induction with
  | base => exact hless
  | succ j hj ih =>
    have htwo := two_mul_le_infoAt inc bits (show home < j + 1 by omega)
    rw [infoAt_succ (by omega)] at htwo ⊢
    have hnext := hord.next j
    omega

/-- Infos that change in the slots from `q` to `e` only stay in order if those are. -/
theorem Ordered.of_range (hbefore : ∀ i < q, info' i = info i)
    (hafter : ∀ i, e < i → info' i = info i) (hfirst : q = 0 → info' 0 < 2 * inc)
    (hnext : ∀ i, q ≤ i + 1 → i ≤ e → info' (i + 1) ≤ info' i + inc ∨ info' (i + 1) < 2 * inc) :
    Ordered inc info' := by
  constructor
  · rcases Nat.eq_zero_or_pos q with hzero | hpos
    · exact hfirst hzero
    · rw [hbefore 0 hpos]
      exact hord.first
  · intro i
    by_cases hq : i + 1 < q
    · rw [hbefore i (by omega), hbefore (i + 1) hq]
      exact hord.next i
    by_cases he : i ≤ e
    · exact hnext i (by omega) he
    · simp (disch := omega) only [hafter]
      exact hord.next i

theorem Ordered.insert (hq : home ≤ q) (hqe : q ≤ e) (hbits : bits < inc)
    (hpassed : ∀ i, home ≤ i → i < q → infoAt inc home bits i ≤ info i)
    (hless : info q < infoAt inc home bits q) (hfull : ∀ i, q ≤ i → i < e → inc ≤ info i) (hempty : info e = 0) :
    Ordered inc (openSlot info (· + inc) (infoAt inc home bits q) q e) := by
  obtain ⟨info', hinfo'⟩ : ∃ info', info' = openSlot info (· + inc) (infoAt inc home bits q) q e :=
    ⟨_, rfl⟩
  have hbefore : ∀ i < q, info' i = info i := fun i hi => by rw [hinfo', openSlot_before hi]
  have hnew : info' q = infoAt inc home bits q := by rw [hinfo', openSlot_new]
  have hmoved : ∀ i, q ≤ i → i < e → info' (i + 1) = info i + inc := fun i hq hi => by
    rw [hinfo', openSlot_moved hq hi]
  have hafter : ∀ i, e < i → info' i = info i := fun i hi => by rw [hinfo', openSlot_after hqe hi]
  rw [← hinfo']
  -- the info of the value itself
  have hvalue : q = home ∧ info' q < 2 * inc ∨ home < q ∧ info' q ≤ info (q - 1) + inc := by
    rcases Nat.eq_or_lt_of_le hq with rfl | hlt
    · left
      rw [hnew, infoAt_home]
      exact ⟨rfl, by omega⟩
    · right
      have hprev := hpassed (q - 1) (by omega) (by omega)
      obtain ⟨p, rfl⟩ : ∃ p, q = p + 1 := ⟨q - 1, by omega⟩
      rw [hnew, infoAt_succ (by omega)]
      simp only [Nat.add_sub_cancel] at hprev ⊢
      omega
  apply hord.of_range hbefore hafter
  · rintro rfl
    omega
  · intro i hqi hie
    have hnext := hord.next i
    rcases Nat.eq_or_lt_of_le hqi with rfl | hgt
    · rw [hbefore i (by omega)]
      simp only [Nat.add_sub_cancel] at hvalue
      omega
    rcases Nat.eq_or_lt_of_le hie with rfl | hlt
    · rw [hafter (i + 1) (by omega)]
      omega
    · rw [hmoved i (by omega) hlt]
      rcases Nat.eq_or_lt_of_le (show q ≤ i by omega) with rfl | hqi
      · omega
      · obtain ⟨p, rfl⟩ : ∃ p, i = p + 1 := ⟨i - 1, by omega⟩
        rw [hmoved p (by omega) (by omega)]
        have hprev := hord.next p
        have hocc := hfull p (by omega) (by omega)
        omega

theorem Ordered.remove (hqe : q ≤ e)
    (hdown : ∀ i, q ≤ i → i < e → 2 * inc ≤ info (i + 1)) (hstop : info (e + 1) < 2 * inc) :
    Ordered inc (closeSlot info (· - inc) 0 q e) := by
  obtain ⟨info', hinfo'⟩ : ∃ info', info' = closeSlot info (· - inc) 0 q e := ⟨_, rfl⟩
  have hbefore : ∀ i < q, info' i = info i := fun i hi => by rw [hinfo', closeSlot_before hqe hi]
  have hmoved : ∀ i, q ≤ i → i < e → info' i = info (i + 1) - inc := fun i hq hi => by
    rw [hinfo', closeSlot_moved hq hi]
  have hempty : info' e = 0 := by rw [hinfo', closeSlot_last]
  have hafter : ∀ i, e < i → info' i = info i := fun i hi => by rw [hinfo', closeSlot_after hi]
  rw [← hinfo']
  -- no info gets larger
  have hle : info' q ≤ info q := by
    rcases Nat.eq_or_lt_of_le hqe with rfl | hlt
    · omega
    · have hnext := hord.next q
      have htwo := hdown q le_rfl hlt
      rw [hmoved q le_rfl hlt]
      omega
  apply hord.of_range hbefore hafter
  · rintro rfl
    have hfirst := hord.first
    omega
  · intro i hqi hie
    have hnext := hord.next i
    rcases Nat.eq_or_lt_of_le hqi with rfl | hgt
    · rw [hbefore i (by omega)]
      omega
    rcases Nat.eq_or_lt_of_le hie with rfl | hlt
    · rw [hafter (i + 1) (by omega)]
      omega
    · rw [hmoved i (by omega) hlt]
      rcases Nat.eq_or_lt_of_le (show i + 1 ≤ e by omega) with rfl | hie
      · omega
      · have hnext' := hord.next (i + 1)
        rw [hmoved (i + 1) (by omega) hie]
        omega

end

theorem Ordered.halve (hord : Ordered (2 * inc) info) (hhalf : ∀ i < n, info' i = info i / 2)
    (hrest : ∀ i, n ≤ i → info' i < 2 * inc) : Ordered inc info' := by
  constructor
  · rcases Nat.eq_zero_or_pos n with hn | hn
    · exact hrest 0 (by omega)
    · have hfirst := hord.first
      rw [hhalf 0 hn]
      omega
  · intro i
    rcases Nat.lt_or_ge (i + 1) n with hi | hi
    · have hnext := hord.next i
      rw [hhalf i (by omega), hhalf (i + 1) hi]
      omega
    · exact .inr (hrest (i + 1) hi)

end

/-! ## Crowded homes -/

section
variable {γ : Type*} {f : Nat → Option γ} {home : γ → Nat}

def Crowded (d : Nat) (home : γ → Nat) (values : List γ) : Prop :=
  ∃ a b, a ≤ b ∧ b - a + d < values.countP fun x => decide (a ≤ home x ∧ home x ≤ b)

/-- Every value is in its home or has a value with no later home in front of it. -/
structure Packed (n : Nat) (home : γ → Nat) (f : Nat → Option γ) : Prop where
  home_le : ∀ i x, i < n → f i = some x → home x ≤ i
  previous : ∀ i x, i + 1 < n → f (i + 1) = some x → home x ≤ i → ∃ y, f i = some y ∧ home y ≤ home x

theorem Packed.exists_start (hpacked : Packed n home f) (hi : i < n) (hx : f i = some x) :
    ∃ a ≤ home x, ∀ j, a ≤ j → j ≤ i → ∃ y, f j = some y ∧ a ≤ home y ∧ home y ≤ home x := by
  induction i generalizing x with
  | zero =>
    refine ⟨0, Nat.zero_le _, fun j _ hj => ⟨x, ?_, Nat.zero_le _, le_rfl⟩⟩
    rwa [Nat.le_zero.mp hj]
  | succ i ih =>
    rcases Nat.lt_or_ge i (home x) with hlt | hge
    · refine ⟨i + 1, hlt, fun j hj hji => ⟨x, ?_, by omega, le_rfl⟩⟩
      rwa [show j = i + 1 by omega]
    · obtain ⟨y, hy, hyx⟩ := hpacked.previous i x hi hx hge
      obtain ⟨a, ha, hfull⟩ := ih (by omega) hy
      refine ⟨a, by omega, fun j hj hji => ?_⟩
      rcases Nat.lt_or_ge i j with hlt | hle
      · refine ⟨x, ?_, by omega, le_rfl⟩
        rwa [show j = i + 1 by omega]
      · obtain ⟨z, hz, haz, hzy⟩ := hfull j hj hle
        exact ⟨z, hz, haz, by omega⟩

theorem Packed.crowded (hpacked : Packed n home f) (hi : i < n) (hx : f i = some x) (hfar : home x + d ≤ i) :
    Crowded d home (entriesFrom f 0 n) := by
  obtain ⟨a, ha, hfull⟩ := hpacked.exists_start hi hx
  refine ⟨a, home x, ha, ?_⟩
  have hcut : entriesFrom f 0 n
      = entriesFrom f 0 a ++ (entriesFrom f a (i + 1 - a) ++ entriesFrom f (i + 1) (n - (i + 1))) := by
    have hn : n = a + ((i + 1 - a) + (n - (i + 1))) := by omega
    conv_lhs => rw [hn, entriesFrom_add, entriesFrom_add, Nat.zero_add]
    rw [show a + (i + 1 - a) = i + 1 by omega]
  have hcount : (entriesFrom f a (i + 1 - a)).countP (fun y => decide (a ≤ home y ∧ home y ≤ home x)) = i + 1 - a := by
    rw [countP_eq_length.mpr]
    · apply length_entriesFrom_of_full
      intro j hj hji
      obtain ⟨y, hy, _⟩ := hfull j hj (by omega)
      rw [hy]
      exact Option.some_ne_none y
    · intro y hy
      obtain ⟨j, hj, hji, hfj⟩ := mem_entriesFrom.mp hy
      obtain ⟨z, hz, hbounds⟩ := hfull j hj (by omega)
      rw [hfj] at hz
      cases hz
      exact decide_eq_true hbounds
  rw [hcut, countP_append, countP_append, hcount]
  omega

theorem Packed.not_crowded (hpacked : Packed n home f)
    (hclose : ∀ i x, i < n → f i = some x → i < home x + d) : ¬ Crowded d home (entriesFrom f 0 n) := by
  rintro ⟨a, b, hab, hcount⟩
  -- the values with these homes are in the slots from `a` to `b + d`
  have hsplit : ∀ k l, (∀ i, l ≤ i → i < l + k → i < n → i < a ∨ b + d ≤ i) → l + k ≤ n →
      (entriesFrom f l k).countP (fun x => decide (a ≤ home x ∧ home x ≤ b)) = 0 := by
    intro k l hout hln
    rw [countP_eq_zero]
    intro x hx hhome
    obtain ⟨i, hi, hik, hfi⟩ := mem_entriesFrom.mp hx
    have hle := hpacked.home_le i x (by omega) hfi
    have hlt := hclose i x (by omega) hfi
    have hbounds := of_decide_eq_true hhome
    have := hout i hi hik (by omega)
    omega
  rcases Nat.lt_or_ge n a with hna | han
  · have hzero := hsplit n 0 (by omega) (by omega)
    omega
  · obtain ⟨k, hk⟩ : ∃ k, k = min (b + d) n - a := ⟨_, rfl⟩
    have hcut : entriesFrom f 0 n
        = entriesFrom f 0 a ++ (entriesFrom f a k ++ entriesFrom f (a + k) (n - (a + k))) := by
      have hn : n = a + (k + (n - (a + k))) := by omega
      conv_lhs => rw [hn, entriesFrom_add, entriesFrom_add, Nat.zero_add]
    have hfront := hsplit a 0 (by omega) (by omega)
    have hback := hsplit (n - (a + k)) (a + k) (by omega) (by omega)
    have hmiddle := (countP_le_length (p := fun x => decide (a ≤ home x ∧ home x ≤ b))
      (l := entriesFrom f a k)).trans (length_entriesFrom_le f a k)
    rw [hcut, countP_append, countP_append, hfront, hback] at hcount
    omega

theorem not_crowded_of_nodup (hd : 0 < d) (hnodup : (values.map home).Nodup) : ¬ Crowded d home values := by
  rintro ⟨a, b, hab, hcount⟩
  rw [countP_eq_length_filter] at hcount
  obtain ⟨near, hnear⟩ : ∃ near, near = values.filter fun x => decide (a ≤ home x ∧ home x ≤ b) := ⟨_, rfl⟩
  have hhomes : near.map home ⊆ range' a (b - a + 1) := by
    intro i hi
    obtain ⟨x, hx, rfl⟩ := mem_map.mp hi
    rw [hnear] at hx
    have hbounds := of_decide_eq_true (mem_filter.mp hx).2
    exact mem_range'_1.mpr (by omega)
  have hdistinct : (near.map home).Nodup := by
    rw [hnear]
    exact hnodup.sublist (filter_sublist.map home)
  have hlen := (hdistinct.subperm hhomes).length_le
  rw [length_map, length_range'] at hlen
  rw [← hnear] at hcount
  omega

theorem Crowded.of_subperm (hsub : values.Subperm values') (h : Crowded d home values) : Crowded d home values' := by
  obtain ⟨a, b, hab, hcount⟩ := h
  exact ⟨a, b, hab, hcount.trans_le (hsub.countP_le _)⟩

end

end Ktl.RobinHood
