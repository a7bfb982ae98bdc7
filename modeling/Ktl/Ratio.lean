import Mathlib.Tactic.NormNum
import Mathlib.Tactic.Ring

/-!
`ratio` and its arithmetic, which the compiler evaluates: a ratio or an operation on
ratios that it rejects is `none` here.
-/
namespace Ktl

open Int

/-- `ratio<Nx, Dx>` by its members, with what every ratio that is accepted keeps. -/
@[ext]
structure Ratio where
  num : Int
  den : Int
  den_pos : 0 < den := by decide
  coprime : num.natAbs.Coprime den.natAbs := by decide
  num_le : num.natAbs ≤ 2 ^ 63 - 1 := by decide
  den_le : den.natAbs ≤ 2 ^ 63 - 1 := by decide
  deriving DecidableEq

namespace Ratio

def signOf (value : Int) : Int := if value < 0 then -1 else 1

def gcdImpl (lhs rhs : Nat) : Nat :=
  if rhs = 0 then lhs else gcdImpl rhs (lhs % rhs)
termination_by rhs
decreasing_by exact Nat.mod_lt _ (by omega)

def gcd (lhs rhs : Int) : Int :=
  if lhs = 0 ∧ rhs = 0 then 1 else gcdImpl lhs.natAbs rhs.natAbs

/-- `ratio::num` -/
def numOf (nx dx : Int) : Int := (signOf nx * signOf dx * nx.natAbs).tdiv (gcd nx dx)

/-- `ratio::den` -/
def denOf (nx dx : Int) : Int := (dx.natAbs : Int).tdiv (gcd nx dx)

theorem gcdImpl_eq (lhs rhs : Nat) : gcdImpl lhs rhs = lhs.gcd rhs := by
  fun_induction gcdImpl lhs rhs with
  | case1 lhs => simp
  | case2 lhs rhs hrhs ih => rw [ih, Nat.gcd_comm, ← Nat.gcd_rec, Nat.gcd_comm]

theorem signOf_mul_natAbs (value : Int) : signOf value * value.natAbs = value := by
  simp only [signOf]
  split_ifs <;> omega

@[simp] theorem natAbs_signOf (value : Int) : (signOf value).natAbs = 1 := by
  simp only [signOf]
  split_ifs <;> rfl

theorem natAbs_tdiv_le (a b : Int) : (a.tdiv b).natAbs ≤ a.natAbs := by
  rw [natAbs_tdiv]
  exact Nat.div_le_self _ _

section

variable {a b : Int} (hb : b ≠ 0)
include hb

theorem gcd_eq : gcd a b = (a.natAbs.gcd b.natAbs : Nat) := by
  rw [gcd, if_neg (by simp [hb]), gcdImpl_eq]

theorem gcd_pos : 0 < gcd a b := by
  rw [gcd_eq hb]
  exact natCast_pos.mpr (Nat.gcd_pos_of_pos_right _ (natAbs_pos.mpr hb))

theorem gcd_dvd_left : gcd a b ∣ a := by
  rw [gcd_eq hb]
  exact natCast_dvd.mpr (Nat.gcd_dvd_left _ _)

theorem gcd_dvd_right : gcd a b ∣ b := by
  rw [gcd_eq hb]
  exact natCast_dvd.mpr (Nat.gcd_dvd_right _ _)

theorem coprime_tdiv_gcd : (a.tdiv (gcd a b)).natAbs.Coprime (b.tdiv (gcd a b)).natAbs := by
  rw [natAbs_tdiv, natAbs_tdiv, gcd_eq hb, natAbs_natCast]
  exact Nat.coprime_div_gcd_div_gcd (Nat.gcd_pos_of_pos_right _ (natAbs_pos.mpr hb))

theorem natAbs_tdiv_gcd_dvd_left : (a.tdiv (gcd a b)).natAbs ∣ a.natAbs :=
  natAbs_dvd_natAbs.mpr ⟨gcd a b, (Int.tdiv_mul_cancel (gcd_dvd_left hb)).symm⟩
theorem natAbs_tdiv_gcd_dvd_right : (b.tdiv (gcd a b)).natAbs ∣ b.natAbs :=
  natAbs_dvd_natAbs.mpr ⟨gcd a b, (Int.tdiv_mul_cancel (gcd_dvd_right hb)).symm⟩

theorem numOf_eq : numOf a b = signOf b * a.tdiv (gcd a b) := by
  have hnum : signOf a * signOf b * a.natAbs = signOf b * a := by
    rw [Int.mul_comm (signOf a), Int.mul_assoc, signOf_mul_natAbs]
  rw [numOf, hnum, Int.mul_tdiv_assoc _ (gcd_dvd_left hb)]

theorem denOf_eq : denOf a b = signOf b * b.tdiv (gcd a b) := by
  have hden : (b.natAbs : Int) = signOf b * b := by
    simp only [signOf]
    split_ifs <;> omega
  rw [denOf, hden, Int.mul_tdiv_assoc _ (gcd_dvd_right hb)]

theorem denOf_pos : 0 < denOf a b := by
  have hdvd : gcd a b ∣ (b.natAbs : Int) := dvd_natAbs.mpr (gcd_dvd_right hb)
  have hmul := Int.tdiv_mul_cancel hdvd
  have hpos : 0 < (b.natAbs : Int) := by omega
  rw [← hmul] at hpos
  exact (mul_pos_iff_of_pos_right (gcd_pos hb)).mp hpos

theorem coprime_numOf : (numOf a b).natAbs.Coprime (denOf a b).natAbs := by
  rw [numOf_eq hb, denOf_eq hb]
  simpa [natAbs_mul] using coprime_tdiv_gcd hb

theorem natAbs_numOf_le : (numOf a b).natAbs ≤ a.natAbs := by
  rw [numOf_eq hb, natAbs_mul, natAbs_signOf, Nat.one_mul]
  exact natAbs_tdiv_le _ _

theorem natAbs_denOf_le : (denOf a b).natAbs ≤ b.natAbs := by
  rw [denOf_eq hb, natAbs_mul, natAbs_signOf, Nat.one_mul]
  exact natAbs_tdiv_le _ _

theorem numOf_div_denOf : (numOf a b : ℚ) / denOf a b = a / b := by
  have hg := (gcd_pos (a := a) hb).ne'
  have ha : numOf a b * gcd a b = signOf b * a := by
    rw [numOf_eq hb, Int.mul_assoc, Int.tdiv_mul_cancel (gcd_dvd_left hb)]
  have hd : denOf a b * gcd a b = signOf b * b := by
    rw [denOf_eq hb, Int.mul_assoc, Int.tdiv_mul_cancel (gcd_dvd_right hb)]
  have hs : (signOf b : ℚ) ≠ 0 := by
    simp only [signOf]
    split_ifs <;> simp
  rw [← mul_div_mul_right _ _ (cast_ne_zero.mpr hg), ← cast_mul, ← cast_mul, ha, hd,
    cast_mul, cast_mul, mul_div_mul_left _ _ hs]

end

def Accepted (nx dx : Int) : Prop := dx ≠ 0 ∧ nx.natAbs ≤ 2 ^ 63 - 1 ∧ dx.natAbs ≤ 2 ^ 63 - 1
deriving Decidable

def ofAccepted {nx dx : Int} (h : Accepted nx dx) : Ratio where
  num := numOf nx dx
  den := denOf nx dx
  den_pos := denOf_pos h.1
  coprime := coprime_numOf h.1
  num_le := (natAbs_numOf_le h.1).trans h.2.1
  den_le := (natAbs_denOf_le h.1).trans h.2.2

/-- `ratio<Nx, Dx>`, or nothing if an assertion of the class fails. -/
def ratio (nx dx : Int) : Option Ratio := if h : Accepted nx dx then some (ofAccepted h) else none

def safeMultiply (lhs rhs : Int) : Option Int :=
  if lhs.natAbs ≤ (2 ^ 63 - 1) / (if rhs = 0 then 1 else rhs.natAbs) then some (lhs * rhs) else none

def ratioMultiply (lhs rhs : Ratio) : Option Ratio := do
  let gx := gcd lhs.num rhs.den
  let gy := gcd rhs.num lhs.den
  let numerator ← safeMultiply (lhs.num.tdiv gx) (rhs.num.tdiv gy)
  let denominator ← safeMultiply (lhs.den.tdiv gy) (rhs.den.tdiv gx)
  ratio numerator denominator

def ratioDivide (lhs rhs : Ratio) : Option Ratio := (ratio rhs.den rhs.num).bind (ratioMultiply lhs)

def value (r : Ratio) : ℚ := r.num / r.den

def Representable (q : ℚ) : Prop := q.num.natAbs ≤ 2 ^ 63 - 1 ∧ q.den ≤ 2 ^ 63 - 1

@[simp] theorem num_value (r : Ratio) : r.value.num = r.num :=
  Rat.num_div_eq_of_coprime r.den_pos r.coprime
@[simp] theorem den_value (r : Ratio) : (r.value.den : Int) = r.den :=
  Rat.den_div_eq_of_coprime r.den_pos r.coprime

theorem value_inj {r s : Ratio} : r.value = s.value ↔ r = s := by
  constructor
  · intro h
    ext
    · rw [← num_value, h, num_value]
    · rw [← den_value, h, den_value]
  · rintro rfl
    rfl

theorem representable_iff : Representable q ↔ ∃ r : Ratio, r.value = q := by
  constructor
  · rintro ⟨hnum, hden⟩
    exact ⟨⟨q.num, q.den, natCast_pos.mpr q.den_pos, by simpa using q.reduced, hnum, by simpa using hden⟩,
      q.num_div_den⟩
  · rintro ⟨r, rfl⟩
    have := r.den_le
    have := den_value r
    exact ⟨by simpa using r.num_le, by omega⟩

theorem value_ofAccepted (h : Accepted a b) : (ofAccepted h).value = a / b := numOf_div_denOf h.1

theorem ratio_eq_some_iff {a b : Int} : ratio a b = some r ↔ Accepted a b ∧ r.value = a / b := by
  by_cases h : Accepted a b
  · rw [ratio, dif_pos h, Option.some.injEq, ← value_inj, value_ofAccepted]
    simp [h, eq_comm]
  · simp [ratio, h]

theorem safeMultiply_eq (ha : a.natAbs ≤ 2 ^ 63 - 1) (b : Int) :
    safeMultiply a b = if (a * b).natAbs ≤ 2 ^ 63 - 1 then some (a * b) else none := by
  by_cases hb : b = 0
  · simpa [safeMultiply, hb] using ha
  · simp [safeMultiply, hb, natAbs_mul, Nat.le_div_iff_mul_le (natAbs_pos.mpr hb)]

section

variable (r s : Ratio)

/-- The numerator of the product after each factor has been reduced by the other's denominator. -/
def crossNum : Int := r.num.tdiv (gcd r.num s.den) * s.num.tdiv (gcd s.num r.den)

def crossDen : Int := r.den.tdiv (gcd s.num r.den) * s.den.tdiv (gcd r.num s.den)

theorem coprime_cross : (crossNum r s).natAbs.Coprime (crossDen r s).natAbs := by
  have hr := r.den_pos.ne'
  have hs := s.den_pos.ne'
  have hrr := (r.coprime.coprime_dvd_left (natAbs_tdiv_gcd_dvd_left hs)).coprime_dvd_right
    (natAbs_tdiv_gcd_dvd_right (a := s.num) hr)
  have hss := (s.coprime.coprime_dvd_left (natAbs_tdiv_gcd_dvd_left hr)).coprime_dvd_right
    (natAbs_tdiv_gcd_dvd_right (a := r.num) hs)
  rw [crossNum, crossDen, natAbs_mul, natAbs_mul]
  exact (hrr.mul_right (coprime_tdiv_gcd hs)).mul_left ((coprime_tdiv_gcd hr).mul_right hss)

theorem crossNum_mul : crossNum r s * (gcd r.num s.den * gcd s.num r.den) = r.num * s.num := by
  have hr := Int.tdiv_mul_cancel (gcd_dvd_left (a := r.num) s.den_pos.ne')
  have hs := Int.tdiv_mul_cancel (gcd_dvd_left (a := s.num) r.den_pos.ne')
  rw [crossNum, mul_mul_mul_comm, hr, hs]

theorem crossDen_mul : crossDen r s * (gcd r.num s.den * gcd s.num r.den) = r.den * s.den := by
  have hr := Int.tdiv_mul_cancel (gcd_dvd_right (a := s.num) r.den_pos.ne')
  have hs := Int.tdiv_mul_cancel (gcd_dvd_right (a := r.num) s.den_pos.ne')
  rw [crossDen, Int.mul_comm (gcd r.num s.den), mul_mul_mul_comm, hr, hs]

theorem cancelled_pos : 0 < gcd r.num s.den * gcd s.num r.den :=
  Int.mul_pos (gcd_pos s.den_pos.ne') (gcd_pos r.den_pos.ne')

theorem crossDen_pos : 0 < crossDen r s := by
  have hpos := Int.mul_pos r.den_pos s.den_pos
  rw [← crossDen_mul] at hpos
  exact (mul_pos_iff_of_pos_right (cancelled_pos r s)).mp hpos

theorem cross_div : (crossNum r s : ℚ) / crossDen r s = r.value * s.value := by
  have hc : ((gcd r.num s.den * gcd s.num r.den : Int) : ℚ) ≠ 0 := cast_ne_zero.mpr (cancelled_pos r s).ne'
  rw [← mul_div_mul_right _ _ hc, ← cast_mul, ← cast_mul, crossNum_mul, crossDen_mul, value, value,
    cast_mul, cast_mul, mul_div_mul_comm]

theorem num_mul_value : (r.value * s.value).num = crossNum r s := by
  rw [← cross_div, Rat.num_div_eq_of_coprime (crossDen_pos r s) (coprime_cross r s)]
theorem den_mul_value : ((r.value * s.value).den : Int) = crossDen r s := by
  rw [← cross_div, Rat.den_div_eq_of_coprime (crossDen_pos r s) (coprime_cross r s)]

theorem ratioMultiply_eq : ratioMultiply r s = ratio (crossNum r s) (crossDen r s) := by
  have hnum : safeMultiply (r.num.tdiv (gcd r.num s.den)) (s.num.tdiv (gcd s.num r.den)) =
      if (crossNum r s).natAbs ≤ 2 ^ 63 - 1 then some (crossNum r s) else none :=
    safeMultiply_eq ((natAbs_tdiv_le _ _).trans r.num_le) _
  have hden : safeMultiply (r.den.tdiv (gcd s.num r.den)) (s.den.tdiv (gcd r.num s.den)) =
      if (crossDen r s).natAbs ≤ 2 ^ 63 - 1 then some (crossDen r s) else none :=
    safeMultiply_eq ((natAbs_tdiv_le _ _).trans r.den_le) _
  simp only [ratioMultiply, hnum, hden]
  by_cases hn : (crossNum r s).natAbs ≤ 2 ^ 63 - 1
  · by_cases hd : (crossDen r s).natAbs ≤ 2 ^ 63 - 1
    · rw [if_pos hn, if_pos hd]
      rfl
    · rw [if_neg hd, ratio, dif_neg fun h => hd h.2.2]
      split_ifs
      rfl
  · rw [if_neg hn, ratio, dif_neg fun h => hn h.2.1]
    rfl

end

theorem ratioMultiply_eq_some_iff : ratioMultiply r s = some t ↔ t.value = r.value * s.value := by
  rw [ratioMultiply_eq, ratio_eq_some_iff, cross_div, and_iff_right_iff_imp]
  intro h
  have hnum : t.num = crossNum r s := by rw [← num_value, h, num_mul_value]
  have hden : t.den = crossDen r s := by rw [← den_value, h, den_mul_value]
  rw [← hnum, ← hden]
  exact ⟨t.den_pos.ne', t.num_le, t.den_le⟩

theorem ratioDivide_eq_some_iff (hs : s.num ≠ 0) : ratioDivide r s = some t ↔ t.value = r.value / s.value := by
  have hacc : Accepted s.den s.num := ⟨hs, s.den_le, s.num_le⟩
  have hvalue : (ofAccepted hacc).value = s.value⁻¹ := by
    rw [value_ofAccepted, value, inv_div]
  rw [ratioDivide, ratio, dif_pos hacc, Option.bind_some, ratioMultiply_eq_some_iff, hvalue, div_eq_mul_inv]

/-- `x` is `q` in lowest terms if that can be represented, and is rejected otherwise. -/
def Exact (x : Option Ratio) (q : ℚ) : Prop :=
  (Representable q → ∃ t, x = some t ∧ t.num = q.num ∧ t.den = q.den) ∧ (¬ Representable q → x = none)

theorem exact_of_eq_some_iff (h : ∀ t, x = some t ↔ t.value = q) : Exact x q := by
  constructor
  · intro hq
    obtain ⟨t, rfl⟩ := representable_iff.mp hq
    exact ⟨t, (h t).mpr rfl, by simp, by simp⟩
  · intro hq
    apply Option.eq_none_iff_forall_ne_some.mpr
    intro t ht
    exact hq (representable_iff.mpr ⟨t, (h t).mp ht⟩)

/-- `ratio` keeps lowest terms; products and quotients are exact whenever they can be represented. -/
theorem ratio_arithmetic_exact : (∀ nx dx : Int, Accepted nx dx → ∃ r, ratio nx dx = some r ∧ 0 < r.den ∧
      r.num.natAbs.Coprime r.den.natAbs ∧ (r.num : ℚ) / r.den = nx / dx) ∧
    (∀ r s : Ratio, Exact (ratioMultiply r s) (r.value * s.value)) ∧
    ∀ r s : Ratio, s.num ≠ 0 → Exact (ratioDivide r s) (r.value / s.value) := by
  refine ⟨?_, ?_, ?_⟩
  · intro nx dx h
    have hr : ratio nx dx = some (ofAccepted h) := by rw [ratio, dif_pos h]
    exact ⟨ofAccepted h, hr, (ofAccepted h).den_pos, (ofAccepted h).coprime, value_ofAccepted h⟩
  · intro r s
    exact exact_of_eq_some_iff fun t => ratioMultiply_eq_some_iff
  · intro r s hs
    exact exact_of_eq_some_iff fun t => ratioDivide_eq_some_iff hs

theorem ratio_arithmetic_exact_half_by_two_thirds : ∃ r s t, ratio 2 4 = some r ∧ ratio (-2) (-3) = some s ∧
    ratioDivide r s = some t ∧ t.num = 3 ∧ t.den = 4 := by
  obtain ⟨r, hr, -, -, hhalf⟩ := ratio_arithmetic_exact.1 2 4 (by decide)
  obtain ⟨s, hs, -, -, hthirds⟩ := ratio_arithmetic_exact.1 (-2) (-3) (by decide)
  have hnonzero : s.num ≠ 0 := by
    intro h
    norm_num [h] at hthirds
  have hquotient : r.value / s.value = 3 / 4 := by
    rw [value, value, hhalf, hthirds]
    norm_num
  obtain ⟨hexact, -⟩ := ratio_arithmetic_exact.2.2 r s hnonzero
  rw [hquotient] at hexact
  obtain ⟨t, ht, hnum, hden⟩ := hexact ⟨by decide +kernel, by decide +kernel⟩
  exact ⟨r, s, t, hr, hs, ht, hnum.trans (by decide +kernel), hden.trans (by decide +kernel)⟩

structure Uint128 where
  upper : UInt64
  lower : UInt64
  deriving DecidableEq

namespace Uint128

/-- `uint128::operator<` -/
def less (lhs rhs : Uint128) : Bool :=
  if lhs.upper ≠ rhs.upper then lhs.upper < rhs.upper else lhs.lower < rhs.lower

def toNat (n : Uint128) : Nat := n.upper.toNat * 2 ^ 64 + n.lower.toNat

theorem less_iff (m n : Uint128) : m.less n = true ↔ m.toNat < n.toNat := by
  have := m.lower.toNat_lt
  have := n.lower.toNat_lt
  simp only [less, toNat, ne_eq, ← UInt64.toNat_inj]
  split_ifs <;> simp only [decide_eq_true_eq, UInt64.lt_iff_toNat_lt] <;> omega

end Uint128

def multiplyUint128 (lhsFactor rhsFactor : UInt64) : Uint128 :=
  let lhsLow := lhsFactor &&& 0xFFFFFFFF
  let lhsHigh := lhsFactor >>> 32
  let rhsLow := rhsFactor &&& 0xFFFFFFFF
  let rhsHigh := rhsFactor >>> 32
  let tmp := lhsLow * rhsLow
  let lower32 := tmp &&& 0xFFFFFFFF
  let carry := tmp >>> 32
  let tmp := lhsLow * rhsHigh + carry
  let midLower := tmp &&& 0xFFFFFFFF
  let midUint128 := tmp >>> 32
  let tmp := lhsHigh * rhsLow + midLower
  let carry := tmp >>> 32
  ⟨lhsHigh * rhsHigh + midUint128 + carry, (tmp <<< 32) + lower32⟩

theorem toNat_low (x : UInt64) : (x &&& 0xFFFFFFFF).toNat = x.toNat % 2 ^ 32 := by
  rw [UInt64.toNat_and]
  exact Nat.and_two_pow_sub_one_eq_mod x.toNat 32

theorem toNat_high (x : UInt64) : (x >>> 32).toNat = x.toNat / 2 ^ 32 := by
  rw [UInt64.toNat_shiftRight]
  exact Nat.shiftRight_eq_div_pow _ _

theorem partial_products (haL : aL < 2 ^ 32) (haH : aH < 2 ^ 32) (hbL : bL < 2 ^ 32) (hbH : bH < 2 ^ 32) :
    let low := aL * bL % 2 ^ 64
    let mid := (aL * bH % 2 ^ 64 + low / 2 ^ 32) % 2 ^ 64
    let high := (aH * bL % 2 ^ 64 + mid % 2 ^ 32) % 2 ^ 64
    (((aH * bH % 2 ^ 64 + mid / 2 ^ 32) % 2 ^ 64 + high / 2 ^ 32) % 2 ^ 64) * 2 ^ 64 +
      (high * 2 ^ 32 % 2 ^ 64 + low % 2 ^ 32) % 2 ^ 64 = (aH * 2 ^ 32 + aL) * (bH * 2 ^ 32 + bL) := by
  have bound {x y : Nat} (hx : x < 2 ^ 32) (hy : y < 2 ^ 32) : x * y ≤ (2 ^ 32 - 1) * (2 ^ 32 - 1) :=
    Nat.mul_le_mul (by omega) (by omega)
  have hll := bound haL hbL
  have hlh := bound haL hbH
  have hhl := bound haH hbL
  have hhh := bound haH hbH
  have hprod : (aH * 2 ^ 32 + aL) * (bH * 2 ^ 32 + bL) =
      aH * bH * 2 ^ 64 + (aH * bL + aL * bH) * 2 ^ 32 + aL * bL := by ring
  rw [hprod]
  generalize aL * bL = ll, aL * bH = lh, aH * bL = hl, aH * bH = hh at *
  simp only
  omega

theorem toNat_multiplyUint128 (a b : UInt64) : (multiplyUint128 a b).toNat = a.toNat * b.toNat := by
  simp only [multiplyUint128, Uint128.toNat]
  simp only [UInt64.toNat_add, UInt64.toNat_mul, toNat_low, toNat_high, UInt64.toNat_shiftLeft, Nat.shiftLeft_eq]
  have ha := a.toNat_lt
  have hb := b.toNat_lt
  have h := partial_products (Nat.mod_lt a.toNat (by decide)) (show a.toNat / 2 ^ 32 < 2 ^ 32 by omega)
    (Nat.mod_lt b.toNat (by decide)) (show b.toNat / 2 ^ 32 < 2 ^ 32 by omega)
  rw [Nat.div_add_mod', Nat.div_add_mod'] at h
  exact h

def isRatioLess (nxLhs dxLhs nxRhs dxRhs : Int) : Bool :=
  if 0 ≤ nxLhs ∧ 0 ≤ nxRhs then
    (multiplyUint128 (.ofInt nxLhs) (.ofInt dxRhs)).less (multiplyUint128 (.ofInt nxRhs) (.ofInt dxLhs))
  else if nxLhs < 0 ∧ nxRhs < 0 then
    (multiplyUint128 (.ofInt (-nxRhs)) (.ofInt dxLhs)).less (multiplyUint128 (.ofInt (-nxLhs)) (.ofInt dxRhs))
  else nxLhs < nxRhs

theorem less_products (ha : 0 ≤ a) (ha' : a < 2 ^ 64) (hb : 0 ≤ b) (hb' : b < 2 ^ 64) (hc : 0 ≤ c)
    (hc' : c < 2 ^ 64) (hd : 0 ≤ d) (hd' : d < 2 ^ 64) :
    (multiplyUint128 (.ofInt a) (.ofInt b)).less (multiplyUint128 (.ofInt c) (.ofInt d)) = true ↔ a * b < c * d := by
  have cast {n : Int} (h : 0 ≤ n) (h' : n < 2 ^ 64) : ((UInt64.ofInt n).toNat : Int) = n := by
    have hofInt : (UInt64.ofInt n).toNat = (n % 2 ^ 64).toNat := UInt64.toNat_ofNat' .. |>.trans (by omega)
    rw [hofInt]
    omega
  rw [Uint128.less_iff, toNat_multiplyUint128, toNat_multiplyUint128, ← ofNat_lt]
  push_cast
  rw [cast ha ha', cast hb hb', cast hc hc', cast hd hd']

theorem isRatioLess_iff (ha : -2 ^ 63 < a) (ha' : a < 2 ^ 63) (hb : 0 < b) (hb' : b < 2 ^ 63) (hc : -2 ^ 63 < c)
    (hc' : c < 2 ^ 63) (hd : 0 < d) (hd' : d < 2 ^ 63) : isRatioLess a b c d = true ↔ (a : ℚ) / b < c / d := by
  have hbq : (0 : ℚ) < b := cast_pos.mpr hb
  have hdq : (0 : ℚ) < d := cast_pos.mpr hd
  have hcross : (a : ℚ) / b < c / d ↔ a * d < c * b := by
    rw [div_lt_div_iff₀ hbq hdq]
    norm_cast
  rw [hcross, isRatioLess]
  split_ifs with hpos hneg
  · rw [less_products] <;> omega
  · rw [less_products] <;> first | omega | skip
    rw [Int.neg_mul, Int.neg_mul, Int.neg_lt_neg_iff]
  · rw [decide_eq_true_iff]
    by_cases ha0 : 0 ≤ a
    · have had := Int.mul_nonneg ha0 hd.le
      have hcb : c * b < 0 := Int.mul_neg_of_neg_of_pos (by omega) hb
      omega
    · have had : a * d < 0 := Int.mul_neg_of_neg_of_pos (by omega) hd
      have hcb : 0 ≤ c * b := Int.mul_nonneg (by omega) hb.le
      omega

def ratioLess (lhs rhs : Ratio) : Bool := isRatioLess lhs.num lhs.den rhs.num rhs.den

def ratioLessEqual (lhs rhs : Ratio) : Bool := !ratioLess rhs lhs

def ratioGreater (lhs rhs : Ratio) : Bool := ratioLess rhs lhs

def ratioGreaterEqual (lhs rhs : Ratio) : Bool := !ratioLess lhs rhs

theorem ratioLess_iff (r s : Ratio) : ratioLess r s = true ↔ r.value < s.value := by
  have hr := r.num_le
  have hr' := r.den_le
  have hs := s.num_le
  have hs' := s.den_le
  have hpos := r.den_pos
  have hpos' := s.den_pos
  apply isRatioLess_iff <;> omega

/-- The products are exact, so ratios are compared as rational numbers, by a total order. -/
theorem ratio_comparisons_exact : (∀ lhsFactor rhsFactor : UInt64,
      (multiplyUint128 lhsFactor rhsFactor).toNat = lhsFactor.toNat * rhsFactor.toNat) ∧
    (∀ n₁ d₁ n₂ d₂ : Int, -2 ^ 63 < n₁ → n₁ < 2 ^ 63 → 0 < d₁ → d₁ < 2 ^ 63 → -2 ^ 63 < n₂ → n₂ < 2 ^ 63 →
      0 < d₂ → d₂ < 2 ^ 63 → (isRatioLess n₁ d₁ n₂ d₂ = true ↔ (n₁ : ℚ) / d₁ < n₂ / d₂)) ∧
    (∀ r s : Ratio, (ratioLess r s = true ↔ r.value < s.value) ∧ (ratioLessEqual r s = true ↔ r.value ≤ s.value) ∧
      (ratioGreater r s = true ↔ r.value > s.value) ∧ (ratioGreaterEqual r s = true ↔ r.value ≥ s.value)) ∧
    (∀ r s : Ratio, ratioLess r s = true ∨ r = s ∨ ratioGreater r s = true) ∧
    (∀ r s : Ratio, ratioLessEqual r s = true → ratioGreaterEqual r s = true → r = s) ∧
    ∀ r s t : Ratio, ratioLess r s = true → ratioLess s t = true → ratioLess r t = true := by
  have hless : ∀ r s : Ratio, (ratioLess r s = true ↔ r.value < s.value) ∧
      (ratioLessEqual r s = true ↔ r.value ≤ s.value) ∧ (ratioGreater r s = true ↔ r.value > s.value) ∧
      (ratioGreaterEqual r s = true ↔ r.value ≥ s.value) := by
    intro r s
    simp [ratioLessEqual, ratioGreater, ratioGreaterEqual, ratioLess_iff, ← Bool.not_eq_true]
  refine ⟨toNat_multiplyUint128, ?_, hless, ?_, ?_, ?_⟩
  · intro n₁ d₁ n₂ d₂ hn₁ hn₁' hd₁ hd₁' hn₂ hn₂' hd₂ hd₂'
    exact isRatioLess_iff hn₁ hn₁' hd₁ hd₁' hn₂ hn₂' hd₂ hd₂'
  · intro r s
    rw [(hless r s).1, (hless r s).2.2.1, ← value_inj]
    exact lt_trichotomy r.value s.value
  · intro r s
    rw [(hless r s).2.1, (hless r s).2.2.2, ← value_inj]
    exact le_antisymm
  · intro r s t
    simp only [ratioLess_iff]
    exact lt_trans

/-- Two ratios near one half, whose products take 125 bits. -/
theorem ratio_comparisons_exact_halves : isRatioLess (2 ^ 62) (2 ^ 63 - 1) (2 ^ 62 + 1) (2 ^ 63 - 1) = true ∧
    ((2 ^ 62 : Int) : ℚ) / (2 ^ 63 - 1 : Int) < (2 ^ 62 + 1 : Int) / (2 ^ 63 - 1 : Int) := by
  have h := ratio_comparisons_exact.2.1 (2 ^ 62) (2 ^ 63 - 1) (2 ^ 62 + 1) (2 ^ 63 - 1) (by decide) (by decide)
    (by decide) (by decide) (by decide) (by decide) (by decide) (by decide)
  have hless : isRatioLess (2 ^ 62) (2 ^ 63 - 1) (2 ^ 62 + 1) (2 ^ 63 - 1) = true := by decide +kernel
  exact ⟨hless, h.mp hless⟩

end Ratio
end Ktl
