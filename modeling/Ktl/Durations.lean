import Ktl.IntegralTypes
import Ktl.Ratio
import Mathlib.Algebra.Order.Ring.Abs

/-!
`duration` and its conversions. What the compiler has to accept is carried by `Cast` and
`Rounding`; what is left computes with counts, which wrap around.
-/
namespace Ktl

open IntegralType Ratio Int

/-- `duration<Rep, Period>` -/
structure DurationType where
  rep : IntegralType
  period : Ratio
  period_pos : 0 < period.num := by decide

structure Duration (t : DurationType) where
  count : Int
  holds : t.rep.Holds count

namespace Duration

variable {source target : DurationType}

def ofCount (t : DurationType) (value : Int) : Duration t := ⟨t.rep.convert value, holds_convert t.rep value⟩

structure Cast (source target : DurationType) where
  carry : Ratio
  divides : ratioDivide source.period target.period = some carry

/-- `common_rep` of `duration_cast`. -/
def castRep (source target : DurationType) : IntegralType := common (common target.rep source.rep) longLong

def durationCast (c : Cast source target) (dur : Duration source) : Duration target :=
  let commonRep := castRep source target
  if c.carry.den = 1 then
    if c.carry.num = 1 then ofCount target dur.count
    else ofCount target (commonRep.convert (commonRep.convert dur.count * commonRep.convert c.carry.num))
  else if c.carry.num = 1 then ofCount target ((commonRep.convert dur.count).tdiv (commonRep.convert c.carry.den))
  else ofCount target ((commonRep.convert (commonRep.convert dur.count * commonRep.convert c.carry.num)).tdiv
    (commonRep.convert c.carry.den))

def value {t : DurationType} (d : Duration t) : ℚ := d.count * t.period.value

theorem castRep_cases (source target : DurationType) :
    castRep source target = longLong ∨ castRep source target = unsignedLongLong := by
  rw [castRep]
  cases common target.rep source.rep <;> decide

theorem count_ofCount (h : t.rep.Holds n) : (ofCount t n).count = n :=
  convert_of_holds h

section

variable (c : Cast source target)

theorem Cast.value_carry : c.carry.value = source.period.value / target.period.value :=
  (ratioDivide_eq_some_iff target.period_pos.ne').mp c.divides
theorem value_pos (t : DurationType) : 0 < t.period.value :=
  div_pos (cast_pos.mpr t.period_pos) (cast_pos.mpr t.period.den_pos)
theorem value_le_value {d e : Duration t} (h : d.count ≤ e.count) : d.value ≤ e.value :=
  mul_le_mul_of_nonneg_right (cast_le.mpr h) (value_pos t).le

theorem Cast.num_pos : 0 < c.carry.num := by
  rw [← num_value, Rat.num_pos, c.value_carry]
  exact div_pos (value_pos source) (value_pos target)

theorem Cast.num_mul (hden : c.carry.den = 1) : c.carry.num * target.period.value = source.period.value := by
  have h := c.value_carry
  rw [Ratio.value, hden, cast_one, div_one, eq_div_iff (value_pos target).ne'] at h
  exact h

end

section

variable (hu : u = longLong ∨ u = unsignedLongLong)
include hu

theorem convert_mul (a b : Int) : u.convert (u.convert a * b) = u.convert (a * b) := by
  obtain rfl | rfl := hu
  · simp [convert]
  · simp [convert, mul_emod]

theorem convert_convert {t : IntegralType} (ht : t ≠ bool) (n : Int) :
    t.convert (u.convert n) = t.convert n := by
  obtain rfl | rfl := hu <;> cases t <;> simp_all [convert, bmod_def] <;> omega

theorem convert_of_natAbs_le (hpos : 0 < n) (hle : n.natAbs ≤ 2 ^ 63 - 1) : u.convert n = n := by
  apply convert_of_holds
  obtain rfl | rfl := hu <;> simp [Holds] <;> omega

end

/-- A count survives the conversion to `common_rep`, also on the way to `bool`. -/
theorem convert_castRep (d : Duration source) :
    target.rep.convert ((castRep source target).convert d.count) = target.rep.convert d.count := by
  by_cases hbool : target.rep = bool
  · have hholds : (castRep source target).Holds d.count := by
      have hcount := d.holds
      rw [castRep, hbool]
      generalize source.rep = rep at hcount ⊢
      cases rep <;> simp [common, Holds] at hcount ⊢ <;> omega
    rw [convert_of_holds hholds]
  · exact convert_convert (castRep_cases source target) hbool d.count

/-- In every branch: the product wraps around, then it is divided and converted. -/
theorem count_durationCast (c : Cast source target) (d : Duration source) :
    (durationCast c d).count =
      target.rep.convert (((castRep source target).convert (d.count * c.carry.num)).tdiv c.carry.den) := by
  have hu := castRep_cases source target
  have hnum := convert_of_natAbs_le hu c.num_pos c.carry.num_le
  have hden := convert_of_natAbs_le hu c.carry.den_pos c.carry.den_le
  rw [durationCast]
  split_ifs with hd hn hn
  · rw [hd, hn, Int.mul_one, Int.tdiv_one, convert_castRep]
    rfl
  · rw [hd, hnum, convert_mul hu, Int.tdiv_one]
    rfl
  · rw [hn, Int.mul_one, hden]
    rfl
  · rw [hnum, hden, convert_mul hu]
    rfl

section

variable {b : Int} (hb : 0 < b)
include hb

theorem floor_of_truncation : (if a < a.tdiv b * b then a.tdiv b - 1 else a.tdiv b) = a / b := by
  have hle := Int.ediv_mul_le a hb.ne'
  have hlt := lt_ediv_add_one_mul_self a hb
  rw [tdiv_eq_ediv, sign_eq_one_of_pos hb]
  by_cases h : 0 ≤ a ∨ b ∣ a
  · rw [if_pos h, Int.add_zero, if_neg (by omega)]
  · rw [if_neg h, if_pos hlt, Int.add_sub_cancel]

theorem ceil_of_truncation : (if a.tdiv b * b < a then a.tdiv b + 1 else a.tdiv b) = -(-a / b) := by
  have h := floor_of_truncation (a := -a) hb
  simp only [Int.neg_tdiv, Int.neg_mul, Int.neg_lt_neg_iff] at h
  rw [← h]
  split_ifs <;> omega

/-- Of the two multiples around `a` the nearer one is nearest of all. -/
theorem nearest_of_adjustments (hk : k = if a - a / b * b < (a / b + 1) * b - a ∨
      a - a / b * b = (a / b + 1) * b - a ∧ (a / b).tmod 2 = 0 then a / b else a / b + 1) (n : Int) :
    |k * b - a| ≤ |n * b - a| ∧ (|n * b - a| = |k * b - a| → n ≠ k → k % 2 = 0) := by
  have hle := Int.ediv_mul_le a hb.ne'
  have hlt := lt_ediv_add_one_mul_self a hb
  generalize a / b = f at *
  have hnext : (f + 1) * b = f * b + b := by rw [Int.add_mul, Int.one_mul]
  have hbelow : n < f → n * b ≤ f * b - b := fun h => by
    have := Int.mul_le_mul_of_nonneg_right (show n ≤ f - 1 by omega) hb.le
    rwa [Int.sub_mul, Int.one_mul] at this
  have habove : f + 1 < n → f * b + b + b ≤ n * b := fun h => by
    have := Int.mul_le_mul_of_nonneg_right (show f + 2 ≤ n by omega) hb.le
    rw [Int.add_mul] at this
    omega
  have hcases : n < f ∨ n = f ∨ n = f + 1 ∨ f + 1 < n := by omega
  have hmod : f.tmod 2 = 0 ↔ f % 2 = 0 := dvd_iff_tmod_eq_zero.symm.trans dvd_iff_emod_eq_zero
  simp only [hnext, hmod] at hlt hk
  simp only [abs_eq_max_neg]
  split_ifs at hk with hnear <;> subst k <;> obtain h | rfl | rfl | h := hcases <;> omega

end

section

def lcm (lhs rhs : Int) : Int := lhs.tdiv (Ratio.gcd lhs rhs) * rhs

/-- The common type of two durations; both are converted to it without a denominator. -/
structure Common (lhs rhs : DurationType) where
  type : DurationType
  rep_eq : type.rep = common lhs.rep rhs.rep
  period_eq : ratio (Ratio.gcd lhs.period.num rhs.period.num) (lcm lhs.period.den rhs.period.den) = some type.period
  fromLhs : Cast lhs type
  fromRhs : Cast rhs type
  lhs_whole : fromLhs.carry.den = 1
  rhs_whole : fromRhs.carry.den = 1

/-- `operator-` -/
def minus {lhs rhs : DurationType} (c : Common lhs rhs) (x : Duration lhs) (y : Duration rhs) : Duration c.type :=
  ofCount c.type ((durationCast c.fromLhs x).count - (durationCast c.fromRhs y).count)

structure Rounding (source target : DurationType) extends Common source target where
  cast : Cast source target

variable (r : Rounding source target) (dur : Duration source)

def floor : Duration target :=
  let casted := durationCast r.cast dur
  if (durationCast r.fromLhs dur).count < (durationCast r.fromRhs casted).count then
    ofCount target (casted.count - 1)
  else casted

def ceil : Duration target :=
  let casted := durationCast r.cast dur
  if (durationCast r.fromRhs casted).count < (durationCast r.fromLhs dur).count then
    ofCount target (casted.count + 1)
  else casted

def round : Duration target :=
  let floored := floor r dur
  let ceiled := ofCount target (floored.count + 1)
  let floorAdjustment := minus r.toCommon dur floored
  let ceilAdjustment := ofCount r.type ((durationCast r.fromRhs ceiled).count - (durationCast r.fromLhs dur).count)
  if floorAdjustment.count < ceilAdjustment.count ∨
      floorAdjustment.count = ceilAdjustment.count ∧ floored.count.tmod 2 = 0 then floored
  else ceiled

namespace Rounding

def units : Int := dur.count * r.fromLhs.carry.num

def perTarget : Int := r.fromRhs.carry.num

/-- No conversion overflows: the target has the counts that are formed, the common type those that
are compared. -/
structure Converts (formed compared : List Int) : Prop where
  product : longLong.Holds (dur.count * r.cast.carry.num)
  source : r.type.rep.Holds (r.units dur)
  formed : ∀ k ∈ formed, target.rep.Holds k
  compared : ∀ k ∈ compared, r.type.rep.Holds (k * r.perTarget)

def truncated : Int := (r.units dur).tdiv r.perTarget

def floored : Int := r.units dur / r.perTarget

def ceiled : Int := -(-r.units dur / r.perTarget)

theorem perTarget_pos : 0 < r.perTarget := r.fromRhs.num_pos
theorem value_source : dur.value = r.units dur * r.type.period.value := by
  rw [Duration.value, units, cast_mul, mul_assoc, r.fromLhs.num_mul r.lhs_whole]

section
variable (e : Duration target)
include e

theorem value_target : e.value = (e.count * r.perTarget : Int) * r.type.period.value := by
  rw [Duration.value, cast_mul, mul_assoc, perTarget, r.fromRhs.num_mul r.rhs_whole]
theorem value_le_iff : e.value ≤ dur.value ↔ e.count * r.perTarget ≤ r.units dur := by
  rw [r.value_source, r.value_target, mul_le_mul_iff_left₀ (value_pos r.type), cast_le]
theorem le_value_iff : dur.value ≤ e.value ↔ r.units dur ≤ e.count * r.perTarget := by
  rw [r.value_source, r.value_target, mul_le_mul_iff_left₀ (value_pos r.type), cast_le]
theorem distance : |e.value - dur.value| = (|e.count * r.perTarget - r.units dur| : Int) * r.type.period.value := by
  rw [r.value_source, r.value_target, ← sub_mul, abs_mul, abs_of_pos (value_pos r.type), ← cast_sub, cast_abs]

end

/-- The factors to the common type are in the proportion of the conversion to the target. -/
theorem carry_mul_perTarget : r.cast.carry.num * r.perTarget = r.fromLhs.carry.num * r.cast.carry.den := by
  have hsrc := r.fromLhs.num_mul r.lhs_whole
  have htarget := r.fromRhs.num_mul r.rhs_whole
  have hcarry := r.cast.value_carry
  have hden : (r.cast.carry.den : ℚ) ≠ 0 := cast_ne_zero.mpr r.cast.carry.den_pos.ne'
  rw [← hsrc, ← htarget, mul_div_mul_right _ _ (value_pos r.type).ne', Ratio.value,
    div_eq_div_iff hden (cast_ne_zero.mpr r.fromRhs.num_pos.ne')] at hcarry
  exact_mod_cast hcarry

section

variable (hsrc : source.rep.signed = true) (htarget : target.rep.signed = true)
include hsrc htarget

theorem count_cast (h : r.Converts dur formed compared) (hmem : r.truncated dur ∈ formed) :
    (durationCast r.cast dur).count = r.truncated dur := by
  have hquotient : (dur.count * r.cast.carry.num).tdiv r.cast.carry.den = r.truncated dur := by
    rw [← mul_tdiv_mul_of_pos_left _ _ r.perTarget_pos, Int.mul_assoc, r.carry_mul_perTarget,
      ← Int.mul_assoc, Int.mul_comm r.cast.carry.den, mul_tdiv_mul_of_pos_left _ _ r.cast.carry.den_pos]
    rfl
  rw [count_durationCast, castRep, common_common_longLong htarget hsrc, convert_of_holds h.product,
    hquotient, convert_of_holds (h.formed _ hmem)]

theorem signed_rep : r.type.rep.signed = true := by
  rw [r.rep_eq]
  exact signed_common hsrc htarget

theorem count_fromLhs (h : r.Converts dur formed compared) : (durationCast r.fromLhs dur).count = r.units dur := by
  have hcommon := r.signed_rep hsrc htarget
  rw [count_durationCast, castRep, common_common_longLong hcommon hsrc, r.lhs_whole,
    Int.tdiv_one, ← units, convert_of_holds (h.source.longLong hcommon), convert_of_holds h.source]

theorem count_fromRhs (h : r.Converts dur formed compared) (hmem : e.count ∈ compared) :
    (durationCast r.fromRhs e).count = e.count * r.perTarget := by
  have hcommon := r.signed_rep hsrc htarget
  have hholds := h.compared _ hmem
  rw [count_durationCast, castRep, common_common_longLong hcommon htarget, r.rhs_whole,
    Int.tdiv_one, ← perTarget, convert_of_holds (hholds.longLong hcommon), convert_of_holds hholds]

variable  (h : r.Converts dur formed compared) (hcast : r.truncated dur ∈ formed)
  (hback : r.truncated dur ∈ compared)
include h hcast hback

theorem count_cast_back : (durationCast r.fromRhs (durationCast r.cast dur)).count = r.truncated dur * r.perTarget := by
  have hcasted := r.count_cast dur hsrc htarget h hcast
  rw [r.count_fromRhs dur hsrc htarget h (by rwa [hcasted]), hcasted]

theorem count_floor (hfloor : r.floored dur ∈ formed) : (floor r dur).count = r.floored dur := by
  have hcasted := r.count_cast dur hsrc htarget h hcast
  have hstep : (if r.units dur < r.truncated dur * r.perTarget then r.truncated dur - 1 else r.truncated dur) =
      r.floored dur := floor_of_truncation r.perTarget_pos
  rw [floor, r.count_cast_back dur hsrc htarget h hcast hback, hcasted, r.count_fromLhs dur hsrc htarget h]
  split_ifs at hstep ⊢
  · rw [hstep, count_ofCount (h.formed _ hfloor)]
  · rw [hcasted, hstep]

theorem count_ceil (hceil : r.ceiled dur ∈ formed) : (ceil r dur).count = r.ceiled dur := by
  have hcasted := r.count_cast dur hsrc htarget h hcast
  have hstep : (if r.truncated dur * r.perTarget < r.units dur then r.truncated dur + 1 else r.truncated dur) =
      r.ceiled dur := ceil_of_truncation r.perTarget_pos
  rw [ceil, r.count_cast_back dur hsrc htarget h hcast hback, hcasted, r.count_fromLhs dur hsrc htarget h]
  split_ifs at hstep ⊢
  · rw [hstep, count_ofCount (h.formed _ hceil)]
  · rw [hcasted, hstep]

theorem count_round (hfloor : r.floored dur ∈ formed) (hnext : r.floored dur + 1 ∈ formed)
    (hfloor' : r.floored dur ∈ compared) (hnext' : r.floored dur + 1 ∈ compared) (hone : 1 ∈ compared) :
    (round r dur).count = if r.units dur - r.floored dur * r.perTarget <
        (r.floored dur + 1) * r.perTarget - r.units dur ∨
      r.units dur - r.floored dur * r.perTarget = (r.floored dur + 1) * r.perTarget - r.units dur ∧
        (r.floored dur).tmod 2 = 0 then r.floored dur else r.floored dur + 1 := by
  have hcount := r.count_floor dur hsrc htarget h hcast hback hfloor
  have hceiled : (ofCount target ((floor r dur).count + 1)).count = r.floored dur + 1 := by
    rw [hcount, count_ofCount (h.formed _ hnext)]
  have hleft := r.count_fromRhs dur hsrc htarget h (e := floor r dur) (by rwa [hcount])
  have hright := r.count_fromRhs dur hsrc htarget h (e := ofCount target ((floor r dur).count + 1))
    (by rwa [hceiled])
  have hunit : r.type.rep.Holds r.perTarget := by simpa using h.compared _ hone
  have hle : r.floored dur * r.perTarget ≤ r.units dur := Int.ediv_mul_le _ r.perTarget_pos.ne'
  have hlt : r.units dur < (r.floored dur + 1) * r.perTarget := lt_ediv_add_one_mul_self _ r.perTarget_pos
  have hnextMul : (r.floored dur + 1) * r.perTarget = r.floored dur * r.perTarget + r.perTarget := by
    rw [Int.add_mul, Int.one_mul]
  rw [hcount] at hleft hceiled hright
  rw [hceiled] at hright
  rw [round, minus, hcount, hleft, hright, r.count_fromLhs dur hsrc htarget h,
    count_ofCount (hunit.of_le (by omega) (by omega)), count_ofCount (hunit.of_le (by omega) (by omega))]
  split_ifs
  · exact hcount
  · exact hceiled

end

end Rounding

/-- `floor` is the greatest value of the target that is not greater, `ceil` the least that is not
smaller, and `round` the nearest, with an even count between two. -/
theorem roundings_correct (hsrc : source.rep.signed = true) (htarget : target.rep.signed = true) :
    (r.Converts dur [r.truncated dur, r.floored dur] [r.truncated dur] →
      IsGreatest {q | (∃ e : Duration target, e.value = q) ∧ q ≤ dur.value} (floor r dur).value) ∧
    (r.Converts dur [r.truncated dur, r.ceiled dur] [r.truncated dur] →
      IsLeast {q | (∃ e : Duration target, e.value = q) ∧ dur.value ≤ q} (ceil r dur).value) ∧
    (r.Converts dur [r.truncated dur, r.floored dur, r.floored dur + 1]
        [r.truncated dur, r.floored dur, r.floored dur + 1, 1] → ∀ e : Duration target,
      |(round r dur).value - dur.value| ≤ |e.value - dur.value| ∧
        (|e.value - dur.value| = |(round r dur).value - dur.value| → e.count ≠ (round r dur).count →
          (round r dur).count % 2 = 0)) := by
  refine ⟨fun h => ?_, fun h => ?_, fun h e => ?_⟩
  · have hcount := r.count_floor dur hsrc htarget h (by simp) (by simp) (by simp)
    constructor
    · refine ⟨⟨_, rfl⟩, ?_⟩
      rw [r.value_le_iff, hcount]
      exact Int.ediv_mul_le _ r.perTarget_pos.ne'
    · rintro q ⟨⟨e, rfl⟩, he⟩
      apply value_le_value
      rw [hcount]
      exact Int.le_ediv_of_mul_le r.perTarget_pos ((r.value_le_iff dur e).mp he)
  · have hcount := r.count_ceil dur hsrc htarget h (by simp) (by simp) (by simp)
    constructor
    · refine ⟨⟨_, rfl⟩, ?_⟩
      rw [r.le_value_iff, hcount]
      have := Int.ediv_mul_le (-r.units dur) r.perTarget_pos.ne'
      rw [Rounding.ceiled, Int.neg_mul]
      omega
    · rintro q ⟨⟨e, rfl⟩, he⟩
      apply value_le_value
      rw [hcount]
      have := (r.le_value_iff dur e).mp he
      have := Int.le_ediv_of_mul_le r.perTarget_pos (show -e.count * r.perTarget ≤ -r.units dur by
        rw [Int.neg_mul]
        omega)
      rw [Rounding.ceiled]
      omega
  · have hcount := r.count_round dur hsrc htarget h (by simp) (by simp) (by simp) (by simp) (by simp) (by simp)
      (by simp)
    have hpos := value_pos r.type
    rw [r.distance, r.distance, mul_le_mul_iff_left₀ hpos, mul_left_inj' hpos.ne', cast_le, Int.cast_inj]
    exact nearest_of_adjustments r.perTarget_pos hcount e.count

end

def seconds : DurationType := { rep := longLong, period := { num := 1, den := 1 } }

@[simp] def milliseconds : DurationType := { rep := longLong, period := { num := 1, den := 1000 } }

def microseconds : DurationType := { rep := longLong, period := { num := 1, den := 1000000 } }

def tics : DurationType := { rep := longLong, period := { num := 1, den := 10000000 } }

/-! The periods of the clocks, and what they are multiplied with. -/

@[simp] def nano : Ratio := { num := 1, den := 1000000000 }

@[simp] def systemPeriod : Ratio := { num := 1, den := 100000000 }

@[simp] def systemFrequency : Ratio := { num := 100000000, den := 1 }

@[simp] def ticsPerSecond : Ratio := { num := 10000000, den := 1 }

@[simp] def deci : Ratio := { num := 1, den := 10 }

@[simp] def kilo : Ratio := { num := 1000, den := 1 }

theorem divides_of_value (h : carry.value * target.period.value = source.period.value) :
    ratioDivide source.period target.period = some carry :=
  (ratioDivide_eq_some_iff target.period_pos.ne').mpr (eq_div_of_mul_eq (value_pos target).ne' h)

def toSeconds : Rounding milliseconds seconds where
  cast := ⟨milliseconds.period, divides_of_value (by norm_num [Ratio.value, seconds])⟩
  type := milliseconds
  rep_eq := by decide
  period_eq := by
    have hgcd : Ratio.gcd 1 1 = 1 := by simp [Ratio.gcd, gcdImpl_eq]
    have hlcm : lcm 1000 1 = 1000 := by simp [lcm, Ratio.gcd, gcdImpl_eq]
    simp only [milliseconds, seconds, hgcd, hlcm, ratio_eq_some_iff]
    exact ⟨by decide, by norm_num [Ratio.value]⟩
  fromLhs := ⟨seconds.period, divides_of_value (by norm_num [Ratio.value, seconds])⟩
  fromRhs := ⟨kilo, divides_of_value (by norm_num [Ratio.value, seconds])⟩
  lhs_whole := by decide
  rhs_whole := by decide

theorem roundings_correct_halfway : ∃ dur : Duration milliseconds, dur.count = -1500 ∧
    IsGreatest {q | (∃ e : Duration seconds, e.value = q) ∧ q ≤ dur.value} (floor toSeconds dur).value ∧
    IsLeast {q | (∃ e : Duration seconds, e.value = q) ∧ dur.value ≤ q} (ceil toSeconds dur).value ∧
    ∀ e : Duration seconds, |(round toSeconds dur).value - dur.value| ≤ |e.value - dur.value| := by
  obtain ⟨hfloor, hceil, hround⟩ := roundings_correct toSeconds ⟨-1500, by decide⟩ rfl rfl
  exact ⟨⟨-1500, by decide⟩, rfl, hfloor ⟨by decide, by decide, by decide, by decide⟩,
    hceil ⟨by decide, by decide, by decide, by decide⟩,
      fun e => (hround ⟨by decide, by decide, by decide, by decide⟩ e).1⟩

end Duration
end Ktl
