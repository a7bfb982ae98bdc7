import Ktl.Durations

/-!
`wait_for_impl`, which every wait with a timeout goes through, and `stall_for` and
`stall_until` of `this_thread`.
-/
namespace Ktl.ThreadDelays

open Duration IntegralType

variable {source : DurationType}

inductive ZeroWaitPolicy where
  | cancel | yield
  deriving DecidableEq

def statusCancelled : BitVec 32 := 0xC0000120

structure Waited where
  status : BitVec 32
  intervals : List Int
  deriving DecidableEq

def waitForImpl (policy : ZeroWaitPolicy) (c : Cast source tics) (awaitHandler : Int → BitVec 32)
    (waitDuration : Duration source) : Waited :=
  if waitDuration.count < 0 ∨ policy = .cancel ∧ waitDuration.count = 0 then ⟨statusCancelled, []⟩
  else
    let ticsToWait := (durationCast c waitDuration).count
    let interval := longLong.convert (-1 * ticsToWait)
    ⟨awaitHandler interval, [interval]⟩

/-- The test of `stall_for`, and the arguments `KeStallExecutionProcessor` is called with. -/
def stall (usToWait : Int) : List Int := if usToWait ≥ 0 then [] else [unsignedLong.convert usToWait]

def stallFor (c : Cast source microseconds) (stallDuration : Duration source) : List Int :=
  stall (durationCast c stallDuration).count

def stallUntil {timeType nowType : DurationType} (m : Common timeType nowType) (c : Cast m.type microseconds)
    (stallTime : Duration timeType) (now : Duration nowType) : List Int :=
  stallFor c (minus m stallTime now)

/-- The product that `duration_cast` forms in `common_rep` before it divides. -/
def product {target : DurationType} (c : Cast source target) (d : Duration source) : Int :=
  let commonRep := castRep source target
  commonRep.convert (commonRep.convert d.count * commonRep.convert c.carry.num)

/-- A duration in periods of the target, rounded towards zero without any overflow. -/
def exactCount {target : DurationType} (c : Cast source target) (count : Int) : Int :=
  (count * c.carry.num).tdiv c.carry.den

theorem product_eq {target : DurationType} (c : Cast source target) (d : Duration source) :
    product c d = (castRep source target).convert (d.count * c.carry.num) := by
  have hu := castRep_cases source target
  rw [product, convert_of_natAbs_le hu c.num_pos c.carry.num_le, convert_mul hu]

section

/-- What a wait owes its caller: a negative duration, or none at all where that cancels, is not
waited for. Any other is handed over as an interval that is not positive and, where the tics fit,
exact; and the quotient is that of the product before it wraps around. -/
def WaitsRight (policy : ZeroWaitPolicy) (c : Cast source tics) (awaitHandler : Int → BitVec 32)
    (d : Duration source) : Prop :=
  if d.count < 0 ∨ policy = .cancel ∧ d.count = 0 then waitForImpl policy c awaitHandler d = ⟨statusCancelled, []⟩
  else ∃ interval ≤ 0, waitForImpl policy c awaitHandler d = ⟨awaitHandler interval, [interval]⟩ ∧
    (exactCount c d.count < 2 ^ 63 → interval = -exactCount c d.count) ∧
    (product c d).tdiv c.carry.den = exactCount c d.count

/-- A product that wraps around is divided to less than it should. -/
theorem wrapped_quotient_lt (hv : -2 ^ 63 ≤ v) (hp : v + 2 ^ 64 ≤ p) (hk : 0 < k) (hk' : k < 2 ^ 63) :
    v.tdiv k < p.tdiv k := by
  rw [Int.tdiv_eq_ediv_of_nonneg (show 0 ≤ p by omega)]
  by_cases hneg : 0 ≤ v
  · rw [Int.tdiv_eq_ediv_of_nonneg hneg]
    have hnext : (v + k) / k = v / k + 1 := by
      rw [Int.add_ediv_of_dvd_right (Int.dvd_refl k), Int.ediv_self hk.ne']
    have hle : (v + k) / k ≤ p / k := Int.ediv_le_ediv hk (by omega)
    omega
  · have hquotient : v.tdiv k ≤ 0 := by
      have := Int.tdiv_nonneg (show 0 ≤ -v by omega) hk.le
      rw [Int.neg_tdiv] at this
      omega
    have hpos : 1 ≤ p / k := Int.le_ediv_of_mul_le hk (by omega)
    omega

theorem convert_of_not_holds (hu : u = longLong ∨ u = unsignedLongLong) (hp : 0 ≤ p) (h : ¬ u.Holds p) :
    -2 ^ 63 ≤ u.convert p ∧ u.convert p + 2 ^ 64 ≤ p := by
  obtain rfl | rfl := hu <;> simp [Holds, convert, Int.bmod_def] at h ⊢ <;> omega

theorem lt_of_holds (hu : u = longLong ∨ u = unsignedLongLong) (h : u.Holds n) : n < 2 ^ 64 := by
  obtain rfl | rfl := hu <;> simp [Holds] at h <;> omega

/-- The interval is not positive up to the least number, which is its own negation. -/
theorem interval_right_iff (he : 0 ≤ e) (he' : e < 2 ^ 64) :
    (longLong.convert (-1 * longLong.convert e) ≤ 0 ∧
      (e < 2 ^ 63 → longLong.convert (-1 * longLong.convert e) = -e)) ↔ e ≤ 2 ^ 63 := by
  simp [convert, Int.bmod_def]
  omega

variable (c : Cast source tics) (d : Duration source)

/-- The quotient is the exact one just when the product fits `common_rep`. -/
theorem quotient_eq_iff (hd : 0 ≤ d.count) :
    (product c d).tdiv c.carry.den = exactCount c d.count ↔ (castRep source tics).Holds (d.count * c.carry.num) := by
  rw [product_eq]
  by_cases hholds : (castRep source tics).Holds (d.count * c.carry.num)
  · rw [convert_of_holds hholds]
    exact iff_of_true rfl hholds
  · have hnonneg := Int.mul_nonneg hd c.num_pos.le
    obtain ⟨hlow, hless⟩ := convert_of_not_holds (castRep_cases source tics) hnonneg hholds
    have hden := c.carry.den_le
    have hlt := wrapped_quotient_lt hlow hless c.carry.den_pos (by omega)
    exact iff_of_false hlt.ne hholds

/-- The tics of a product that fits are the exact ones, and below `2 ^ 64`. -/
theorem exactCount_of_holds (hd : 0 ≤ d.count) (h : (castRep source tics).Holds (d.count * c.carry.num)) :
    (durationCast c d).count = longLong.convert (exactCount c d.count) ∧
      0 ≤ exactCount c d.count ∧ exactCount c d.count < 2 ^ 64 := by
  refine ⟨?_, ?_, ?_⟩
  · rw [count_durationCast, convert_of_holds h]
    rfl
  · exact Int.tdiv_nonneg (Int.mul_nonneg hd c.num_pos.le) c.carry.den_pos.le
  · exact lt_of_holds (castRep_cases source tics) (h.tdiv c.carry.den_pos)

/-- The interval of a duration that is not cancelled. -/
theorem waitsRight_iff_interval (awaitHandler : Int → BitVec 32)
    (h : ¬ (d.count < 0 ∨ policy = .cancel ∧ d.count = 0)) :
    WaitsRight policy c awaitHandler d ↔ (longLong.convert (-1 * (durationCast c d).count) ≤ 0 ∧
      (exactCount c d.count < 2 ^ 63 → longLong.convert (-1 * (durationCast c d).count) = -exactCount c d.count)) ∧
      (product c d).tdiv c.carry.den = exactCount c d.count := by
  rw [WaitsRight, waitForImpl, if_neg h, if_neg h]
  constructor
  · rintro ⟨interval, hle, heq, hexact, hproduct⟩
    simp only [Waited.mk.injEq, List.cons.injEq, and_true] at heq
    rw [heq.2]
    exact ⟨⟨hle, hexact⟩, hproduct⟩
  · rintro ⟨⟨hle, hexact⟩, hproduct⟩
    exact ⟨_, hle, rfl, hexact, hproduct⟩

/-- A wait is right when the product fits and the tics are at most `2 ^ 63`. -/
theorem waits_right_iff (policy : ZeroWaitPolicy) (awaitHandler : Int → BitVec 32) :
    WaitsRight policy c awaitHandler d ↔ d.count < 0 ∨
      (castRep source tics).Holds (d.count * c.carry.num) ∧ exactCount c d.count ≤ 2 ^ 63 := by
  by_cases hneg : d.count < 0
  · simp [WaitsRight, waitForImpl, hneg]
  · have hd : 0 ≤ d.count := by omega
    by_cases hzero : policy = .cancel ∧ d.count = 0
    · have hholds : (castRep source tics).Holds 0 := by
        obtain h | h := castRep_cases source tics <;> rw [h] <;> decide
      simp [WaitsRight, waitForImpl, hzero, exactCount, hholds]
    · rw [waitsRight_iff_interval c d awaitHandler (by tauto), quotient_eq_iff c d hd, and_comm, or_iff_right hneg]
      refine and_congr_right fun hholds => ?_
      obtain ⟨hcount, hnonneg, hlt⟩ := exactCount_of_holds c d hd hholds
      rw [hcount]
      exact interval_right_iff hnonneg hlt

def secondsToTics : Cast seconds tics :=
  ⟨ticsPerSecond, divides_of_value (by norm_num [Ratio.value, seconds, tics])⟩

/-- The longest wait in seconds is handed over as an absolute time one second after the epoch. -/
theorem longest_wait_is_absolute : ∃ d : Duration seconds, d.count = 2 ^ 63 - 1 ∧
    waitForImpl .yield secondsToTics (fun _ => 0) d = ⟨0, [10000000]⟩ ∧
    ¬ WaitsRight .yield secondsToTics (fun _ => 0) d := by
  have hwait : waitForImpl .yield secondsToTics (fun _ => 0) ⟨2 ^ 63 - 1, by decide⟩ = ⟨0, [10000000]⟩ := by
    decide +kernel
  refine ⟨⟨2 ^ 63 - 1, by decide⟩, rfl, hwait, ?_⟩
  rw [WaitsRight, if_neg (by decide), hwait]
  rintro ⟨interval, hle, heq, -⟩
  simp only [Waited.mk.injEq, List.cons.injEq, and_true] at heq
  omega

end

def wanted (us : Int) : List Int := if 0 < us then [us] else []

/-- Whether `wanted` is what is done about a time of `exact / den` microseconds, when `wrapped`
is left of `exact` in `common_rep`. The test is the wrong way round: nothing is done about
quotients from 0 on that keep their sign, and of all others the low 32 bits are waited for. -/
def Stalls (den exact wrapped : Int) : Prop :=
  exact < den ∧ -den < wrapped ∧ wrapped < 2 ^ 63 * den ∨
    den ≤ exact ∧ (wrapped ≤ -den ∨ 2 ^ 63 * den ≤ wrapped) ∧ wrapped.tdiv den % 2 ^ 32 = exact.tdiv den

section

variable {den : Int} (hden : 0 < den)
include hden

theorem tdiv_nonneg_iff (n : Int) : 0 ≤ n.tdiv den ↔ -den < n := by
  rcases Int.le_total 0 n with hn | hn
  · have := Int.tdiv_nonneg hn hden.le
    omega
  · obtain ⟨m, rfl⟩ : ∃ m, n = -m := ⟨-n, by omega⟩
    rw [Int.neg_tdiv, Int.tdiv_eq_ediv_of_nonneg (by omega)]
    have := Int.ediv_lt_iff_lt_mul (a := m) (b := 1) hden
    omega

theorem le_tdiv_iff (hk : 0 < k) (n : Int) : k ≤ n.tdiv den ↔ k * den ≤ n := by
  rcases Int.le_total 0 n with hn | hn
  · rw [Int.tdiv_eq_ediv_of_nonneg hn, Int.le_ediv_iff_mul_le hden]
  · have hquotient := Int.tdiv_nonneg (show 0 ≤ -n by omega) hden.le
    have hproduct := Int.mul_pos hk hden
    rw [Int.neg_tdiv] at hquotient
    omega

theorem stall_eq_wanted_iff (exact : Int) (hlow : -2 ^ 63 ≤ wrapped) (hhigh : wrapped < 2 ^ 64) :
    stall (longLong.convert (wrapped.tdiv den)) = wanted (exact.tdiv den) ↔ Stalls den exact wrapped := by
  have hrange : -2 ^ 63 ≤ wrapped.tdiv den ∧ wrapped.tdiv den < 2 ^ 64 := by
    have hle : (wrapped.tdiv den).natAbs ≤ wrapped.natAbs := by
      rw [Int.natAbs_tdiv]
      exact Nat.div_le_self _ _
    have := le_tdiv_iff hden (k := 2 ^ 64) (by decide) wrapped
    have := tdiv_nonneg_iff hden wrapped
    omega
  have hsign := tdiv_nonneg_iff hden wrapped
  have hhalf := le_tdiv_iff hden (k := 2 ^ 63) (by decide) wrapped
  have hone := le_tdiv_iff hden (k := 1) (by decide) exact
  rw [Int.one_mul] at hone
  rw [Stalls, stall, wanted]
  generalize wrapped.tdiv den = w at *
  have hconvert : longLong.convert w ≥ 0 ↔ 0 ≤ w ∧ ¬ 2 ^ 63 ≤ w := by
    simp [convert, Int.bmod_def]
    omega
  have hlow32 : unsignedLong.convert (longLong.convert w) = w % 2 ^ 32 := by
    simp [convert, Int.bmod_def]
    omega
  rw [hlow32]
  split_ifs <;> simp <;> omega

/-- Where nothing wraps around, only a time of no whole microsecond is stalled for rightly. -/
theorem stalls_self_iff (exact : Int) : Stalls den exact exact ↔ |exact| < den := by
  have hhalf := le_tdiv_iff hden (k := 2 ^ 63) (by decide) exact
  rw [Stalls, abs_lt]
  omega

end

def difference {timeType nowType : DurationType} (m : Common timeType nowType) (time : Duration timeType)
    (now : Duration nowType) : Int :=
  time.count * m.fromLhs.carry.num - now.count * m.fromRhs.carry.num

/-- The difference in the common type, which wraps around. -/
def wrappedDifference {timeType nowType : DurationType} (m : Common timeType nowType) (time : Duration timeType)
    (now : Duration nowType) : Int :=
  m.type.rep.convert (m.type.rep.convert (time.count * m.fromLhs.carry.num) -
    m.type.rep.convert (now.count * m.fromRhs.carry.num))

section

variable (m : Common timeType nowType)

/-- A conversion to a common type keeps what the type can hold, also where it is `bool`. -/
theorem count_toCommon (c : Cast source target) (d : Duration source) (hwhole : c.carry.den = 1)
    (hrep : target.rep = bool → source.rep = bool) :
    (durationCast c d).count = target.rep.convert (d.count * c.carry.num) := by
  rw [count_durationCast, hwhole, Int.tdiv_one]
  by_cases hbool : target.rep = bool
  · have hcount := d.holds
    have hnum := c.carry.num_le
    have hpos := c.num_pos
    rw [hrep hbool] at hcount
    have hcases : d.count = 0 ∨ d.count = 1 := by
      simp [Holds] at hcount
      omega
    have hholds : (castRep source target).Holds (d.count * c.carry.num) := by
      rw [castRep, hbool, hrep hbool]
      obtain h | h := hcases <;> rw [h] <;> simp [common, Holds]
      omega
    rw [convert_of_holds hholds]
  · exact convert_convert (castRep_cases source target) hbool _

theorem Common.rep_bool (h : m.type.rep = bool) : timeType.rep = bool ∧ nowType.rep = bool := by
  rw [m.rep_eq] at h
  generalize timeType.rep = s at h ⊢
  generalize nowType.rep = t at h ⊢
  revert h
  cases s <;> cases t <;> decide

theorem count_minus (time : Duration timeType) (now : Duration nowType) :
    (minus m time now).count = wrappedDifference m time now := by
  change m.type.rep.convert _ = m.type.rep.convert _
  rw [count_toCommon m.fromLhs time m.lhs_whole fun h => (Common.rep_bool m h).1,
    count_toCommon m.fromRhs now m.rhs_whole fun h => (Common.rep_bool m h).2]

theorem convert_sub {t : IntegralType} (ht : t ≠ bool) (x y : Int) :
    t.convert (t.convert x - t.convert y) = t.convert (x - y) := by
  cases t <;> simp_all [convert]

theorem wrappedDifference_eq_iff (hrep : m.type.rep ≠ bool) (time : Duration timeType) (now : Duration nowType) :
    wrappedDifference m time now = difference m time now ↔ m.type.rep.Holds (difference m time now) := by
  rw [wrappedDifference, convert_sub hrep, ← difference]
  constructor
  · intro h
    rw [← h]
    exact holds_convert _ _
  · exact convert_of_holds

end

theorem stallFor_iff (c : Cast source microseconds) (d : Duration source) (exact : Int) :
    stallFor c d = wanted (exactCount c exact) ↔
      Stalls c.carry.den (exact * c.carry.num) ((castRep source microseconds).convert (d.count * c.carry.num)) := by
  have hrange : ∀ n, -2 ^ 63 ≤ (castRep source microseconds).convert n ∧
      (castRep source microseconds).convert n < 2 ^ 64 := by
    intro n
    have hholds := holds_convert (castRep source microseconds) n
    obtain h | h := castRep_cases source microseconds <;> rw [h] at hholds ⊢ <;> simp [Holds] at hholds <;> omega
  rw [stallFor, count_durationCast, exactCount]
  exact stall_eq_wanted_iff c.carry.den_pos _ (hrange _).1 (hrange _).2

/-- The sign test is the wrong way round. Where neither the product nor the difference of the times
wraps around, a stall is right only for less than one microsecond. -/
theorem stalls_right_iff (c : Cast source microseconds) (d : Duration source) (m : Common timeType nowType)
    (c' : Cast m.type microseconds) (time : Duration timeType) (now : Duration nowType) :
    ((stallFor c d = wanted (exactCount c d.count) ↔ Stalls c.carry.den (d.count * c.carry.num)
        ((castRep source microseconds).convert (d.count * c.carry.num))) ∧
      ((castRep source microseconds).Holds (d.count * c.carry.num) →
        (stallFor c d = wanted (exactCount c d.count) ↔ |d.count * c.carry.num| < c.carry.den))) ∧
    (stallUntil m c' time now = wanted (exactCount c' (difference m time now)) ↔
      Stalls c'.carry.den (difference m time now * c'.carry.num)
        ((castRep m.type microseconds).convert (wrappedDifference m time now * c'.carry.num))) ∧
    (wrappedDifference m time now = difference m time now →
      (castRep m.type microseconds).Holds (difference m time now * c'.carry.num) →
      (stallUntil m c' time now = wanted (exactCount c' (difference m time now)) ↔
        |difference m time now * c'.carry.num| < c'.carry.den)) ∧
    (m.type.rep ≠ bool →
      (wrappedDifference m time now = difference m time now ↔ m.type.rep.Holds (difference m time now))) := by
  have huntil : stallUntil m c' time now = wanted (exactCount c' (difference m time now)) ↔
      Stalls c'.carry.den (difference m time now * c'.carry.num)
        ((castRep m.type microseconds).convert (wrappedDifference m time now * c'.carry.num)) := by
    rw [stallUntil, stallFor_iff, count_minus]
  refine ⟨⟨stallFor_iff c d _, fun hholds => ?_⟩, huntil, fun heq hholds => ?_,
    fun hrep => wrappedDifference_eq_iff m hrep time now⟩
  · rw [stallFor_iff, convert_of_holds hholds]
    exact stalls_self_iff c.carry.den_pos _
  · rw [huntil, heq, convert_of_holds hholds]
    exact stalls_self_iff c'.carry.den_pos _

def millisecondsToMicroseconds : Cast milliseconds microseconds :=
  ⟨kilo, divides_of_value (by norm_num [Ratio.value, microseconds])⟩

def ticsToMicroseconds : Cast tics microseconds :=
  ⟨deci, divides_of_value (by norm_num [Ratio.value, tics, microseconds])⟩

/-- Nine tics are less than a microsecond, and one second is a thousand milliseconds. -/
theorem stalls_right_nine_tics :
    (∃ d : Duration tics, d.count = 9 ∧ stallFor ticsToMicroseconds d = wanted (exactCount ticsToMicroseconds 9)) ∧
    ∃ (time : Duration milliseconds) (now : Duration seconds), time.count = 1000 ∧ now.count = 1 ∧
      stallUntil toSeconds.toCommon millisecondsToMicroseconds time now =
        wanted (exactCount millisecondsToMicroseconds (difference toSeconds.toCommon time now)) := by
  obtain ⟨⟨-, hfor⟩, -, huntil, -⟩ := stalls_right_iff ticsToMicroseconds ⟨9, by decide⟩ toSeconds.toCommon
    millisecondsToMicroseconds ⟨1000, by decide⟩ ⟨1, by decide⟩
  exact ⟨⟨_, rfl, (hfor (by decide)).mpr (by decide)⟩,
    _, _, rfl, rfl, (huntil (by decide +kernel) (by decide +kernel)).mpr (by decide +kernel)⟩

def microsecondsToMicroseconds : Cast microseconds microseconds :=
  ⟨seconds.period, divides_of_value (by norm_num [Ratio.value, seconds, microseconds])⟩

/-- Ten microseconds are not waited for, and ten that have passed are waited for more than an hour. -/
theorem ten_microseconds_not_stalled :
    (∃ d : Duration microseconds, d.count = 10 ∧ stallFor microsecondsToMicroseconds d = [] ∧
      wanted (exactCount microsecondsToMicroseconds d.count) = [10]) ∧
    ∃ d : Duration microseconds, d.count = -10 ∧ stallFor microsecondsToMicroseconds d = [4294967286] ∧
      wanted (exactCount microsecondsToMicroseconds d.count) = [] :=
  ⟨⟨⟨10, by decide⟩, rfl, by decide +kernel, by decide +kernel⟩,
    ⟨-10, by decide⟩, rfl, by decide +kernel, by decide +kernel⟩

end Ktl.ThreadDelays
