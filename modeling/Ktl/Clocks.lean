import Ktl.Durations

/-!
`system_clock`, which reads the system time of the kernel, and `steady_clock`, which
reads the performance counter.
-/
namespace Ktl.Clocks

open Duration IntegralType BitVec Int

/-- `KSYSTEM_TIME` -/
structure SystemTime where
  high1Time : BitVec 32
  lowPart : BitVec 32
  deriving DecidableEq

inductive Platform where
  | win8 | bitness32 | bitness64

def querySystemTime : Platform → SystemTime → Int
  | .bitness32, t => (t.high1Time.signExtend 64 <<< 32 ||| t.lowPart.setWidth 64).toInt
  | _, t => (t.high1Time ++ t.lowPart).toInt

@[simp] def systemDuration : DurationType := { rep := longLong, period := systemPeriod }

def systemToTics : Cast systemDuration tics :=
  ⟨deci, divides_of_value (by norm_num [Ratio.value, tics])⟩

def systemToSeconds : Cast systemDuration seconds :=
  ⟨systemDuration.period, divides_of_value (by norm_num [Ratio.value, seconds])⟩

def secondsToSystem : Cast seconds systemDuration :=
  ⟨systemFrequency, divides_of_value (by norm_num [Ratio.value, seconds])⟩

/-- `system_clock::now` -/
def systemNow (raw : Int) : Duration systemDuration := ofCount systemDuration raw

def toTimeT (time : Duration systemDuration) : Int := (durationCast systemToSeconds time).count

def fromTimeT (tm : Int) : Duration systemDuration := durationCast secondsToSystem (ofCount seconds tm)

def elapsed (before after : Int) : Int :=
  (durationCast systemToTics (ofCount systemDuration ((systemNow after).count - (systemNow before).count))).count

def nanoseconds : DurationType := { rep := longLong, period := nano }

/-- `steady_clock::now` -/
def steadyNow (counter freq : Int) : Duration nanoseconds :=
  let whole := longLong.convert (counter.tdiv freq * 1000000000)
  let part := (longLong.convert (counter.tmod freq * 1000000000)).tdiv freq
  ofCount nanoseconds (longLong.convert (whole + part))

/-- On every platform the two halves are one number of 64 bits. -/
theorem querySystemTime_eq (p : Platform) (t : SystemTime) :
    querySystemTime p t = (t.high1Time ++ t.lowPart).toInt := by
  cases p with
  | bitness32 =>
    apply congrArg BitVec.toInt
    apply eq_of_getLsbD_eq
    intro i hi
    rw [getLsbD_append, getLsbD_or, getLsbD_shiftLeft, getLsbD_setWidth]
    by_cases h : i < 32
    · simp [h, hi]
    · have hlow : t.lowPart.getLsbD i = false := getLsbD_of_ge _ i (by omega)
      have hhigh : i - 32 < 32 := by omega
      simp [h, hi, hlow, hhigh, getLsbD_signExtend]
      omega
  | win8 => rfl
  | bitness64 => rfl

theorem holds_querySystemTime (p : Platform) (t : SystemTime) : longLong.Holds (querySystemTime p t) := by
  rw [querySystemTime_eq]
  exact longLong_holds.mpr ⟨le_toInt _, toInt_lt⟩

theorem querySystemTime_inj {p : Platform} {t u : SystemTime} :
    querySystemTime p t = querySystemTime p u ↔ t = u := by
  refine ⟨fun h => ?_, congrArg _⟩
  rw [querySystemTime_eq, querySystemTime_eq, toInt_inj] at h
  have hhigh := congrArg (·.extractLsb' 32 32) h
  have hlow := congrArg (·.extractLsb' 0 32) h
  simp only [BitVec.extractLsb'_append_eq_left, BitVec.extractLsb'_append_eq_right] at hhigh hlow
  cases t
  cases u
  simp_all

/-- A conversion of 64-bit counts that only divides is exact. -/
theorem count_divided (c : Cast source target) (d : Duration source) (hsrc : source.rep = longLong)
    (htarget : target.rep = longLong) (hnum : c.carry.num = 1) :
    (durationCast c d).count = d.count.tdiv c.carry.den := by
  have hcount := d.holds
  rw [hsrc] at hcount
  have hrep : castRep source target = longLong := by
    rw [castRep, hsrc, htarget]
    rfl
  rw [count_durationCast c d, hrep, htarget, hnum, Int.mul_one, convert_of_holds hcount,
    convert_of_holds (hcount.tdiv c.carry.den_pos)]

theorem tdiv_ten_eq_iff (n : Int) : n.tdiv 10 = n ↔ n = 0 := by
  constructor
  · intro h
    have habs := congrArg natAbs h
    rw [natAbs_tdiv] at habs
    change n.natAbs / 10 = n.natAbs at habs
    omega
  · rintro rfl
    rfl

theorem count_systemNow (ht : longLong.Holds t) : (systemNow t).count = t := count_ofCount ht

def Faithful (t : Int) : Prop :=
  (durationCast systemToTics (systemNow t)).count = t ∧
  (durationCast systemToSeconds (systemNow t)).count = t / 10000000 ∧ toTimeT (systemNow t) = t / 10000000

theorem faithful_iff_eq_zero (ht : longLong.Holds t) : Faithful t ↔ t = 0 := by
  have htics := count_divided systemToTics (systemNow t) rfl rfl rfl
  have hseconds := count_divided systemToSeconds (systemNow t) rfl rfl rfl
  rw [count_systemNow ht] at htics hseconds
  constructor
  · rintro ⟨h, -⟩
    exact (tdiv_ten_eq_iff t).mp (htics.symm.trans h)
  · rintro rfl
    exact ⟨htics, hseconds, hseconds⟩

/-- A time point that goes through `time_t` loses its fraction of a second only. -/
theorem fromTimeT_toTimeT (p : Duration systemDuration) (hp : 0 ≤ p.count) :
    (fromTimeT (toTimeT p)).count = p.count / 100000000 * 100000000 := by
  have hcount : toTimeT p = p.count / 100000000 := by
    rw [toTimeT, count_divided systemToSeconds p rfl rfl rfl]
    exact tdiv_eq_ediv_of_nonneg hp
  have hholds := longLong_holds.mp p.holds
  have hsecond : longLong.Holds (toTimeT p) := longLong_holds.mpr (by omega)
  have hwhole : longLong.Holds (toTimeT p * 100000000) := longLong_holds.mpr (by omega)
  rw [fromTimeT, count_durationCast, count_ofCount hsecond]
  change longLong.convert ((longLong.convert (toTimeT p * 100000000)).tdiv 1) = _
  rw [convert_of_holds hwhole, Int.tdiv_one, convert_of_holds hwhole, hcount]

theorem elapsed_iff (hbefore : longLong.Holds before) (hafter : longLong.Holds after)
    (hdifference : longLong.Holds (after - before)) :
    elapsed before after = after - before ↔ after = before := by
  have hcount : elapsed before after = (after - before).tdiv 10 := by
    rw [elapsed, count_systemNow hbefore, count_systemNow hafter, count_divided systemToTics _ rfl rfl rfl,
      count_ofCount hdifference]
    rfl
  rw [hcount, tdiv_ten_eq_iff, Int.sub_eq_zero]

/-- The period of the clock is a tenth of the unit it counts, so only zero is converted right, as a
reading or a difference. -/
theorem system_clock_faithful_iff (platform : Platform) (t before after : SystemTime) (p : Duration systemDuration)
    (hp : 0 ≤ p.count)
    (hdifference : longLong.Holds (querySystemTime platform after - querySystemTime platform before)) :
    (Faithful (querySystemTime platform t) ↔ t = ⟨0, 0⟩) ∧
    (fromTimeT (toTimeT p)).count = p.count / 100000000 * 100000000 ∧
    (elapsed (querySystemTime platform before) (querySystemTime platform after) =
      querySystemTime platform after - querySystemTime platform before ↔ after = before) := by
  have hzero : querySystemTime platform ⟨0, 0⟩ = 0 := querySystemTime_eq platform ⟨0, 0⟩
  refine ⟨?_, fromTimeT_toTimeT p hp, ?_⟩
  · rw [faithful_iff_eq_zero (holds_querySystemTime platform t), ← hzero, querySystemTime_inj]
  · rw [elapsed_iff (holds_querySystemTime platform before) (holds_querySystemTime platform after) hdifference,
      querySystemTime_inj]

/-- A reading of zero, one and a half seconds, and two equal readings. -/
theorem system_clock_faithful_iff_zero : Faithful (querySystemTime .bitness32 ⟨0, 0⟩) ∧
    (∃ p : Duration systemDuration, p.count = 150000000 ∧ (fromTimeT (toTimeT p)).count = 100000000) ∧
    elapsed (querySystemTime .bitness32 ⟨1, 5⟩) (querySystemTime .bitness32 ⟨1, 5⟩) = 0 := by
  obtain ⟨hfaithful, hround, helapsed⟩ := system_clock_faithful_iff .bitness32 ⟨0, 0⟩ ⟨1, 5⟩ ⟨1, 5⟩
    ⟨150000000, by decide⟩ (by decide) (by decide)
  exact ⟨hfaithful.mpr rfl, ⟨_, rfl, hround⟩, (helapsed.mpr rfl).trans (Int.sub_self _)⟩

/-- A reading of one second after the epoch is a tenth of a second to the clock. -/
theorem system_clock_one_second : ¬ Faithful 10000000 ∧
    (durationCast systemToTics (systemNow 10000000)).count = 1000000 ∧ toTimeT (systemNow 10000000) = 0 ∧
    elapsed 0 10000000 = 1000000 := by
  have hfaithful := faithful_iff_eq_zero (t := 10000000) (by decide)
  exact ⟨fun h => absurd (hfaithful.mp h) (by decide), by decide +kernel, by decide +kernel, by decide +kernel⟩

section

variable {c f : Int} (hf : 1 ≤ f) (hf' : f ≤ (2 ^ 63 - 1) / 1000000000) (hc : 0 ≤ c)
include hf

/-- The two parts, which are rounded apart, add up to the one quotient. -/
theorem quotient_split : c * 1000000000 / f = c / f * 1000000000 + c % f * 1000000000 / f := by
  have hsplit : c * 1000000000 = c % f * 1000000000 + f * (c / f * 1000000000) := by
    rw [← Int.mul_assoc, ← Int.add_mul, emod_add_mul_ediv]
  rw [hsplit, add_mul_ediv_left _ _ (by omega), Int.add_comm]

include hf' hc

theorem steady_holds (hfits : c * 1000000000 / f < 2 ^ 63) :
    longLong.Holds (c.tdiv f * 1000000000) ∧ longLong.Holds (c.tmod f * 1000000000) ∧
      longLong.Holds (c.tdiv f * 1000000000 + (c.tmod f * 1000000000).tdiv f) := by
  have hwhole : 0 ≤ c / f := ediv_nonneg hc (by omega)
  have hrest := emod_nonneg c (show f ≠ 0 by omega)
  have hlt := emod_lt_of_pos c (show 0 < f by omega)
  have hpart : 0 ≤ c % f * 1000000000 / f := ediv_nonneg (by omega) (by omega)
  rw [quotient_split hf] at hfits
  simp (disch := omega) only [tdiv_eq_ediv_of_nonneg, tmod_eq_emod_of_nonneg]
  simp only [longLong_holds]
  omega

theorem count_steadyNow (hfits : c * 1000000000 / f < 2 ^ 63) : (steadyNow c f).count = c * 1000000000 / f := by
  obtain ⟨hwhole, hpart, hsum⟩ := steady_holds hf hf' hc hfits
  have hrest := emod_nonneg c (show f ≠ 0 by omega)
  rw [steadyNow, convert_of_holds hwhole, convert_of_holds hpart, convert_of_holds hsum, count_ofCount hsum,
    tdiv_eq_ediv_of_nonneg hc, tmod_eq_emod_of_nonneg hc, tdiv_eq_ediv_of_nonneg (by omega)]
  exact (quotient_split hf).symm

/-- The clock is the counter in nanoseconds, rounded down, and no step on the way overflows. -/
theorem steady_clock_exact (hfits : c * 1000000000 / f < 2 ^ 63) :
    (steadyNow c f).count = c * 1000000000 / f ∧ longLong.Holds (c.tdiv f * 1000000000) ∧
    longLong.Holds (c.tmod f * 1000000000) ∧
    longLong.Holds (c.tdiv f * 1000000000 + (c.tmod f * 1000000000).tdiv f) ∧
    ∀ c', c ≤ c' → c' * 1000000000 / f < 2 ^ 63 → (steadyNow c f).count ≤ (steadyNow c' f).count := by
  have hcount := count_steadyNow hf hf' hc hfits
  obtain ⟨hwhole, hpart, hsum⟩ := steady_holds hf hf' hc hfits
  refine ⟨hcount, hwhole, hpart, hsum, ?_⟩
  intro c' hle hfits'
  rw [hcount, count_steadyNow hf hf' (by omega) hfits']
  exact Int.ediv_le_ediv (by omega) (by omega)

end

theorem steady_clock_exact_third : (steadyNow 10000000 3).count = 3333333333333333 :=
  (steady_clock_exact (c := 10000000) (f := 3) (by decide) (by decide) (by decide) (by decide)).1

end Ktl.Clocks
