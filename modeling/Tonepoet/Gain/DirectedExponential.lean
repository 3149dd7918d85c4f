import Mathlib.Analysis.SpecialFunctions.Pow.Real
import Tonepoet.Gain.AlbumGain
import Tonepoet.Rust

/-!
# The directed exponential encloses

The reduced exponent is enclosed, then the series with its remainder, then the squares, and for an attenuation the reciprocal.
-/

namespace Gain

open scoped ENNReal
open DirectedRounding Finset Rust

/-! ## The logarithm of ten -/

/-- The first terms of the series of `- log (1 - x)`. -/
def logSeries (x : ℚ) (n : ℕ) : ℚ := ∑ i ∈ range n, x ^ (i + 1) / (i + 1)

theorem logSeries_spec {x : ℚ} (h0 : 0 ≤ x) (h1 : x < 1) (n : ℕ) :
    |(logSeries x n : ℝ) + Real.log (1 - x)| ≤ (x ^ (n + 1) / (1 - x) : ℚ) := by
  have habs : |(x : ℝ)| = x := abs_of_nonneg (by exact_mod_cast h0)
  have hlt : |(x : ℝ)| < 1 := by
    rw [habs]
    exact_mod_cast h1
  have h := Real.abs_log_sub_add_sum_range_le hlt n
  rw [habs] at h
  rw [logSeries]
  push_cast
  exact h

theorem log_ten_eq : Real.log 10 = -3 * Real.log (1 - ((1 / 2 : ℚ) : ℝ)) - Real.log (1 - ((1 / 5 : ℚ) : ℝ)) := by
  have hpow : (10 : ℝ) = ((1 - ((1 / 2 : ℚ) : ℝ)) ^ 3)⁻¹ * (1 - ((1 / 5 : ℚ) : ℝ))⁻¹ := by norm_num
  rw [hpow, Real.log_mul (by norm_num) (by norm_num), Real.log_inv, Real.log_inv, Real.log_pow]
  push_cast
  ring

/-- **The constants are on the two sides of the logarithm of ten.** -/
theorem encloses_log_ten : Encloses ln10Lower ln10Upper (Real.log 10) := by
  have hhalf := abs_le.1 (logSeries_spec (x := 1 / 2) (by norm_num) (by norm_num) 60)
  have hfifth := abs_le.1 (logSeries_spec (x := 1 / 5) (by norm_num) (by norm_num) 30)
  have hthree : ((3 : ℚ) : ℝ) = 3 := by norm_num
  have hlower : (5184960683398420 / 2 ^ 51 : ℚ) ≤ 3 * (logSeries (1 / 2) 60 - (1 / 2) ^ (60 + 1) / (1 - 1 / 2)) +
    (logSeries (1 / 5) 30 - (1 / 5) ^ (30 + 1) / (1 - 1 / 5)) := by decide +kernel
  have hupper : 3 * (logSeries (1 / 2) 60 + (1 / 2) ^ (60 + 1) / (1 - 1 / 2)) +
    (logSeries (1 / 5) 30 + (1 / 5) ^ (30 + 1) / (1 - 1 / 5)) ≤ (5184960683398422 / 2 ^ 51 : ℚ) := by decide +kernel
  have hlower' := (Rat.cast_le (K := ℝ)).2 hlower
  have hupper' := (Rat.cast_le (K := ℝ)).2 hupper
  rw [Rat.cast_add, Rat.cast_mul, Rat.cast_sub, Rat.cast_sub, hthree] at hlower'
  rw [Rat.cast_add, Rat.cast_mul, Rat.cast_add, Rat.cast_add, hthree] at hupper'
  constructor
  · refine ENNReal.ofReal_le_ofReal ?_
    rw [log_ten_eq]
    linarith [hhalf.1, hhalf.2, hfifth.1, hfifth.2]
  · refine ENNReal.ofReal_le_ofReal ?_
    rw [log_ten_eq]
    linarith [hhalf.1, hhalf.2, hfifth.1, hfifth.2]

/-! ## Range reduction -/

variable {arith : Arithmetic} {yLower yUpper : ℝ≥0∞} {y : ℝ}

theorem encloses_natCast (n : ℕ) : Encloses (n : ℝ≥0∞) n n := by
  constructor <;> rw [ENNReal.ofReal_natCast]

/-- **Halving keeps the enclosure.** -/
theorem reduceRange_spec {squarings : ℕ} {yLower' yUpper' : ℝ≥0∞} {squarings' : ℕ} (hy : Encloses yLower yUpper y)
    (h : reduceRange arith yLower yUpper squarings = .ok (yLower', yUpper', squarings')) :
    yUpper' ≤ expReducedMax ∧ ∃ k, squarings' = squarings + k ∧ Encloses yLower' yUpper' (y / 2 ^ k) := by
  fun_induction reduceRange arith yLower yUpper squarings generalizing y with
  | case1 => cases h
  | case2 yLower yUpper squarings hbig hfew ih =>
    have htwo : Encloses 2 2 2 := encloses_natCast 2
    obtain ⟨hsmall, k, hk, hencloses⟩ := ih (hy.div arith htwo (by norm_num)) h
    refine ⟨hsmall, k + 1, by omega, ?_⟩
    rwa [pow_succ', ← div_div]
  | case3 yLower yUpper squarings hsmall =>
    cases h
    refine ⟨not_lt.1 hsmall, 0, rfl, ?_⟩
    rwa [pow_zero, div_one]

/-! ## The series -/

/-- **The terms and the sums of the series are enclosed.** -/
theorem taylor_spec (arith : Arithmetic) (hy : Encloses yLower yUpper y) (hy0 : 0 ≤ y) (n : ℕ) :
    Encloses (taylor arith yLower yUpper n).termLower (taylor arith yLower yUpper n).termUpper (y ^ n / n.factorial) ∧
      Encloses (taylor arith yLower yUpper n).sumLower (taylor arith yLower yUpper n).sumUpper (∑ i ∈ range (n + 1), y ^ i / i.factorial) := by
  induction n with
  | zero =>
    have hone : (y ^ 0 / (Nat.factorial 0 : ℕ) : ℝ) = 1 := by norm_num
    rw [range_one, sum_singleton, hone]
    exact ⟨encloses_one, encloses_one⟩
  | succ n ih =>
    obtain ⟨hterm, hsum⟩ := ih
    have hstep : taylor arith yLower yUpper (n + 1) = taylorStep arith yLower yUpper (taylor arith yLower yUpper n) (1 + n) := by
      rw [taylor, taylor, List.range'_1_concat, List.foldl_append]
      rfl
    have hpos : (0 : ℝ) < ((1 + n : ℕ) : ℝ) := by positivity
    have hterm0 : 0 ≤ y ^ n / n.factorial := by positivity
    have hsum0 : 0 ≤ ∑ i ∈ range (n + 1), y ^ i / i.factorial := sum_nonneg fun i _ => by positivity
    have hvalue : y ^ n / n.factorial * y / ((1 + n : ℕ) : ℝ) = y ^ (n + 1) / (n + 1).factorial := by
      rw [Nat.factorial_succ, pow_succ]
      push_cast
      field_simp
      ring
    have hnext := (hterm.mul arith hy hterm0).div arith (encloses_natCast (1 + n)) hpos
    rw [hvalue] at hnext
    rw [hstep, sum_range_succ _ (n + 1)]
    exact ⟨hnext, hsum.add arith hnext hsum0 (by positivity)⟩

/-- **The series with its remainder encloses the exponential** of a reduced exponent. -/
theorem reducedInterval_spec (arith : Arithmetic) (hy : Encloses yLower yUpper y) (hy0 : 0 ≤ y) (hsmall : yUpper ≤ expReducedMax) :
    Encloses (reducedInterval arith yLower yUpper).1 (reducedInterval arith yLower yUpper).2 (Real.exp y) := by
  have hle : y ≤ 1 / 16 := (ENNReal.ofReal_le_ofReal_iff (by norm_num)).1 (hy.le_upper.trans hsmall)
  obtain ⟨hterm, hsum⟩ := taylor_spec arith hy hy0 expTaylorTerms
  have hterm0 : 0 ≤ y ^ expTaylorTerms / expTaylorTerms.factorial := by positivity
  constructor
  · refine hsum.lower_le.trans (ENNReal.ofReal_le_ofReal ?_)
    exact Real.sum_le_exp_of_nonneg hy0 _
  · have hfirst := (hterm.mul arith hy hterm0).div arith (encloses_natCast (expTaylorTerms + 1)) (by positivity)
    have hratio := hy.div arith (encloses_natCast (expTaylorTerms + 2)) (by positivity)
    have hvalue : y ^ expTaylorTerms / expTaylorTerms.factorial * y / ((expTaylorTerms + 1 : ℕ) : ℝ) =
        y ^ (expTaylorTerms + 1) / (expTaylorTerms + 1).factorial := by
      rw [Nat.factorial_succ, pow_succ]
      push_cast
      field_simp
    have hcast : ((expTaylorTerms + 2 : ℕ) : ℝ) = ((expTaylorTerms + 1 : ℕ) : ℝ) + 1 := by
      push_cast
      ring
    rw [hvalue] at hfirst
    rw [hcast] at hratio
    have htail := exp_le_sum_add_tail hy0 (expTaylorTerms + 1) (by rw [expTaylorTerms]; push_cast; linarith)
    have hratio1 : 0 < 1 - y / (((expTaylorTerms + 1 : ℕ) : ℝ) + 1) := by
      rw [sub_pos, div_lt_one (by positivity), expTaylorTerms]
      push_cast
      linarith
    have hsum0 : 0 ≤ ∑ i ∈ range (expTaylorTerms + 1), y ^ i / i.factorial := sum_nonneg fun i _ => by positivity
    have hfirst0 : 0 ≤ y ^ (expTaylorTerms + 1) / (expTaylorTerms + 1).factorial / (1 - y / (((expTaylorTerms + 1 : ℕ) : ℝ) + 1)) := by positivity
    -- a denominator that is too small makes the remainder too large
    have hdenominator : arith.subDown 1 (arith.divUp yUpper ((expTaylorTerms + 2 : ℕ) : ℝ≥0∞)) ≤
        ENNReal.ofReal (1 - y / (((expTaylorTerms + 1 : ℕ) : ℝ) + 1)) := by
      rw [ENNReal.ofReal_sub _ (by positivity), ENNReal.ofReal_one]
      exact (arith.subDown_le _ _).trans (tsub_le_tsub_left hratio.le_upper _)
    calc ENNReal.ofReal (Real.exp y)
        ≤ ENNReal.ofReal (∑ i ∈ range (expTaylorTerms + 1), y ^ i / i.factorial) +
          ENNReal.ofReal (y ^ (expTaylorTerms + 1) / (expTaylorTerms + 1).factorial / (1 - y / (((expTaylorTerms + 1 : ℕ) : ℝ) + 1))) := by
            rw [← ENNReal.ofReal_add hsum0 hfirst0]
            exact ENNReal.ofReal_le_ofReal htail
      _ ≤ (taylor arith yLower yUpper expTaylorTerms).sumUpper + arith.divUp _ _ := by
            refine add_le_add hsum.le_upper ?_
            rw [ENNReal.ofReal_div_of_pos hratio1]
            exact (ENNReal.div_le_div hfirst.le_upper hdenominator).trans (arith.le_divUp _ _)
      _ ≤ (reducedInterval arith yLower yUpper).2 := arith.le_addUp _ _

/-! ## Squaring, and the interval -/

theorem squareInterval_spec {squarings : ℕ} {sumLower sumUpper : ℝ≥0∞} {interval : ℝ≥0∞ × ℝ≥0∞} {x : ℝ} (hx : Encloses sumLower sumUpper x)
    (hx0 : 0 ≤ x) (h : squareInterval arith sumLower sumUpper squarings = .ok interval) :
    Encloses interval.1 interval.2 (x ^ 2 ^ squarings) := by
  induction squarings generalizing sumLower sumUpper x with
  | zero =>
    cases h
    rwa [pow_zero, pow_one]
  | succ squarings ih =>
    simp only [squareInterval] at h
    split at h
    · cases h
    · have hnext := ih (hx.mul arith hx hx0) (mul_nonneg hx0 hx0) h
      rwa [← pow_two, ← pow_mul, ← pow_succ'] at hnext

theorem expPositiveInterval_spec {interval : ℝ≥0∞ × ℝ≥0∞} (hy : Encloses yLower yUpper y) (hy0 : 0 ≤ y)
    (h : expPositiveInterval arith yLower yUpper = .ok interval) : Encloses interval.1 interval.2 (Real.exp y) := by
  rw [expPositiveInterval] at h
  split at h
  · cases h
  · split at h
    · rename_i hzero
      cases h
      have hy' : y = 0 := by
        have hle := hy.le_upper
        rw [hzero, nonpos_iff_eq_zero, ENNReal.ofReal_eq_zero] at hle
        exact le_antisymm hle hy0
      rw [hy', Real.exp_zero]
      exact encloses_one
    · obtain ⟨⟨lower, upper, squarings⟩, hreduce, h⟩ := bind_eq_ok.1 h
      obtain ⟨hsmall, k, hk, hreduced⟩ := reduceRange_spec hy hreduce
      have hexp := squareInterval_spec (reducedInterval_spec arith hreduced (by positivity) hsmall) (Real.exp_nonneg _) h
      have hsquarings : squarings = k := hk.trans (Nat.zero_add k)
      have hpow : Real.exp (y / 2 ^ k) ^ 2 ^ squarings = Real.exp y := by
        rw [hsquarings, ← Real.exp_nat_mul]
        push_cast
        rw [mul_div_cancel₀ y (by positivity)]
      rwa [hpow] at hexp

/-- The amplitude of a gain in nanodecibels. -/
noncomputable def amplitude (db : DbNano) : ℝ := 10 ^ ((db : ℝ) / 10 ^ 9 / 20)

theorem amplitude_eq_exp (db : DbNano) : amplitude db = Real.exp (db * Real.log 10 / 20000000000) := by
  rw [amplitude, Real.rpow_def_of_pos (by norm_num)]
  congr 1
  ring

theorem amplitude_pos (db : DbNano) : 0 < amplitude db := Real.rpow_pos_of_pos (by norm_num) _

theorem encloses_denominator : Encloses dbNanoExpDenominator dbNanoExpDenominator 20000000000 := encloses_natCast 20000000000

/-- **The interval of a gain encloses its amplitude**, for every gain that has one. -/
theorem dbNanoToLinearInterval_spec {db : DbNano} {interval : ℝ≥0∞ × ℝ≥0∞} (h : dbNanoToLinearInterval arith db = .ok interval) :
    Encloses interval.1 interval.2 (amplitude db) := by
  rw [dbNanoToLinearInterval] at h
  split at h
  · rename_i hzero
    cases h
    have hone : amplitude db = 1 := by
      rw [hzero, amplitude]
      norm_num
    rw [hone]
    exact encloses_one
  · dsimp only at h
    split at h
    · cases h
    · obtain ⟨⟨expLower, expUpper⟩, hexp, h⟩ := bind_eq_ok.1 h
      have hlog0 : 0 ≤ Real.log 10 := Real.log_nonneg (by norm_num)
      have hproduct := (encloses_natCast db.natAbs).mul arith encloses_log_ten (Nat.cast_nonneg _)
      have hy := hproduct.div arith encloses_denominator (by norm_num)
      have hencloses := expPositiveInterval_spec hy (by positivity) hexp
      have habs : ((db.natAbs : ℕ) : ℝ) = |(db : ℝ)| := by
        rw [Nat.cast_natAbs, Int.cast_abs]
      rw [habs] at hencloses
      split at h
      · rename_i hpos
        cases h
        rw [amplitude_eq_exp]
        rwa [abs_of_pos (by exact_mod_cast hpos)] at hencloses
      · rename_i hneg
        cases h
        have hreciprocal := encloses_one.div arith hencloses (Real.exp_pos _)
        have hle : (db : ℝ) ≤ 0 := by exact_mod_cast not_lt.1 hneg
        rw [one_div, ← Real.exp_neg, abs_of_nonpos hle] at hreciprocal
        rw [amplitude_eq_exp]
        convert hreciprocal using 2
        ring

end Gain
