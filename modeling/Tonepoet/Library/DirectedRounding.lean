import Mathlib.Analysis.SpecialFunctions.Exponential
import Mathlib.Analysis.SpecialFunctions.Log.Deriv

/-!
# Directed rounding

Nonnegative machine numbers, infinity among them, with operations of which each is known to lie on its own side of the exact result. A
quotient by zero is infinite, so that no lower bound has to be kept away from zero.
-/

namespace DirectedRounding

open scoped ENNReal
open Finset

structure Arithmetic where
  addDown : ℝ≥0∞ → ℝ≥0∞ → ℝ≥0∞
  addUp : ℝ≥0∞ → ℝ≥0∞ → ℝ≥0∞
  subDown : ℝ≥0∞ → ℝ≥0∞ → ℝ≥0∞
  mulDown : ℝ≥0∞ → ℝ≥0∞ → ℝ≥0∞
  mulUp : ℝ≥0∞ → ℝ≥0∞ → ℝ≥0∞
  divDown : ℝ≥0∞ → ℝ≥0∞ → ℝ≥0∞
  divUp : ℝ≥0∞ → ℝ≥0∞ → ℝ≥0∞
  addDown_le : ∀ a b, addDown a b ≤ a + b
  le_addUp : ∀ a b, a + b ≤ addUp a b
  subDown_le : ∀ a b, subDown a b ≤ a - b
  mulDown_le : ∀ a b, mulDown a b ≤ a * b
  le_mulUp : ∀ a b, a * b ≤ mulUp a b
  divDown_le : ∀ a b, divDown a b ≤ a / b
  le_divUp : ∀ a b, a / b ≤ divUp a b

/-- Arithmetic without rounding. -/
noncomputable def exact : Arithmetic where
  addDown a b := a + b
  addUp a b := a + b
  subDown a b := a - b
  mulDown a b := a * b
  mulUp a b := a * b
  divDown a b := a / b
  divUp a b := a / b
  addDown_le _ _ := le_rfl
  le_addUp _ _ := le_rfl
  subDown_le _ _ := le_rfl
  mulDown_le _ _ := le_rfl
  le_mulUp _ _ := le_rfl
  divDown_le _ _ := le_rfl
  le_divUp _ _ := le_rfl

/-- A number between two bounds. -/
structure Encloses (lower upper : ℝ≥0∞) (x : ℝ) : Prop where
  lower_le : lower ≤ ENNReal.ofReal x
  le_upper : ENNReal.ofReal x ≤ upper

variable (arith : Arithmetic) {a b c d : ℝ≥0∞} {x y : ℝ}

theorem encloses_one : Encloses 1 1 1 := ⟨ENNReal.ofReal_one.ge, ENNReal.ofReal_one.le⟩

theorem Encloses.add (hx : Encloses a b x) (hy : Encloses c d y) (hx0 : 0 ≤ x) (hy0 : 0 ≤ y) :
    Encloses (arith.addDown a c) (arith.addUp b d) (x + y) := by
  constructor
  · rw [ENNReal.ofReal_add hx0 hy0]
    exact (arith.addDown_le a c).trans (add_le_add hx.lower_le hy.lower_le)
  · rw [ENNReal.ofReal_add hx0 hy0]
    exact (add_le_add hx.le_upper hy.le_upper).trans (arith.le_addUp b d)

theorem Encloses.mul (hx : Encloses a b x) (hy : Encloses c d y) (hx0 : 0 ≤ x) :
    Encloses (arith.mulDown a c) (arith.mulUp b d) (x * y) := by
  constructor
  · rw [ENNReal.ofReal_mul hx0]
    exact (arith.mulDown_le a c).trans (mul_le_mul' hx.lower_le hy.lower_le)
  · rw [ENNReal.ofReal_mul hx0]
    exact (mul_le_mul' hx.le_upper hy.le_upper).trans (arith.le_mulUp b d)

/-- A quotient of bounds, each divided by the opposite one. -/
theorem Encloses.div (hx : Encloses a b x) (hy : Encloses c d y) (hy0 : 0 < y) :
    Encloses (arith.divDown a d) (arith.divUp b c) (x / y) := by
  constructor
  · rw [ENNReal.ofReal_div_of_pos hy0]
    exact (arith.divDown_le a d).trans (ENNReal.div_le_div hx.lower_le hy.le_upper)
  · rw [ENNReal.ofReal_div_of_pos hy0]
    exact (ENNReal.div_le_div hx.le_upper hy.lower_le).trans (arith.le_divUp b c)

/-! ## The tail of the exponential series -/

theorem term_le (hx : 0 ≤ x) (n k : ℕ) :
    x ^ (k + n) / (k + n).factorial ≤ x ^ n / n.factorial * (x / (n + 1)) ^ k := by
  have hfactorial : (n.factorial : ℝ) * ((n : ℝ) + 1) ^ k ≤ ((k + n).factorial : ℝ) := by
    rw [Nat.add_comm k n]
    exact_mod_cast Nat.factorial_mul_pow_le_factorial
  have hpos : (0 : ℝ) < n.factorial * ((n : ℝ) + 1) ^ k := by positivity
  calc x ^ (k + n) / (k + n).factorial
      ≤ x ^ (k + n) / (n.factorial * ((n : ℝ) + 1) ^ k) := div_le_div_of_nonneg_left (by positivity) hpos hfactorial
    _ = x ^ n / n.factorial * (x / (n + 1)) ^ k := by
      rw [div_pow, div_mul_div_comm, pow_add, mul_comm (x ^ k)]

/-- **The exponential lies below its series' first terms and a geometric remainder.** -/
theorem exp_le_sum_add_tail (hx : 0 ≤ x) (n : ℕ) (hlt : x < n + 1) :
    Real.exp x ≤ ∑ i ∈ range n, x ^ i / i.factorial + x ^ n / n.factorial / (1 - x / (n + 1)) := by
  have hsum : HasSum (fun i : ℕ => x ^ i / i.factorial) (Real.exp x) := by
    rw [Real.exp_eq_exp_ℝ]
    exact NormedSpace.expSeries_div_hasSum_exp x
  have hratio : 0 ≤ x / (n + 1) := by positivity
  have hratio' : x / (n + 1) < 1 := by rwa [div_lt_one (by positivity)]
  have hgeometric : HasSum (fun k : ℕ => x ^ n / n.factorial * (x / (n + 1)) ^ k) (x ^ n / n.factorial * (1 - x / (n + 1))⁻¹) :=
    (hasSum_geometric_of_lt_one hratio hratio').mul_left _
  have htail : HasSum (fun k : ℕ => x ^ (k + n) / (k + n).factorial) (Real.exp x - ∑ i ∈ range n, x ^ i / i.factorial) :=
    (hasSum_nat_add_iff' n).2 hsum
  have hle := hasSum_le (term_le hx n) htail hgeometric
  rw [div_eq_mul_inv _ (1 - x / (n + 1))]
  linarith

end DirectedRounding
