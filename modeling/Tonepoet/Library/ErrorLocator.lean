import Mathlib.Algebra.Polynomial.BigOperators
import Mathlib.Algebra.Polynomial.Derivative
import Mathlib.Algebra.Polynomial.Roots
import Mathlib.LinearAlgebra.Vandermonde
import Tonepoet.Library.LinearRecurrence

/-!
# Error locators

An error pattern is a finite set of positions, each with a locator and a magnitude. Its power sums are
the syndromes of a Reed–Solomon code. The locator polynomial generates them as a linear recurrence, so
that the Berlekamp–Massey polynomial is the locator of every pattern it has enough terms for, and
Forney's quotient gives the magnitudes back.
-/

namespace ErrorLocator

open Polynomial LinearRecurrence

variable {K ι : Type*} [Field K] [DecidableEq ι]

/-- Positions with distinct nonzero locators. -/
structure Located (s : Finset ι) (X : ι → K) : Prop where
  injOn : Set.InjOn X s
  ne_zero : ∀ i ∈ s, X i ≠ 0

def powerSum (s : Finset ι) (X e : ι → K) (k : ℕ) : K := ∑ i ∈ s, e i * X i ^ k

noncomputable def locator (s : Finset ι) (X : ι → K) : K[X] := ∏ i ∈ s, (1 - C (X i) * Polynomial.X)

noncomputable def evaluator (s : Finset ι) (X e : ι → K) : K[X] := ∑ i ∈ s, C (e i) * locator (s.erase i) X

variable {s : Finset ι} {X e : ι → K}

omit [DecidableEq ι] in
/-- As many power sums as there are positions determine the magnitudes. -/
theorem Located.eq_zero_of_powerSum (hX : Located s X) (h : ∀ k < s.card, powerSum s X e k = 0) : ∀ i ∈ s, e i = 0 := by
  have hv := Matrix.eq_zero_of_forall_pow_sum_mul_pow_eq_zero (f := fun i => X (s.equivFin.symm i))
    (v := fun i => e (s.equivFin.symm i))
    (fun i j hij => s.equivFin.symm.injective (Subtype.ext (hX.injOn (Subtype.prop _) (Subtype.prop _) hij))) (by
      intro k
      rw [← h k k.isLt, powerSum, ← Finset.sum_coe_sort s, ← Equiv.sum_comp s.equivFin.symm])
  intro i hi
  simpa using congrFun hv (s.equivFin ⟨i, hi⟩)

/-! ## The locator polynomial -/

omit [DecidableEq ι] in
theorem coeff_zero_locator (s : Finset ι) (X : ι → K) : (locator s X).coeff 0 = 1 := by
  rw [coeff_zero_eq_eval_zero, locator, eval_prod]
  exact Finset.prod_eq_one fun i _ => by simp

theorem natDegree_one_sub_le (x : K) : (1 - C x * Polynomial.X : K[X]).natDegree ≤ 1 :=
  (natDegree_sub_le _ _).trans (max_le (by simp) (by simpa using natDegree_C_mul_X_pow_le x 1))

omit [DecidableEq ι] in
theorem natDegree_locator_le (s : Finset ι) (X : ι → K) : (locator s X).natDegree ≤ s.card := by
  refine (natDegree_prod_le _ _).trans ?_
  simpa using Finset.sum_le_card_nsmul s _ 1 fun i _ => natDegree_one_sub_le (X i)

omit [DecidableEq ι] in
theorem eval_locator_eq_zero {i : ι} (hi : i ∈ s) (h0 : X i ≠ 0) : (locator s X).eval (X i)⁻¹ = 0 := by
  rw [locator, eval_prod]
  exact Finset.prod_eq_zero hi (by simp [h0])

omit [DecidableEq ι] in
theorem eval_locator_ne_zero {x : K} (hx : ∀ i ∈ s, X i ≠ x) (h0 : x ≠ 0) : (locator s X).eval x⁻¹ ≠ 0 := by
  rw [locator, eval_prod, Finset.prod_ne_zero_iff]
  intro i hi h
  have hxi : 1 - X i * x⁻¹ = 0 := by simpa using h
  apply hx i hi
  rw [← mul_inv_eq_one₀ h0]
  exact (sub_eq_zero.1 hxi).symm

theorem locator_eq_mul_erase {i : ι} (hi : i ∈ s) : locator s X = (1 - C (X i) * Polynomial.X) * locator (s.erase i) X :=
  (Finset.mul_prod_erase s _ hi).symm

section Roots

variable [DecidableEq K]

omit [DecidableEq ι] in
theorem Located.card_image (hX : Located s X) : (s.image fun i => (X i)⁻¹).card = s.card :=
  Finset.card_image_of_injOn fun _ hi _ hj h => hX.injOn hi hj (inv_injective h)

omit [DecidableEq ι] in
/-- A polynomial of no more than the degree that vanishes at every inverse locator is the locator
polynomial. -/
theorem Located.eq_locator (hX : Located s X) {p : K[X]} (hconst : p.coeff 0 = 1) (hdeg : p.natDegree ≤ s.card)
    (hroot : ∀ i ∈ s, p.eval (X i)⁻¹ = 0) : p = locator s X := by
  have hcard : (insert 0 (s.image fun i => (X i)⁻¹)).card = s.card + 1 := by
    rw [Finset.card_insert_of_notMem, hX.card_image]
    intro hmem
    obtain ⟨i, hi, hinv⟩ := Finset.mem_image.1 hmem
    exact hX.ne_zero i hi (inv_eq_zero.1 hinv)
  rw [← sub_eq_zero]
  refine eq_zero_of_natDegree_lt_card_of_eval_eq_zero' _ (insert 0 (s.image fun i => (X i)⁻¹)) ?_ ?_
  · intro y hy
    rcases Finset.mem_insert.1 hy with rfl | hy
    · rw [eval_sub, ← coeff_zero_eq_eval_zero, ← coeff_zero_eq_eval_zero, hconst, coeff_zero_locator, sub_self]
    · obtain ⟨i, hi, rfl⟩ := Finset.mem_image.1 hy
      rw [eval_sub, hroot i hi, eval_locator_eq_zero hi (hX.ne_zero i hi), sub_self]
  · have hle := (natDegree_sub_le p (locator s X)).trans (max_le hdeg (natDegree_locator_le s X))
    omega

omit [DecidableEq ι] in
theorem Located.natDegree_locator (hX : Located s X) : (locator s X).natDegree = s.card := by
  refine le_antisymm (natDegree_locator_le s X) ?_
  by_contra hlt
  have hzero : locator s X = 0 := by
    refine eq_zero_of_natDegree_lt_card_of_eval_eq_zero' _ (s.image fun i => (X i)⁻¹) ?_ (by rw [hX.card_image]; omega)
    intro y hy
    obtain ⟨i, hi, rfl⟩ := Finset.mem_image.1 hy
    exact eval_locator_eq_zero hi (hX.ne_zero i hi)
  have hone := coeff_zero_locator s X
  rw [hzero, coeff_zero] at hone
  exact zero_ne_one hone

end Roots

/-! ## Locators and power sums -/

theorem one_sub_mul_geometric (x : K) :
    ((1 - C x * Polynomial.X : K[X]) : PowerSeries K) * PowerSeries.mk (fun k => x ^ k) = 1 := by
  rw [Polynomial.coe_sub, Polynomial.coe_one, Polynomial.coe_mul, Polynomial.coe_C, Polynomial.coe_X]
  ext k
  rw [sub_mul, one_mul, mul_assoc, map_sub, PowerSeries.coeff_C_mul, PowerSeries.coeff_mk]
  cases k with
  | zero => simp
  | succ k =>
    rw [PowerSeries.coeff_succ_X_mul, PowerSeries.coeff_mk, PowerSeries.coeff_one, if_neg (Nat.succ_ne_zero k)]
    ring

/-- The key equation. -/
theorem locator_mul_powerSum (s : Finset ι) (X e : ι → K) :
    (locator s X : PowerSeries K) * PowerSeries.mk (powerSum s X e) = (evaluator s X e : PowerSeries K) := by
  have hseries : PowerSeries.mk (powerSum s X e) =
      ∑ i ∈ s, PowerSeries.C (e i) * PowerSeries.mk (fun k => X i ^ k) := by
    ext k
    rw [map_sum, PowerSeries.coeff_mk, powerSum]
    exact Finset.sum_congr rfl fun i _ => by rw [PowerSeries.coeff_C_mul, PowerSeries.coeff_mk]
  have hcoe : (evaluator s X e : PowerSeries K) =
      ∑ i ∈ s, PowerSeries.C (e i) * (locator (s.erase i) X : PowerSeries K) := by
    rw [evaluator, ← Polynomial.coeToPowerSeries.ringHom_apply, map_sum]
    exact Finset.sum_congr rfl fun i _ => by simp
  rw [hseries, hcoe, Finset.mul_sum]
  refine Finset.sum_congr rfl fun i hi => ?_
  rw [locator_eq_mul_erase hi, Polynomial.coe_mul, mul_left_comm, mul_right_comm, one_sub_mul_geometric, one_mul]

theorem coeff_evaluator_eq_zero {k : ℕ} (hk : s.card ≤ k) : (evaluator s X e).coeff k = 0 := by
  rw [evaluator, finsetSum_coeff]
  refine Finset.sum_eq_zero fun i hi => ?_
  have hpos := Finset.card_pos.2 ⟨i, hi⟩
  have hdeg := natDegree_locator_le (s.erase i) X
  rw [Finset.card_erase_of_mem hi] at hdeg
  rw [coeff_C_mul, coeff_eq_zero_of_natDegree_lt (by omega), mul_zero]

/-- A series starts with the power sums of a pattern. -/
def Starts (S : PowerSeries K) (s : Finset ι) (X e : ι → K) (n : ℕ) : Prop :=
  ∀ k < n, PowerSeries.coeff k S = powerSum s X e k

variable {S : PowerSeries K} {n : ℕ}

theorem Starts.coeff_locator_mul (h : Starts S s X e n) {k : ℕ} (hk : k < n) :
    PowerSeries.coeff k ((locator s X : PowerSeries K) * S) = (evaluator s X e).coeff k := by
  rw [coeff_mul_congr (T := PowerSeries.mk (powerSum s X e)) fun j hj => by
    rw [h j (by omega), PowerSeries.coeff_mk], locator_mul_powerSum, Polynomial.coeff_coe]

theorem Starts.generates (h : Starts S s X e n) : Generates S (locator s X) s.card n := by
  refine ⟨coeff_zero_locator s X, natDegree_locator_le s X, fun k hk hkn => ?_⟩
  rw [h.coeff_locator_mul hkn, coeff_evaluator_eq_zero hk]

omit [DecidableEq ι] in
/-- A coefficient past the length, as a power sum. -/
theorem Starts.coeff_mul (h : Starts S s X e n) (hX : Located s X) {p : K[X]} {L j : ℕ} (hdeg : p.natDegree ≤ L)
    (hj : L + j < n) :
    PowerSeries.coeff (L + j) ((p : PowerSeries K) * S) =
      powerSum s X (fun i => e i * (X i ^ L * p.eval (X i)⁻¹)) j := by
  have hrev : ∀ i ∈ s, X i ^ L * p.eval (X i)⁻¹ = ∑ a ∈ Finset.range (L + 1), p.coeff a * X i ^ (L - a) := by
    intro i hi
    rw [eval_eq_sum_range' (Nat.lt_succ_of_le hdeg), Finset.mul_sum]
    refine Finset.sum_congr rfl fun a ha => ?_
    have ha := Finset.mem_range.1 ha
    rw [inv_pow, mul_left_comm, pow_sub₀ _ (hX.ne_zero i hi) (by omega)]
  have hlow : ∑ a ∈ Finset.range (L + j + 1), p.coeff a * PowerSeries.coeff (L + j - a) S =
      ∑ a ∈ Finset.range (L + 1), p.coeff a * powerSum s X e (L + j - a) := by
    rw [← Finset.sum_subset (Finset.range_mono (show L + 1 ≤ L + j + 1 by omega))]
    · refine Finset.sum_congr rfl fun a _ => ?_
      rw [h (L + j - a) (by omega)]
    · intro a _ ha
      rw [coeff_eq_zero_of_natDegree_lt (by have := mt Finset.mem_range.2 ha; omega), zero_mul]
  rw [PowerSeries.coeff_mul, Finset.Nat.sum_antidiagonal_eq_sum_range_succ fun a b => PowerSeries.coeff a (p : PowerSeries K) *
    PowerSeries.coeff b S]
  simp only [Polynomial.coeff_coe]
  rw [hlow, powerSum]
  simp only [powerSum, Finset.mul_sum]
  rw [Finset.sum_comm]
  refine Finset.sum_congr rfl fun i hi => ?_
  rw [hrev i hi, Finset.mul_sum, Finset.sum_mul]
  refine Finset.sum_congr rfl fun a ha => ?_
  have ha := Finset.mem_range.1 ha
  rw [show L + j - a = L - a + j by omega, pow_add]
  ring

omit [DecidableEq ι] in
/-- **Whatever generates enough terms of a pattern vanishes at its inverse locators.** -/
theorem Starts.eval_eq_zero (h : Starts S s X e n) (hX : Located s X) (he : ∀ i ∈ s, e i ≠ 0) {p : K[X]} {L : ℕ}
    (hp : Generates S p L n) (hn : L + s.card ≤ n) : ∀ i ∈ s, p.eval (X i)⁻¹ = 0 := by
  have hzero : ∀ j < s.card, powerSum s X (fun i => e i * (X i ^ L * p.eval (X i)⁻¹)) j = 0 := by
    intro j hj
    rw [← h.coeff_mul hX hp.degree (by omega)]
    exact hp.vanish (L + j) (by omega) (by omega)
  intro i hi
  have hprod := hX.eq_zero_of_powerSum hzero i hi
  exact (mul_eq_zero.1 ((mul_eq_zero.1 hprod).resolve_left (he i hi))).resolve_left (pow_ne_zero L (hX.ne_zero i hi))

/-! ## Decoding -/

/-- **Unique decoding.** With twice as many terms as positions, the Berlekamp–Massey polynomial is the
locator polynomial. -/
theorem massey_eq_locator [DecidableEq K] (h : Starts S s X e n) (hX : Located s X) (he : ∀ i ∈ s, e i ≠ 0)
    (hn : 2 * s.card ≤ n) : (Massey.run S n).c = locator s X := by
  have hinv := Massey.inv_run S n
  have hlen := hinv.minimal _ _ h.generates
  exact hX.eq_locator hinv.generates.const (hinv.generates.degree.trans hlen)
    (h.eval_eq_zero hX he hinv.generates (by omega))

/-- **No idle position.** Where the Berlekamp–Massey polynomial has as high a degree as a pattern has
positions, every magnitude is nonzero. -/
theorem magnitude_ne_zero [DecidableEq K] (h : Starts S s X e n) (hdeg : s.card ≤ (Massey.run S n).c.natDegree) :
    ∀ i ∈ s, e i ≠ 0 := by
  have hfilter : Starts S (s.filter fun i => e i ≠ 0) X e n := by
    intro k hk
    rw [h k hk, powerSum, powerSum, Finset.sum_filter]
    refine Finset.sum_congr rfl fun i _ => ?_
    by_cases hi : e i = 0 <;> simp [hi]
  have hinv := Massey.inv_run S n
  have hlen := hinv.minimal _ _ hfilter.generates
  have hall : (s.filter fun i => e i ≠ 0) = s :=
    Finset.eq_of_subset_of_card_le (Finset.filter_subset _ _) (hdeg.trans (hinv.generates.degree.trans hlen))
  intro i hi
  rw [← hall] at hi
  exact (Finset.mem_filter.1 hi).2

/-- Forney's quotient at a locator. -/
theorem forney (hX : Located s X) {i : ι} (hi : i ∈ s) :
    (derivative (locator s X)).eval (X i)⁻¹ ≠ 0 ∧
      X i * ((evaluator s X e).eval (X i)⁻¹ / (derivative (locator s X)).eval (X i)⁻¹) = -e i := by
  have h0 := hX.ne_zero i hi
  have hM : (locator (s.erase i) X).eval (X i)⁻¹ ≠ 0 := by
    refine eval_locator_ne_zero (fun j hj h => ?_) h0
    exact Finset.ne_of_mem_erase hj (hX.injOn (Finset.mem_of_mem_erase hj) hi h)
  have hderiv : (derivative (locator s X)).eval (X i)⁻¹ = -X i * (locator (s.erase i) X).eval (X i)⁻¹ := by
    rw [locator_eq_mul_erase hi, derivative_mul]
    simp [h0]
  have heval : (evaluator s X e).eval (X i)⁻¹ = e i * (locator (s.erase i) X).eval (X i)⁻¹ := by
    rw [evaluator, eval_finsetSum, Finset.sum_eq_single i]
    · rw [eval_mul, eval_C]
    · intro j hj hji
      rw [eval_mul, eval_locator_eq_zero (Finset.mem_erase.2 ⟨Ne.symm hji, hi⟩) h0, mul_zero]
    · exact fun h => absurd hi h
  rw [hderiv, heval]
  refine ⟨mul_ne_zero (neg_ne_zero.2 h0) hM, ?_⟩
  rw [mul_div_mul_right _ _ hM, div_neg, mul_neg, mul_div_cancel₀ _ h0]

end ErrorLocator
