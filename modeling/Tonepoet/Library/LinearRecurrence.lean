import Mathlib.RingTheory.PowerSeries.Basic

/-!
# Shortest linear recurrences

A sequence over a field is a power series `S`. A polynomial `C` with constant term one generates the
first `n` terms of `S` with length `L` when `C` has degree at most `L` and the coefficients of `C * S`
from `L` to `n` vanish. `Massey.run` is the Berlekamp–Massey recursion; after `n` terms it holds a
polynomial that generates them, of the least length that any can have.
-/

namespace LinearRecurrence

open Polynomial

variable {K : Type*} [Field K]

/-- `C` is a connection polynomial of length `L` for the first `n` terms of `S`. -/
structure Generates (S : PowerSeries K) (C : K[X]) (L n : ℕ) : Prop where
  const : C.coeff 0 = 1
  degree : C.natDegree ≤ L
  vanish : ∀ k, L ≤ k → k < n → PowerSeries.coeff k ((C : PowerSeries K) * S) = 0

theorem Generates.mono {S : PowerSeries K} {C : K[X]} {L n k : ℕ} (h : Generates S C L n) (hk : k ≤ n) :
    Generates S C L k := ⟨h.const, h.degree, fun j hL hj => h.vanish j hL (by omega)⟩

/-- A coefficient of a product reads the lower coefficients only. -/
theorem coeff_mul_congr {A S T : PowerSeries K} {n : ℕ} (h : ∀ k ≤ n, PowerSeries.coeff k S = PowerSeries.coeff k T) :
    PowerSeries.coeff n (A * S) = PowerSeries.coeff n (A * T) := by
  rw [PowerSeries.coeff_mul, PowerSeries.coeff_mul]
  refine Finset.sum_congr rfl fun p hp => ?_
  rw [h p.2 (by have := Finset.HasAntidiagonal.mem_antidiagonal.1 hp; omega)]

theorem Generates.congr {S T : PowerSeries K} {C : K[X]} {L n : ℕ} (h : Generates S C L n)
    (hST : ∀ k < n, PowerSeries.coeff k S = PowerSeries.coeff k T) : Generates T C L n := by
  refine ⟨h.const, h.degree, fun k hL hk => ?_⟩
  rw [← coeff_mul_congr fun j hj => hST j (by omega)]
  exact h.vanish k hL hk

/-- **A recurrence that fails on a term forces length.** Where `C` generates `n` terms and not the next,
whatever generates that one too is at least `n + 1 - L` long. -/
theorem Generates.length_of_discrepancy {S : PowerSeries K} {C D : K[X]} {L M n : ℕ} (hC : Generates S C L n)
    (hd : PowerSeries.coeff n ((C : PowerSeries K) * S) ≠ 0) (hD : Generates S D M (n + 1)) : n + 1 ≤ L + M := by
  by_contra hlt
  apply hd
  -- The coefficient of `D * C * S` at `n`, computed through `C * S` and through `D * S`.
  have hDC : PowerSeries.coeff n ((D : PowerSeries K) * ((C : PowerSeries K) * S)) =
      PowerSeries.coeff n ((C : PowerSeries K) * S) := by
    rw [PowerSeries.coeff_mul, Finset.sum_eq_single (0, n)]
    · rw [Polynomial.coeff_coe, hD.const, one_mul]
    · intro p hp hne
      have hp := Finset.HasAntidiagonal.mem_antidiagonal.1 hp
      by_cases hM : p.1 ≤ M
      · have hpos : p.1 ≠ 0 := fun h0 => hne (Prod.ext h0 (by simp only; omega))
        rw [hC.vanish p.2 (by omega) (by omega), mul_zero]
      · rw [Polynomial.coeff_coe, coeff_eq_zero_of_natDegree_lt (by have := hD.degree; omega), zero_mul]
    · simp
  have hCD : PowerSeries.coeff n ((C : PowerSeries K) * ((D : PowerSeries K) * S)) = 0 := by
    rw [PowerSeries.coeff_mul]
    refine Finset.sum_eq_zero fun p hp => ?_
    have hp := Finset.HasAntidiagonal.mem_antidiagonal.1 hp
    by_cases hL : p.1 ≤ L
    · rw [hD.vanish p.2 (by omega) (by omega), mul_zero]
    · rw [Polynomial.coeff_coe, coeff_eq_zero_of_natDegree_lt (by have := hC.degree; omega), zero_mul]
  rw [← hDC, ← hCD, mul_left_comm]

/-! ## The Berlekamp–Massey recursion -/

namespace Massey

/-- The current polynomial `c` and its length, and the polynomial `b` before the last change of length
with its discrepancy and its age. -/
structure State (K : Type*) [Field K] where
  c : K[X]
  b : K[X]
  length : ℕ
  age : ℕ
  last : K

variable (S : PowerSeries K)

noncomputable def start : State K where
  c := 1
  b := 1
  length := 0
  age := 1
  last := 1

noncomputable def discrepancy (s : State K) (n : ℕ) : K := PowerSeries.coeff n ((s.c : PowerSeries K) * S)

noncomputable def correct (s : State K) (d : K) : K[X] := s.c - C (d / s.last) * (X ^ s.age * s.b)

open Classical in
/-- One term of the sequence. -/
noncomputable def step (s : State K) (n : ℕ) : State K :=
  let d := discrepancy S s n
  if d = 0 then { s with age := s.age + 1 }
  else if 2 * s.length ≤ n then
    { c := correct s d, b := s.c, length := n + 1 - s.length, age := 1, last := d }
  else { s with c := correct s d, age := s.age + 1 }

/-- What the polynomial before the last change of length is known by: at first nothing was changed and
all terms were zero; later it generates up to its own discrepancy. -/
def Aux (s : State K) (n : ℕ) : Prop :=
  (s.length = 0 ∧ s.c = 1 ∧ s.b = 1 ∧ s.last = 1 ∧ s.age = n + 1) ∨
    ∃ M, s.b.natDegree ≤ M ∧ s.age ≤ n ∧ M + s.length + s.age = n + 1 ∧
      (∀ k, M ≤ k → k < n - s.age → PowerSeries.coeff k ((s.b : PowerSeries K) * S) = 0) ∧
      PowerSeries.coeff (n - s.age) ((s.b : PowerSeries K) * S) = s.last

/-- The invariant after `n` terms. -/
structure Inv (s : State K) (n : ℕ) : Prop where
  generates : Generates S s.c s.length n
  minimal : ∀ D M, Generates S D M n → s.length ≤ M
  length_le : s.length ≤ n
  last_ne : s.last ≠ 0
  age_pos : 0 < s.age
  aux : Aux S s n

variable {S}

theorem inv_start : Inv S start 0 where
  generates := ⟨by simp [start], by simp [start], fun k _ hk => absurd hk (Nat.not_lt_zero k)⟩
  minimal := fun _ _ _ => Nat.zero_le _
  length_le := le_rfl
  last_ne := one_ne_zero
  age_pos := Nat.one_pos
  aux := .inl ⟨rfl, rfl, rfl, rfl, rfl⟩

/-- The shifted old polynomial fits below the next term. -/
theorem Inv.degree_b {s : State K} {n : ℕ} (h : Inv S s n) : s.age + s.b.natDegree ≤ n + 1 - s.length := by
  rcases h.aux with ⟨hL, -, hb, -, hage⟩ | ⟨M, hM, -, hsum, -, -⟩
  · rw [hb, hL, hage]
    simp
  · omega

theorem coeff_correct_mul (s : State K) (d : K) (k : ℕ) :
    PowerSeries.coeff k ((correct s d : PowerSeries K) * S) = PowerSeries.coeff k ((s.c : PowerSeries K) * S) -
      d / s.last * if s.age ≤ k then PowerSeries.coeff (k - s.age) ((s.b : PowerSeries K) * S) else 0 := by
  have h : ((correct s d : K[X]) : PowerSeries K) * S =
      (s.c : PowerSeries K) * S - PowerSeries.C (d / s.last) * (PowerSeries.X ^ s.age * ((s.b : PowerSeries K) * S)) := by
    rw [correct, Polynomial.coe_sub, Polynomial.coe_mul, Polynomial.coe_mul, Polynomial.coe_C, Polynomial.coe_pow,
      Polynomial.coe_X]
    ring
  rw [h, map_sub, PowerSeries.coeff_C_mul, PowerSeries.coeff_X_pow_mul']

/-- The corrected polynomial generates one term more, at the larger of the two lengths. -/
theorem Inv.generates_correct {s : State K} {n : ℕ} (h : Inv S s n) :
    Generates S (correct s (discrepancy S s n)) (max s.length (n + 1 - s.length)) (n + 1) := by
  have hage := h.age_pos
  have hlen := h.length_le
  refine ⟨?_, ?_, ?_⟩
  · rw [correct, coeff_sub, coeff_C_mul, coeff_X_pow_mul', if_neg (by omega), mul_zero, sub_zero, h.generates.const]
  · have hb := h.degree_b
    have hc := h.generates.degree
    refine (natDegree_sub_le _ _).trans (max_le_max hc ?_)
    refine (natDegree_C_mul_le _ _).trans (natDegree_mul_le.trans ?_)
    rw [natDegree_X_pow]
    exact hb
  · intro k hk hkn
    rw [coeff_correct_mul]
    rcases h.aux with ⟨hL, hc, hb, hlast, hage'⟩ | ⟨M, hM, hagen, hsum, hzero, hval⟩
    · omega
    · rw [if_pos (by omega)]
      rcases Nat.lt_succ_iff_lt_or_eq.1 hkn with hlt | rfl
      · rw [h.generates.vanish k (by omega) hlt, hzero (k - s.age) (by omega) (by omega), mul_zero, sub_zero]
      · rw [hval, div_mul_cancel₀ _ h.last_ne]
        exact sub_self _

/-- No shorter polynomial generates one term more. -/
theorem Inv.minimal_succ {s : State K} {n : ℕ} (h : Inv S s n) (hd : discrepancy S s n ≠ 0) (D : K[X]) (M : ℕ)
    (hD : Generates S D M (n + 1)) : max s.length (n + 1 - s.length) ≤ M := by
  have hlen := h.generates.length_of_discrepancy hd hD
  have hmin := h.minimal D M (hD.mono (Nat.le_succ n))
  omega

theorem Inv.step {s : State K} {n : ℕ} (h : Inv S s n) : Inv S (step S s n) (n + 1) := by
  have hlen := h.length_le
  have hage := h.age_pos
  by_cases hd : discrepancy S s n = 0
  · have hstep : Massey.step S s n = { s with age := s.age + 1 } := by rw [Massey.step, if_pos hd]
    rw [hstep]
    refine ⟨⟨h.generates.const, h.generates.degree, ?_⟩, ?_, Nat.le_succ_of_le hlen, h.last_ne, Nat.succ_pos _, ?_⟩
    · intro k hk hkn
      rcases Nat.lt_succ_iff_lt_or_eq.1 hkn with hlt | rfl
      · exact h.generates.vanish k hk hlt
      · exact hd
    · intro D M hD
      exact h.minimal D M (hD.mono (Nat.le_succ n))
    · rcases h.aux with ⟨hL, hc, hb, hlast, hage'⟩ | ⟨M, hM, hagen, hsum, hzero, hval⟩
      · exact .inl ⟨hL, hc, hb, hlast, congrArg (· + 1) hage'⟩
      · refine .inr ⟨M, hM, Nat.succ_le_succ hagen, ?_, ?_, ?_⟩
        · simp only
          omega
        · simpa only [Nat.add_sub_add_right] using hzero
        · simpa only [Nat.add_sub_add_right] using hval
  · by_cases hlong : 2 * s.length ≤ n
    · have hstep : Massey.step S s n =
          ⟨correct s (discrepancy S s n), s.c, n + 1 - s.length, 1, discrepancy S s n⟩ := by
        rw [Massey.step, if_neg hd, if_pos hlong]
      have hmax : max s.length (n + 1 - s.length) = n + 1 - s.length := by omega
      rw [hstep]
      refine ⟨hmax ▸ h.generates_correct, hmax ▸ h.minimal_succ hd, Nat.sub_le _ _, hd, Nat.one_pos, .inr ?_⟩
      refine ⟨s.length, h.generates.degree, Nat.le_add_left _ _, by simp only; omega, ?_, rfl⟩
      intro k hk hkn
      exact h.generates.vanish k hk (by simpa using hkn)
    · have hstep : Massey.step S s n = { s with c := correct s (discrepancy S s n), age := s.age + 1 } := by
        rw [Massey.step, if_neg hd, if_neg hlong]
      have hmax : max s.length (n + 1 - s.length) = s.length := by omega
      rw [hstep]
      refine ⟨hmax ▸ h.generates_correct, hmax ▸ h.minimal_succ hd, Nat.le_succ_of_le hlen, h.last_ne, Nat.succ_pos _, ?_⟩
      rcases h.aux with ⟨hL, -, -, -, -⟩ | ⟨M, hM, hagen, hsum, hzero, hval⟩
      · omega
      · refine .inr ⟨M, hM, Nat.succ_le_succ hagen, ?_, ?_, ?_⟩
        · simp only
          omega
        · simpa only [Nat.add_sub_add_right] using hzero
        · simpa only [Nat.add_sub_add_right] using hval

/-- The recursion over the first `n` terms. -/
noncomputable def run (S : PowerSeries K) : ℕ → State K
  | 0 => start
  | n + 1 => step S (run S n) n

/-- **Berlekamp–Massey is correct.** After `n` terms the recursion holds a shortest recurrence for them. -/
theorem inv_run (S : PowerSeries K) (n : ℕ) : Inv S (run S n) n := by
  induction n with
  | zero => exact inv_start
  | succ n ih => exact ih.step

end Massey

end LinearRecurrence
