import Tonepoet.Ctdb.Decoder
import Tonepoet.Library.ErrorLocator

/-!
# What the loops of the decoder compute

The loops of the decoder are read as operations on polynomials over the field: Berlekamp–Massey as the
recursion of the library, the Chien search as the search for the roots of its polynomial, and Forney's
formula as the quotient at a root.
-/

namespace Ctdb

open Polynomial Rust LinearRecurrence ErrorLocator

variable (gf : Galois16)

/-! ## Words as polynomials and series -/

/-- The polynomial with the words as coefficients, the constant term first. -/
noncomputable def polyOf (ws : List UInt16) : GF[X] := ∑ i ∈ Finset.range ws.length, C (toGF (ws.getD i 0)) * X ^ i

/-- The series that starts with the words. -/
noncomputable def seriesOf (ws : List UInt16) : PowerSeries GF := PowerSeries.mk fun k => toGF (ws.getD k 0)

theorem getD_of_length_le {ws : List UInt16} {k : ℕ} (h : ws.length ≤ k) : ws.getD k 0 = 0 := by
  rw [List.getD_eq_getElem?_getD, List.getElem?_eq_none h, Option.getD_none]

@[simp] theorem coeff_polyOf (ws : List UInt16) (k : ℕ) : (polyOf ws).coeff k = toGF (ws.getD k 0) := by
  rw [polyOf, finsetSum_coeff]
  simp only [coeff_C_mul_X_pow]
  by_cases hk : k < ws.length
  · rw [Finset.sum_eq_single k (fun i _ hi => if_neg (Ne.symm hi)) (fun h => absurd (Finset.mem_range.2 hk) h), if_pos rfl]
  · rw [getD_of_length_le (by omega), toGF_zero]
    refine Finset.sum_eq_zero fun i hi => if_neg ?_
    have := Finset.mem_range.1 hi
    omega

@[simp] theorem coeff_seriesOf (ws : List UInt16) (k : ℕ) : PowerSeries.coeff k (seriesOf ws) = toGF (ws.getD k 0) :=
  PowerSeries.coeff_mk k _

theorem natDegree_polyOf_lt {ws : List UInt16} (h : 0 < ws.length) : (polyOf ws).natDegree < ws.length := by
  by_contra hlt
  have hle : ws.length ≤ (polyOf ws).natDegree := by omega
  have hzero : polyOf ws = 0 := by
    rw [← leadingCoeff_eq_zero, leadingCoeff, coeff_polyOf, getD_of_length_le hle, toGF_zero]
  rw [hzero, natDegree_zero] at hle
  omega

theorem toGF_xor_if (p : Prop) [Decidable p] (out a : UInt16) (hp : ¬ p → toGF a = 0) :
    toGF (if p then out ^^^ a else out) = toGF out + toGF a := by
  by_cases h : p
  · rw [if_pos h, toGF_xor]
  · rw [if_neg h, hp h, add_zero]

theorem toGF_foldl_xor {α : Type} (p : α → Prop) [DecidablePred p] (g : α → UInt16) (hp : ∀ a, ¬ p a → toGF (g a) = 0) :
    ∀ (xs : List α) (out : UInt16), toGF (xs.foldl (fun out a => if p a then out ^^^ g a else out) out) =
      toGF out + (xs.map fun a => toGF (g a)).sum
  | [], out => by simp
  | a :: xs, out => by
    rw [List.foldl_cons, toGF_foldl_xor p g hp xs, List.map_cons, List.sum_cons, ← add_assoc, toGF_xor_if _ _ _ (hp a)]

theorem sum_map_range {M : Type} [AddCommMonoid M] (f : ℕ → M) (n : ℕ) :
    ((List.range n).map f).sum = ∑ i ∈ Finset.range n, f i := by
  induction n with
  | zero => rfl
  | succ n ih => rw [List.range_succ, List.map_append, List.sum_append, ih, Finset.sum_range_succ, List.map_singleton,
      List.sum_singleton]

theorem sum_map_zipIdx (ws : List UInt16) (f : UInt16 → ℕ → GF) :
    (ws.zipIdx.map fun p => f p.1 p.2).sum = ∑ i ∈ Finset.range ws.length, f (ws.getD i 0) i := by
  rw [← sum_map_range]
  congr 1
  apply List.ext_getElem
  · simp
  · intro i hi hi'
    have hlt : i < ws.length := by simpa using hi'
    simp [List.getElem?_eq_getElem hlt]

/-- `xs[i] ^= a`, where the condition only skips a zero. -/
theorem set_xor_if (p : Prop) [Decidable p] (xs : List UInt16) (i : ℕ) (a : UInt16) (hp : ¬ p → toGF a = 0) :
    (if p then xs.set i (xs.getD i 0 ^^^ a) else xs).length = xs.length ∧ ∀ k < xs.length,
      toGF ((if p then xs.set i (xs.getD i 0 ^^^ a) else xs).getD k 0) = toGF (xs.getD k 0) + if k = i then toGF a else 0 := by
  by_cases h : p
  · simp only [if_pos h]
    refine ⟨List.length_set, fun k hk => ?_⟩
    by_cases hki : k = i
    · subst hki
      rw [if_pos rfl, List.getD_eq_getElem?_getD, List.getElem?_set_self hk, Option.getD_some, toGF_xor]
    · rw [if_neg hki, add_zero, List.getD_eq_getElem?_getD, List.getElem?_set_ne (Ne.symm hki), ← List.getD_eq_getElem?_getD]
  · simp only [if_neg h]
    refine ⟨trivial, fun k _ => ?_⟩
    rw [hp h, ite_self, add_zero]

/-- `xs[m + j] ^= g(j)` for `j` below `n`. -/
theorem foldl_set_xor (p : ℕ → Prop) [DecidablePred p] (g : ℕ → UInt16) (hp : ∀ j, ¬ p j → toGF (g j) = 0) (m : ℕ)
    (xs : List UInt16) : ∀ (n : ℕ) (ys : List UInt16),
    (List.range n).foldl (fun xs j => if p j then xs.set (m + j) (xs.getD (m + j) 0 ^^^ g j) else xs) xs = ys →
    ys.length = xs.length ∧ ∀ k < xs.length, toGF (ys.getD k 0) =
      toGF (xs.getD k 0) + if m ≤ k ∧ k < m + n then toGF (g (k - m)) else 0
  | 0, ys, h => by
    subst h
    refine ⟨rfl, fun k _ => ?_⟩
    rw [if_neg (by omega), add_zero, List.range_zero, List.foldl_nil]
  | n + 1, ys, h => by
    rw [List.range_succ, List.foldl_append, List.foldl_cons, List.foldl_nil] at h
    obtain ⟨zs, hzs⟩ : ∃ zs, (List.range n).foldl
      (fun xs j => if p j then xs.set (m + j) (xs.getD (m + j) 0 ^^^ g j) else xs) xs = zs := ⟨_, rfl⟩
    rw [hzs] at h
    subst h
    obtain ⟨hlen, hget⟩ := foldl_set_xor p g hp m xs n zs hzs
    obtain ⟨hlen', hget'⟩ := set_xor_if (p n) zs (m + n) (g n) (hp n)
    refine ⟨hlen'.trans hlen, fun k hk => ?_⟩
    rw [hget' k (hlen ▸ hk), hget k hk, add_assoc]
    congr 1
    by_cases hkn : k = m + n
    · rw [if_neg (by omega), if_pos hkn, if_pos (by omega), hkn, Nat.add_sub_cancel_left, zero_add]
    · rw [if_neg hkn, add_zero]
      by_cases hm : m ≤ k ∧ k < m + n
      · rw [if_pos hm, if_pos ⟨hm.1, by omega⟩]
      · rw [if_neg hm, if_neg (by omega)]

theorem allZero_take {ws : List UInt16} {n : ℕ} (hn : n ≤ ws.length) :
    allZero (ws.take n) = true ↔ ∀ k < n, ws.getD k 0 = 0 := by
  rw [allZero, List.all_eq_true]
  constructor
  · intro h k hk
    have hlt : k < ws.length := by omega
    have := h ws[k] (List.mem_take_iff_getElem.2 ⟨k, by omega, rfl⟩)
    rw [List.getD_eq_getElem _ _ hlt]
    simpa using this
  · intro h w hw
    obtain ⟨k, hk, rfl⟩ := List.mem_take_iff_getElem.1 hw
    have := h k (by omega)
    rw [List.getD_eq_getElem _ _ (by omega)] at this
    simpa using this

/-! ## Berlekamp–Massey -/

/-- The variables of the loop as a state of the recursion. -/
structure Simulates (npar : ℕ) (st : BerlekampMassey) (s : Massey.State GF) : Prop where
  c : polyOf st.c = s.c
  b : polyOf st.b = s.b
  degree : st.degree = s.length
  m : st.m = s.age
  last : toGF st.lastDiscrepancy = s.last
  length_c : st.c.length = npar + 1

theorem polyOf_one (n : ℕ) : polyOf (1 :: List.replicate n 0) = 1 := by
  ext k
  rw [coeff_polyOf, coeff_one]
  cases k with
  | zero => simp
  | succ k =>
    rw [if_neg (Nat.succ_ne_zero k), List.getD_cons_succ]
    by_cases hk : k < n
    · rw [List.getD_eq_getElem _ _ (by simpa using hk), List.getElem_replicate, toGF_zero]
    · rw [getD_of_length_le (by simpa using hk), toGF_zero]

theorem simulates_init (npar : ℕ) : Simulates npar (BerlekampMassey.init npar) Massey.start where
  c := polyOf_one npar
  b := polyOf_one npar
  degree := rfl
  m := rfl
  last := toGF_one
  length_c := by simp [BerlekampMassey.init]

variable {npar n : ℕ} {st : BerlekampMassey} {s : Massey.State GF} {syndromes : List UInt16}

theorem Simulates.coeff_c (h : Simulates npar st s) (k : ℕ) : toGF (st.c.getD k 0) = s.c.coeff k := by
  rw [← h.c, coeff_polyOf]

theorem Simulates.coeff_b (h : Simulates npar st s) (k : ℕ) : toGF (st.b.getD k 0) = s.b.coeff k := by
  rw [← h.b, coeff_polyOf]

theorem Simulates.discrepancy (h : Simulates npar st s) (hinv : Massey.Inv (seriesOf syndromes) s n) :
    toGF (st.discrepancy gf syndromes n) = Massey.discrepancy (seriesOf syndromes) s n := by
  have hterm : ∀ i, ¬ (st.c.getD i 0 ≠ 0 ∧ syndromes.getD (n - i) 0 ≠ 0) →
      toGF (gf.mul (st.c.getD i 0) (syndromes.getD (n - i) 0)) = 0 := by
    intro i hi
    rw [Galois16.toGF_mul]
    rcases not_and_or.1 hi with hc | hs
    · rw [not_not.1 hc, toGF_zero, zero_mul]
    · rw [not_not.1 hs, toGF_zero, mul_zero]
  have hrange : List.range' 1 (min st.degree n) = (List.range (min st.degree n)).map (· + 1) := by
    rw [List.range'_eq_map_range]
    exact List.map_congr_left fun i _ => Nat.add_comm 1 i
  rw [BerlekampMassey.discrepancy, toGF_foldl_xor _ _ hterm, hrange, List.map_map, sum_map_range, Massey.discrepancy,
    PowerSeries.coeff_mul, Finset.Nat.sum_antidiagonal_eq_sum_range_succ fun a b =>
      PowerSeries.coeff a (s.c : PowerSeries GF) * PowerSeries.coeff b (seriesOf syndromes), Finset.sum_range_succ']
  simp only [Polynomial.coeff_coe, coeff_seriesOf]
  rw [hinv.generates.const, one_mul, Nat.sub_zero, add_comm]
  congr 1
  rw [← Finset.sum_subset (Finset.range_mono (show min st.degree n ≤ n from min_le_right _ _))]
  · refine Finset.sum_congr rfl fun i _ => ?_
    rw [Function.comp_apply, Galois16.toGF_mul, h.coeff_c]
  · intro i hi hi'
    have hdeg := hinv.generates.degree
    have hlen := h.degree
    have hi := Finset.mem_range.1 hi
    have hi' := mt Finset.mem_range.2 hi'
    rw [coeff_eq_zero_of_natDegree_lt (by omega), zero_mul]

theorem Simulates.addShifted (h : Simulates npar st s) (hinv : Massey.Inv (seriesOf syndromes) s n) (hn : n < npar)
    {scale : UInt16} (hscale : toGF scale = Massey.discrepancy (seriesOf syndromes) s n / s.last) :
    (st.addShifted gf npar scale).length = npar + 1 ∧
      polyOf (st.addShifted gf npar scale) = Massey.correct s (Massey.discrepancy (seriesOf syndromes) s n) := by
  have hm := h.m
  have hfit := hinv.degree_b
  have hskip : ∀ j, ¬ st.b.getD j 0 ≠ 0 → toGF (gf.mul scale (st.b.getD j 0)) = 0 := by
    intro j hj
    rw [not_not.1 hj, Galois16.toGF_mul, toGF_zero, mul_zero]
  obtain ⟨ys, hys⟩ : ∃ ys, st.addShifted gf npar scale = ys := ⟨_, rfl⟩
  have hfold := hys
  rw [BerlekampMassey.addShifted, if_pos (by omega)] at hfold
  simp only [Nat.add_comm _ st.m] at hfold
  obtain ⟨hlen, hget⟩ := foldl_set_xor _ _ hskip st.m st.c _ ys hfold
  rw [hys]
  refine ⟨hlen.trans h.length_c, ?_⟩
  ext k
  rw [coeff_polyOf, Massey.correct, coeff_sub, coeff_C_mul, coeff_X_pow_mul', CharTwo.sub_eq_add]
  by_cases hk : k < npar + 1
  · rw [hget k (by rw [h.length_c]; exact hk), h.coeff_c, ← hm]
    congr 1
    by_cases hmk : st.m ≤ k
    · rw [if_pos ⟨hmk, by omega⟩, if_pos hmk, Galois16.toGF_mul, hscale, h.coeff_b]
    · rw [if_neg (fun hh => hmk hh.1), if_neg hmk, mul_zero]
  · have hdeg := hinv.generates.degree
    have hlen' := hinv.length_le
    rw [getD_of_length_le (by rw [hlen, h.length_c]; omega), toGF_zero, coeff_eq_zero_of_natDegree_lt (by omega), zero_add]
    by_cases hmk : s.age ≤ k
    · rw [if_pos hmk, coeff_eq_zero_of_natDegree_lt (by omega), mul_zero]
    · rw [if_neg hmk, mul_zero]

theorem Simulates.step (h : Simulates npar st s) (hinv : Massey.Inv (seriesOf syndromes) s n) (hn : n < npar) :
    Simulates npar (st.step gf syndromes npar n) (Massey.step (seriesOf syndromes) s n) := by
  have hd := h.discrepancy gf hinv
  by_cases hzero : st.discrepancy gf syndromes n = 0
  · rw [BerlekampMassey.step, dif_pos hzero, Massey.step, if_pos (by rw [← hd, hzero, toGF_zero])]
    exact ⟨h.c, h.b, h.degree, congrArg (· + 1) h.m, h.last, h.length_c⟩
  · have hscale : toGF (gf.div (st.discrepancy gf syndromes n) st.lastDiscrepancy st.ne_zero) =
        Massey.discrepancy (seriesOf syndromes) s n / s.last := by rw [Galois16.toGF_div, hd, h.last]
    obtain ⟨hlen, hpoly⟩ := h.addShifted gf hinv hn hscale
    have hne : Massey.discrepancy (seriesOf syndromes) s n ≠ 0 := by rwa [← hd, Ne, toGF_eq_zero]
    rw [BerlekampMassey.step, dif_neg hzero, Massey.step, if_neg hne]
    by_cases hlong : 2 * s.length ≤ n
    · rw [if_pos (by rw [h.degree]; exact hlong), if_pos hlong]
      exact ⟨hpoly, h.c, by rw [h.degree], rfl, hd, hlen⟩
    · rw [if_neg (by rw [h.degree]; exact hlong), if_neg hlong]
      exact ⟨hpoly, h.b, h.degree, congrArg (· + 1) h.m, h.last, hlen⟩

theorem simulates_run (syndromes : List UInt16) : ∀ n ≤ npar,
    Simulates npar ((List.range n).foldl (BerlekampMassey.step gf syndromes npar) (BerlekampMassey.init npar))
      (Massey.run (seriesOf syndromes) n)
  | 0, _ => simulates_init npar
  | n + 1, hn => by
    rw [List.range_succ, List.foldl_append]
    exact (simulates_run syndromes n (by omega)).step gf (Massey.inv_run _ n) (by omega)

theorem rpositionNonzero_spec {c : List UInt16} (h : polyOf c ≠ 0) : rpositionNonzero c = some (polyOf c).natDegree := by
  have hpos : 0 < c.length := by
    rcases c with _ | ⟨w, ws⟩
    · exact absurd (by simp [polyOf]) h
    · simp
  have hlt := natDegree_polyOf_lt hpos
  have hlead : c.getD (polyOf c).natDegree 0 ≠ 0 := by
    rw [Ne, ← toGF_eq_zero, ← coeff_polyOf, ← leadingCoeff, leadingCoeff_eq_zero]
    exact h
  rw [rpositionNonzero, List.find?_eq_some_iff_getElem]
  refine ⟨by simpa using hlead, c.length - 1 - (polyOf c).natDegree, by simp; omega, ?_, ?_⟩
  · simp
    omega
  · intro j hj
    have hj' : j < c.length := by omega
    have hzero : (polyOf c).coeff (c.length - 1 - j) = 0 := coeff_eq_zero_of_natDegree_lt (by omega)
    rw [coeff_polyOf, toGF_eq_zero] at hzero
    simpa using hzero

/-- **`berlekamp_massey` runs the recursion.** Its polynomial is the recursion's and its degree is exact. -/
theorem berlekampMassey_spec (hlen : npar ≤ syndromes.length) (hnz : allZero (syndromes.take npar) ≠ true) :
    ∃ sigma, berlekampMassey gf syndromes npar = some (sigma, (Massey.run (seriesOf syndromes) npar).c.natDegree) ∧
      polyOf sigma = (Massey.run (seriesOf syndromes) npar).c ∧
      sigma.length = (Massey.run (seriesOf syndromes) npar).c.natDegree + 1 := by
  have hsim := simulates_run gf syndromes npar le_rfl
  obtain ⟨st, hst⟩ : ∃ st, (List.range npar).foldl (BerlekampMassey.step gf syndromes npar) (BerlekampMassey.init npar) = st :=
    ⟨_, rfl⟩
  rw [hst] at hsim
  have hne : polyOf st.c ≠ 0 := by
    intro h
    have hconst := (Massey.inv_run (seriesOf syndromes) npar).generates.const
    rw [← hsim.c, h, coeff_zero] at hconst
    exact zero_ne_one hconst
  have hdeg : (polyOf st.c).natDegree < st.c.length := natDegree_polyOf_lt (by rw [hsim.length_c]; omega)
  refine ⟨st.c.take ((polyOf st.c).natDegree + 1), ?_, ?_, ?_⟩
  · rw [berlekampMassey, if_neg (by omega), if_neg hnz, hst, ← hsim.c]
    simp only [rpositionNonzero_spec hne, Option.getD_some]
  · rw [← hsim.c]
    ext k
    rw [coeff_polyOf, coeff_polyOf]
    by_cases hk : k < (polyOf st.c).natDegree + 1
    · rw [List.getD_eq_getElem?_getD, List.getElem?_take_of_lt hk, ← List.getD_eq_getElem?_getD]
    · rw [getD_of_length_le (by rw [List.length_take]; omega), toGF_zero, ← coeff_polyOf,
        coeff_eq_zero_of_natDegree_lt (by omega)]
  · rw [List.length_take, ← hsim.c]
    omega

/-! ## Chien search -/


@[simp] theorem toGF_evalPoly (poly : List UInt16) (e : ℕ) :
    toGF (evalPolyAtAlphaExp gf poly e) = (polyOf poly).eval (alpha ^ e) := by
  have hskip : ∀ p : UInt16 × ℕ, ¬ p.1 ≠ 0 → toGF (gf.mulExp p.1 (e * p.2 % galoisMax)) = 0 := by
    intro p hp
    rw [not_not.1 hp, Galois16.toGF_mulExp, toGF_zero, zero_mul]
  have hfold := toGF_foldl_xor (fun p : UInt16 × ℕ => p.1 ≠ 0) _ hskip poly.zipIdx 0
  rw [toGF_zero, zero_add] at hfold
  refine hfold.trans ?_
  rw [sum_map_zipIdx poly fun a i => toGF (gf.mulExp a (e * i % galoisMax)), polyOf, eval_finsetSum]
  refine Finset.sum_congr rfl fun i _ => ?_
  rw [Galois16.toGF_mulExp, alpha_pow_mod, pow_mul, eval_mul, eval_C, eval_pow, eval_X]

theorem alpha_pow_inverseExp (e : ℕ) : alpha ^ inverseExp e = (alpha ^ e)⁻¹ := by
  have hmod := Galois16.mod_galoisMax_lt e
  rw [inverseExp, alpha_pow_mod]
  apply eq_inv_of_mul_eq_one_left
  rw [← alpha_pow_mod e, ← pow_add, Nat.sub_add_cancel hmod.le, alpha_pow_galoisMax]

/-- The locator of a row. -/
noncomputable def rowLocator (stridecount row : ℕ) : GF := alpha ^ (stridecount - 1 - row)

theorem located_rows {stridecount : ℕ} (hmax : stridecount ≤ galoisMax) {s : Finset ℕ} (hs : ∀ r ∈ s, r < stridecount) :
    Located s (rowLocator stridecount) := by
  refine ⟨fun i hi j hj h => ?_, fun i _ => alpha_pow_ne_zero _⟩
  have hi' := hs i hi
  have hj' := hs j hj
  have := alpha_pow_injOn (by omega) (by omega) h
  omega

open Classical in
/-- The rows whose inverse locator is a root. -/
noncomputable def rootRows (sigma : List UInt16) (stridecount : ℕ) : List ℕ :=
  (List.range stridecount).filter fun row => (polyOf sigma).eval (rowLocator stridecount row)⁻¹ = 0

/-- The loop that collects rows and gives up past the limit. -/
theorem foldlM_collect (p : ℕ → Prop) [DecidablePred p] (f : ℕ → ℕ) (limit : ℕ) : ∀ (xs rows : List ℕ),
    rows.length ≤ limit →
    xs.foldlM (fun rows e => if p e then (if (rows ++ [f e]).length > limit then none else some (rows ++ [f e])) else some rows)
      rows = if (rows ++ (xs.filter p).map f).length ≤ limit then some (rows ++ (xs.filter p).map f) else none
  | [], rows, h => by simpa using h
  | x :: xs, rows, h => by
    rw [List.foldlM_cons]
    by_cases hx : p x
    · by_cases hlen : (rows ++ [f x]).length > limit
      · have hlong : ¬ (rows ++ ((x :: xs).filter p).map f).length ≤ limit := by
          simp [hx] at hlen ⊢
          omega
        rw [if_pos hx, if_pos hlen, if_neg hlong]
        rfl
      · rw [if_pos hx, if_neg hlen, some_bind, foldlM_collect p f limit xs _ (by omega)]
        simp [hx]
    · rw [if_neg hx, some_bind, foldlM_collect p f limit xs rows h]
      simp [hx]

theorem mergeSort_reverse {xs : List ℕ} (h : xs.Pairwise (· ≤ ·)) : xs.reverse.mergeSort (· ≤ ·) = xs := by
  refine List.Perm.eq_of_pairwise (fun a b _ _ (hab : a ≤ b) => Nat.le_antisymm hab) ?_ h
    ((List.mergeSort_perm _ _).trans (List.reverse_perm xs))
  simpa using @List.pairwise_mergeSort _ (fun a b : ℕ => decide (a ≤ b)) (by simpa using fun a b c => Nat.le_trans)
    (by simpa using Nat.le_total) xs.reverse

/-- **Chien search finds the root rows**, in increasing order, when there are as many as errors. -/
theorem chienSearch_eq {sigma : List UInt16} {errorCount stridecount : ℕ} (hpos : errorCount ≠ 0) (hn : stridecount ≠ 0)
    (hmax : stridecount ≤ galoisMax) : chienSearch gf sigma errorCount stridecount =
      if (rootRows sigma stridecount).length = errorCount then some (rootRows sigma stridecount) else none := by
  classical
  have hroot : ∀ e < stridecount, (evalPolyAtAlphaExp gf sigma (inverseExp e) = 0 ↔
      (polyOf sigma).eval (rowLocator stridecount (stridecount - 1 - e))⁻¹ = 0) := by
    intro e he
    rw [← toGF_eq_zero, toGF_evalPoly, alpha_pow_inverseExp, rowLocator, show stridecount - 1 - (stridecount - 1 - e) = e by omega]
  have hrows : ((List.range stridecount).filter fun e => evalPolyAtAlphaExp gf sigma (inverseExp e) = 0).map
      (stridecount - 1 - ·) = (rootRows sigma stridecount).reverse := by
    have hreverse : (List.range stridecount).reverse = (List.range stridecount).map (stridecount - 1 - ·) := by
      rw [List.range_eq_range', List.reverse_range', ← List.range_eq_range']
      exact List.map_congr_left fun i _ => by omega
    rw [rootRows, ← List.filter_reverse, hreverse, List.filter_map]
    congr 1
    refine List.filter_congr fun e he => ?_
    exact decide_eq_decide.2 (hroot e (List.mem_range.1 he))
  have hsort : (rootRows sigma stridecount).reverse.mergeSort (· ≤ ·) = rootRows sigma stridecount := by
    refine mergeSort_reverse ?_
    exact (List.pairwise_lt_range.sublist List.filter_sublist).imp Nat.le_of_lt
  have hloop := foldlM_collect (fun e => evalPolyAtAlphaExp gf sigma (inverseExp e) = 0) (stridecount - 1 - ·) errorCount
    (List.range stridecount) [] (Nat.zero_le _)
  rw [hrows, List.nil_append, List.length_reverse] at hloop
  rw [chienSearch, if_neg hpos, if_neg (by omega)]
  simp only
  rw [hloop]
  by_cases hle : (rootRows sigma stridecount).length ≤ errorCount
  · rw [if_pos hle, some_bind, List.length_reverse, hsort]
  · rw [if_neg hle, if_neg (by omega)]
    rfl

/-! ## Forney -/

theorem syndromeEvaluator_spec (syndromes sigma : List UInt16) (npar : ℕ) :
    (syndromeEvaluator gf syndromes sigma npar).length = npar ∧ ∀ k < npar,
      toGF ((syndromeEvaluator gf syndromes sigma npar).getD k 0) =
        PowerSeries.coeff k ((polyOf sigma : PowerSeries GF) * seriesOf syndromes) := by
  have hfold : ∀ (ps : List (UInt16 × ℕ)) (omega : List UInt16), omega.length = npar →
      ∃ omega', ps.foldl (fun omega (p : UInt16 × ℕ) => if p.1 = 0 ∨ p.2 ≥ npar then omega
        else (List.range (npar - p.2)).foldl (fun omega j =>
          if syndromes.getD j 0 ≠ 0 then omega.set (p.2 + j) (omega.getD (p.2 + j) 0 ^^^ gf.mul p.1 (syndromes.getD j 0))
          else omega) omega) omega = omega' ∧ omega'.length = npar ∧ ∀ k < npar, toGF (omega'.getD k 0) =
        toGF (omega.getD k 0) + (ps.map fun p => if p.2 ≤ k then toGF p.1 * toGF (syndromes.getD (k - p.2) 0) else 0).sum := by
    intro ps
    induction ps with
    | nil => exact fun omega hlen => ⟨omega, rfl, hlen, fun k _ => by simp⟩
    | cons p ps ih =>
      intro omega hlen
      rw [List.foldl_cons]
      by_cases hskip : p.1 = 0 ∨ p.2 ≥ npar
      · rw [if_pos hskip]
        obtain ⟨omega', homega', hlen', hget⟩ := ih omega hlen
        refine ⟨omega', homega', hlen', fun k hk => ?_⟩
        have hzero : (if p.2 ≤ k then toGF p.1 * toGF (syndromes.getD (k - p.2) 0) else 0) = 0 := by
          rcases hskip with hp | hp
          · rw [hp, toGF_zero, zero_mul, ite_self]
          · rw [if_neg (by omega)]
        rw [hget k hk, List.map_cons, List.sum_cons, hzero, zero_add]
      · rw [if_neg hskip]
        obtain ⟨ys, hys⟩ : ∃ ys, (List.range (npar - p.2)).foldl (fun omega j =>
          if syndromes.getD j 0 ≠ 0 then omega.set (p.2 + j) (omega.getD (p.2 + j) 0 ^^^ gf.mul p.1 (syndromes.getD j 0))
          else omega) omega = ys := ⟨_, rfl⟩
        have hzero : ∀ j, ¬ syndromes.getD j 0 ≠ 0 → toGF (gf.mul p.1 (syndromes.getD j 0)) = 0 := by
          intro j hj
          rw [not_not.1 hj, Galois16.toGF_mul, toGF_zero, mul_zero]
        obtain ⟨hylen, hyget⟩ := foldl_set_xor _ _ hzero p.2 omega _ ys hys
        rw [hys]
        obtain ⟨omega', homega', hlen', hget⟩ := ih ys (hylen.trans hlen)
        refine ⟨omega', homega', hlen', fun k hk => ?_⟩
        rw [hget k hk, hyget k (hlen ▸ hk), List.map_cons, List.sum_cons, add_assoc]
        congr 2
        by_cases hpk : p.2 ≤ k
        · rw [if_pos ⟨hpk, by omega⟩, if_pos hpk, Galois16.toGF_mul]
        · rw [if_neg (fun h => hpk h.1), if_neg hpk]
  obtain ⟨omega', homega', hlen, hget⟩ := hfold sigma.zipIdx (List.replicate npar 0) List.length_replicate
  have heq : syndromeEvaluator gf syndromes sigma npar = omega' := homega'
  rw [heq]
  refine ⟨hlen, fun k hk => ?_⟩
  have hmul : (polyOf sigma : PowerSeries GF) * seriesOf syndromes = ∑ i ∈ Finset.range sigma.length,
      PowerSeries.C (toGF (sigma.getD i 0)) * (PowerSeries.X ^ i * seriesOf syndromes) := by
    rw [polyOf, ← Polynomial.coeToPowerSeries.ringHom_apply, map_sum, Finset.sum_mul]
    refine Finset.sum_congr rfl fun i _ => ?_
    simp [mul_assoc]
  rw [hget k hk, sum_map_zipIdx sigma fun a i => if i ≤ k then toGF a * toGF (syndromes.getD (k - i) 0) else 0,
    List.getD_eq_getElem _ _ (by simpa using hk), List.getElem_replicate, toGF_zero, zero_add, hmul, map_sum]
  refine Finset.sum_congr rfl fun i _ => ?_
  rw [PowerSeries.coeff_C_mul, PowerSeries.coeff_X_pow_mul']
  by_cases hik : i ≤ k
  · rw [if_pos hik, if_pos hik, coeff_seriesOf]
  · rw [if_neg hik, if_neg hik, mul_zero]

theorem sum_map_filter {α : Type} (p : α → Prop) [DecidablePred p] (f : α → GF) (xs : List α) :
    ((xs.filter p).map f).sum = (xs.map fun a => if p a then f a else 0).sum := by
  induction xs with
  | nil => rfl
  | cons x xs ih =>
    by_cases hx : p x
    · rw [List.filter_cons_of_pos (by simpa using hx), List.map_cons, List.sum_cons, List.map_cons, List.sum_cons, ih,
        if_pos hx]
    · rw [List.filter_cons_of_neg (by simpa using hx), List.map_cons, List.sum_cons, ih, if_neg hx, zero_add]

theorem cast_parity (n : ℕ) : (n : GF) = if n % 2 = 1 then 1 else 0 := by
  have htwo : (2 : GF) = 0 := CharTwo.two_eq_zero
  conv_lhs => rw [← Nat.div_add_mod n 2, Nat.cast_add, Nat.cast_mul, Nat.cast_ofNat, htwo, zero_mul, zero_add]
  rcases Nat.mod_two_eq_zero_or_one n with h | h
  · rw [h, if_neg (by decide), Nat.cast_zero]
  · rw [h, if_pos rfl, Nat.cast_one]

/-- In characteristic two the odd degrees are the derivative. -/
theorem toGF_sigmaDerivative (sigma : List UInt16) (e : ℕ) :
    toGF (sigmaDerivativeAt gf sigma e) = (derivative (polyOf sigma)).eval (alpha ^ e) := by
  have hskip : ∀ i, ¬ sigma.getD i 0 ≠ 0 → toGF (gf.mulExp (sigma.getD i 0) (e * (i - 1) % galoisMax)) = 0 := by
    intro i hi
    rw [not_not.1 hi, Galois16.toGF_mulExp, toGF_zero, zero_mul]
  rw [sigmaDerivativeAt, toGF_foldl_xor _ _ hskip, toGF_zero, zero_add, sum_map_filter, sum_map_range, polyOf,
    derivative_sum, eval_finsetSum]
  refine Finset.sum_congr rfl fun i _ => ?_
  rw [derivative_C_mul_X_pow, eval_mul, eval_C, eval_pow, eval_X, cast_parity]
  by_cases hodd : i % 2 = 1
  · rw [if_pos hodd, if_pos hodd, Galois16.toGF_mulExp, alpha_pow_mod, pow_mul, mul_one]
  · rw [if_neg hodd, if_neg hodd, mul_zero, zero_mul]

/-! ## The residual -/

theorem IsRow.take {syndromes : List UInt16} {npar : ℕ} (h : npar ≤ syndromes.length) :
    IsRow (syndromes.take npar) npar fun k => toGF (syndromes.getD k 0) := by
  refine ⟨by rw [List.length_take]; omega, fun i hi => ?_⟩
  rw [List.getD_eq_getElem?_getD, List.getElem?_take_of_lt hi, ← List.getD_eq_getElem?_getD]

/-- **The residual** adds each correction's own syndromes. -/
theorem residualAfterCorrection_spec {syndromes : List UInt16} {npar stridecount : ℕ} (hlen : npar ≤ syndromes.length)
    (hn : stridecount ≠ 0) (hmax : stridecount ≤ galoisMax) {corrections : List LocatedError}
    (hrows : ∀ c ∈ corrections, c.row < stridecount) :
    ∃ residual, residualAfterCorrection gf syndromes corrections npar stridecount = some residual ∧
      IsRow residual npar fun k => toGF (syndromes.getD k 0) +
        (corrections.map fun c => toGF c.magnitude * rowLocator stridecount c.row ^ k).sum := by
  have hfold : ∀ (cs : List LocatedError), (∀ c ∈ cs, c.row < stridecount) → ∀ (r : List UInt16) (f : ℕ → GF),
      IsRow r npar f → ∃ r', cs.foldlM (fun residual c => if c.row ≥ stridecount then none
        else some (residual.mapIdx fun k x => x ^^^ gf.mulExp c.magnitude ((stridecount - 1 - c.row) * k % galoisMax))) r =
          some r' ∧ IsRow r' npar fun k => f k + (cs.map fun c => toGF c.magnitude * rowLocator stridecount c.row ^ k).sum := by
    intro cs
    induction cs with
    | nil => exact fun _ r f hr => ⟨r, rfl, hr.congr fun k _ => by simp⟩
    | cons c cs ih =>
      intro hcs r f hr
      have hstep : IsRow (r.mapIdx fun k x => x ^^^ gf.mulExp c.magnitude ((stridecount - 1 - c.row) * k % galoisMax)) npar
          fun k => f k + toGF c.magnitude * rowLocator stridecount c.row ^ k := by
        refine ⟨by simp [hr.length], fun k hk => ?_⟩
        have hk' : k < r.length := by rw [hr.length]; exact hk
        have hsym := hr.symbol k hk
        rw [List.getD_eq_getElem _ _ hk'] at hsym
        rw [List.getD_eq_getElem _ _ (by simpa using hk'), List.getElem_mapIdx, toGF_xor, hsym, Galois16.toGF_mulExp,
          alpha_pow_mod, pow_mul, rowLocator]
      obtain ⟨r', hr', hrow⟩ := ih (fun d hd => hcs d (by simp [hd])) _ _ hstep
      have hlt := hcs c (by simp)
      refine ⟨r', ?_, hrow.congr fun k _ => ?_⟩
      · rw [List.foldlM_cons, if_neg (by omega), some_bind, hr']
      · rw [List.map_cons, List.sum_cons, add_assoc]
  obtain ⟨residual, hresidual, hrow⟩ := hfold corrections hrows _ _ (IsRow.take hlen)
  refine ⟨residual, ?_, hrow⟩
  rw [residualAfterCorrection, if_neg (by omega)]
  exact hresidual

theorem IsRow.allZero {ws : List UInt16} {n : ℕ} {f : ℕ → GF} (h : IsRow ws n f) :
    Ctdb.allZero ws = true ↔ ∀ k < n, f k = 0 := by
  have htake := allZero_take h.length.ge
  rw [List.take_of_length_le h.length.le] at htake
  rw [htake]
  constructor
  · intro hz k hk
    rw [← h.symbol k hk, hz k hk, toGF_zero]
  · intro hz k hk
    rw [← toGF_eq_zero, h.symbol k hk, hz k hk]

end Ctdb
