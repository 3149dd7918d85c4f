import Tonepoet.Ctdb.DecoderLoops

/-!
# Column decoding is bounded-distance decoding

An error vector gives each row of a column a word, mostly zero. The decoder returns the nonzero entries
of the vector whenever there are at most `npar / 2` of them, and whatever else it returns is such a
vector for the syndromes it was given.
-/

namespace Ctdb

open Polynomial Rust LinearRecurrence ErrorLocator

variable (gf : Galois16)

/-- The `k`-th syndrome of an error vector. -/
noncomputable def errorSyndrome (n : ℕ) (e : ℕ → UInt16) (k : ℕ) : GF :=
  ∑ r ∈ Finset.range n, toGF (e r) * alpha ^ (k * (n - 1 - r))

/-- The rows with an error, in increasing order. -/
def errorSupport (n : ℕ) (e : ℕ → UInt16) : List ℕ := (List.range n).filter fun r => e r ≠ 0

/-- The nonzero entries of an error vector. -/
def errorEntries (n : ℕ) (e : ℕ → UInt16) : List LocatedError := (errorSupport n e).map fun r => ⟨r, e r⟩

variable {n npar : ℕ} {e : ℕ → UInt16} {syndromes : List UInt16}

theorem mem_errorSupport {r : ℕ} : r ∈ errorSupport n e ↔ r < n ∧ e r ≠ 0 := by simp [errorSupport]

theorem pairwise_errorSupport (n : ℕ) (e : ℕ → UInt16) : (errorSupport n e).Pairwise (· < ·) :=
  List.pairwise_lt_range.sublist List.filter_sublist

theorem nodup_errorSupport (n : ℕ) (e : ℕ → UInt16) : (errorSupport n e).Nodup :=
  (pairwise_errorSupport n e).imp Nat.ne_of_lt

theorem errorSyndrome_eq_powerSum (n : ℕ) (e : ℕ → UInt16) (k : ℕ) :
    errorSyndrome n e k = powerSum (errorSupport n e).toFinset (rowLocator n) (fun r => toGF (e r)) k := by
  have hsub : (errorSupport n e).toFinset ⊆ Finset.range n := by
    intro r hr
    exact Finset.mem_range.2 (mem_errorSupport.1 (List.mem_toFinset.1 hr)).1
  rw [errorSyndrome, powerSum, ← Finset.sum_subset hsub]
  · refine Finset.sum_congr rfl fun r _ => ?_
    rw [rowLocator, ← pow_mul, mul_comm k]
  · intro r hr hr'
    have hzero : e r = 0 := by
      by_contra hne
      exact hr' (List.mem_toFinset.2 (mem_errorSupport.2 ⟨Finset.mem_range.1 hr, hne⟩))
    rw [hzero, toGF_zero, zero_mul]

/-! ## Every correctable vector is found -/

/-- The data of a correctable column. -/
structure Correctable (syndromes : List UInt16) (npar n : ℕ) (e : ℕ → UInt16) : Prop where
  length : npar ≤ syndromes.length
  rows_pos : n ≠ 0
  rows_le : n ≤ galoisMax
  syndrome : ∀ k < npar, toGF (syndromes.getD k 0) = errorSyndrome n e k
  weight : 2 * (errorSupport n e).length ≤ npar

namespace Correctable

theorem located (h : Correctable syndromes npar n e) : Located (errorSupport n e).toFinset (rowLocator n) :=
  located_rows h.rows_le fun _ hr => (mem_errorSupport.1 (List.mem_toFinset.1 hr)).1

theorem starts (h : Correctable syndromes npar n e) :
    Starts (seriesOf syndromes) (errorSupport n e).toFinset (rowLocator n) (fun r => toGF (e r)) npar := by
  intro k hk
  rw [coeff_seriesOf, h.syndrome k hk, errorSyndrome_eq_powerSum]

theorem card (_h : Correctable syndromes npar n e) : (errorSupport n e).toFinset.card = (errorSupport n e).length :=
  List.toFinset_card_of_nodup (nodup_errorSupport n e)

theorem ne_zero (_h : Correctable syndromes npar n e) : ∀ r ∈ (errorSupport n e).toFinset, toGF (e r) ≠ 0 :=
  fun _ hr => toGF_eq_zero.not.2 (mem_errorSupport.1 (List.mem_toFinset.1 hr)).2

/-- No syndrome at all means no error. -/
theorem allZero_iff (h : Correctable syndromes npar n e) :
    allZero (syndromes.take npar) = true ↔ errorSupport n e = [] := by
  rw [allZero_take h.length]
  constructor
  · intro hz
    have hcard := h.card
    have hweight := h.weight
    have hnone := h.located.eq_zero_of_powerSum (e := fun r => toGF (e r)) fun k hk => by
      rw [← errorSyndrome_eq_powerSum, ← h.syndrome k (by omega), hz k (by omega), toGF_zero]
    rw [List.eq_nil_iff_forall_not_mem]
    intro r hr
    exact h.ne_zero r (List.mem_toFinset.2 hr) (hnone r (List.mem_toFinset.2 hr))
  · intro hnil k hk
    rw [← toGF_eq_zero, h.syndrome k hk, errorSyndrome_eq_powerSum, hnil, powerSum, List.toFinset_nil, Finset.sum_empty]

theorem locator_eq (h : Correctable syndromes npar n e) :
    (Massey.run (seriesOf syndromes) npar).c = locator (errorSupport n e).toFinset (rowLocator n) := by
  classical
  exact massey_eq_locator h.starts h.located h.ne_zero (by rw [h.card]; exact h.weight)

theorem natDegree_locator (h : Correctable syndromes npar n e) :
    (locator (errorSupport n e).toFinset (rowLocator n)).natDegree = (errorSupport n e).length := by
  classical
  rw [h.located.natDegree_locator, h.card]

/-- The root rows are the rows with an error. -/
theorem rootRows_eq (h : Correctable syndromes npar n e) {sigma : List UInt16}
    (hsigma : polyOf sigma = locator (errorSupport n e).toFinset (rowLocator n)) : rootRows sigma n = errorSupport n e := by
  refine List.filter_congr fun r hr => decide_eq_decide.2 ?_
  have hr := List.mem_range.1 hr
  rw [hsigma]
  constructor
  · intro hroot hzero
    refine eval_locator_ne_zero (fun i hi heq => ?_) (alpha_pow_ne_zero _) hroot
    have hi' := mem_errorSupport.1 (List.mem_toFinset.1 hi)
    have := (located_rows h.rows_le (s := {i, r}) (by simp [hi'.1, hr])).injOn (by simp) (by simp) heq
    exact hi'.2 (this ▸ hzero)
  · intro hne
    exact eval_locator_eq_zero (List.mem_toFinset.2 (mem_errorSupport.2 ⟨hr, hne⟩)) (alpha_pow_ne_zero _)

theorem polyOf_evaluator (h : Correctable syndromes npar n e) {sigma : List UInt16}
    (hsigma : polyOf sigma = locator (errorSupport n e).toFinset (rowLocator n)) :
    polyOf (syndromeEvaluator gf syndromes sigma npar) =
      evaluator (errorSupport n e).toFinset (rowLocator n) (fun r => toGF (e r)) := by
  obtain ⟨hlen, hget⟩ := syndromeEvaluator_spec gf syndromes sigma npar
  have hcard := h.card
  have hweight := h.weight
  ext k
  rw [coeff_polyOf]
  by_cases hk : k < npar
  · rw [hget k hk, hsigma, h.starts.coeff_locator_mul hk]
  · rw [getD_of_length_le (by omega), toGF_zero, coeff_evaluator_eq_zero (by omega)]

/-- Forney's magnitude of a row is its entry. -/
theorem forneyAt_eq (h : Correctable syndromes npar n e) {sigma : List UInt16}
    (hsigma : polyOf sigma = locator (errorSupport n e).toFinset (rowLocator n)) {r : ℕ} (hr : r ∈ errorSupport n e) :
    forneyAt gf (syndromeEvaluator gf syndromes sigma npar) sigma n r = some (e r) := by
  obtain ⟨hderiv, hquot⟩ := ErrorLocator.forney (e := fun r => toGF (e r)) h.located (List.mem_toFinset.2 hr)
  have hlt := (mem_errorSupport.1 hr).1
  have hne : sigmaDerivativeAt gf sigma (inverseExp (n - 1 - r)) ≠ 0 := by
    rw [Ne, ← toGF_eq_zero, toGF_sigmaDerivative, alpha_pow_inverseExp, hsigma]
    exact hderiv
  rw [forneyAt, if_neg (by omega)]
  simp only
  rw [dif_neg hne]
  refine congrArg some (toGF_injective ?_)
  rw [Galois16.toGF_mul, Galois16.toGF_alphaPow, Galois16.toGF_div, toGF_evalPoly, toGF_sigmaDerivative,
    alpha_pow_inverseExp, h.polyOf_evaluator gf hsigma, hsigma]
  exact hquot.trans (CharTwo.neg_eq _)

theorem residual_zero (h : Correctable syndromes npar n e) :
    ∃ residual, residualAfterCorrection gf syndromes (errorEntries n e) npar n = some residual ∧ allZero residual = true := by
  obtain ⟨residual, hresidual, hrow⟩ := residualAfterCorrection_spec gf h.length h.rows_pos h.rows_le
    (show ∀ c ∈ errorEntries n e, c.row < n by
      intro c hc
      obtain ⟨r, hr, rfl⟩ := List.mem_map.1 hc
      exact (mem_errorSupport.1 hr).1)
  refine ⟨residual, hresidual, hrow.allZero.2 fun k hk => ?_⟩
  have hsum : ((errorEntries n e).map fun c => toGF c.magnitude * rowLocator n c.row ^ k).sum = errorSyndrome n e k := by
    rw [errorSyndrome_eq_powerSum, powerSum, List.sum_toFinset _ (nodup_errorSupport n e), errorEntries, List.map_map]
    rfl
  rw [hsum, h.syndrome k hk, CharTwo.add_self_eq_zero]

end Correctable

/-- **Every correctable error vector is found**, with its rows in increasing order. -/
theorem Correctable.decodeColumnSyndromes (h : Correctable syndromes npar n e) :
    decodeColumnSyndromes gf syndromes npar n = some (errorEntries n e) := by
  rw [Ctdb.decodeColumnSyndromes, if_neg (by have := h.length; omega)]
  by_cases hzero : allZero (syndromes.take npar) = true
  · rw [if_pos hzero, errorEntries, h.allZero_iff.1 hzero, List.map_nil]
  · rw [if_neg hzero]
    obtain ⟨sigma, hbm, hpoly, -⟩ := berlekampMassey_spec gf h.length hzero
    rw [h.locator_eq] at hbm hpoly
    rw [h.natDegree_locator] at hbm
    have hpos : (errorSupport n e).length ≠ 0 := by
      intro hlen
      exact hzero (h.allZero_iff.2 (List.eq_nil_of_length_eq_zero hlen))
    have hchien : chienSearch gf sigma (errorSupport n e).length n = some (errorSupport n e) := by
      rw [chienSearch_eq gf hpos h.rows_pos h.rows_le, h.rootRows_eq hpoly, if_pos rfl]
    have hforney : Ctdb.forney gf syndromes sigma (errorSupport n e) npar n = some ((errorSupport n e).map e) := by
      have hlen := h.length
      have hn := h.rows_pos
      have hmax := h.rows_le
      rw [Ctdb.forney, if_neg (by omega)]
      exact mapM_eq_some fun r hr => h.forneyAt_eq gf hpoly hr
    have hentries : List.zipWith LocatedError.mk (errorSupport n e) ((errorSupport n e).map e) = errorEntries n e := by
      rw [List.zipWith_map_right, List.zipWith_self]
      rfl
    obtain ⟨residual, hresidual, hall⟩ := h.residual_zero gf
    have hweight := h.weight
    rw [hbm, some_bind]
    simp only
    rw [if_neg (by omega), hchien, some_bind, hforney, some_bind, hentries, hresidual, some_bind, if_pos hall]

/-! ## Whatever is returned is an error vector -/

/-- What an answer of the decoder is. -/
structure Decodes (syndromes : List UInt16) (npar n : ℕ) (corrections : List LocatedError) : Prop where
  increasing : (corrections.map LocatedError.row).Pairwise (· < ·)
  row_lt : ∀ c ∈ corrections, c.row < n
  magnitude_ne_zero : ∀ c ∈ corrections, c.magnitude ≠ 0
  weight : corrections.length ≤ npar / 2
  syndrome : ∀ k < npar, toGF (syndromes.getD k 0) =
    (corrections.map fun c => toGF c.magnitude * rowLocator n c.row ^ k).sum

theorem eq_map_of_mapM {α : Type} {f : α → Option UInt16} : ∀ {xs : List α} {ys : List UInt16}, xs.mapM f = some ys →
    ys = xs.map fun a => (f a).getD 0
  | [], ys, h => by simpa using h.symm
  | a :: xs, ys, h => by
    rw [List.mapM_cons] at h
    obtain ⟨b, hb, h⟩ := Option.bind_eq_some_iff.1 h
    obtain ⟨bs, hbs, h⟩ := Option.bind_eq_some_iff.1 h
    rw [← Option.some.inj h, List.map_cons, hb, ← eq_map_of_mapM hbs]
    rfl

/-- **Every answer reproduces the syndromes**, with distinct rows in range and no idle entry. -/
theorem decodes_of_decodeColumnSyndromes {corrections : List LocatedError}
    (h : decodeColumnSyndromes gf syndromes npar n = some corrections) : Decodes syndromes npar n corrections := by
  classical
  rw [decodeColumnSyndromes] at h
  by_cases hlen : syndromes.length < npar
  · rw [if_pos hlen] at h
    cases h
  rw [if_neg hlen] at h
  by_cases hzero : allZero (syndromes.take npar) = true
  · rw [if_pos hzero] at h
    obtain rfl := Option.some.inj h
    refine ⟨List.Pairwise.nil, by simp, by simp, Nat.zero_le _, fun k hk => ?_⟩
    rw [(allZero_take (by omega)).1 hzero k hk, toGF_zero, List.map_nil, List.sum_nil]
  rw [if_neg hzero] at h
  obtain ⟨sigma, hbm, hpoly, -⟩ := berlekampMassey_spec gf (by omega) hzero
  rw [hbm, some_bind] at h
  simp only at h
  obtain ⟨count, hcount⟩ : ∃ count, (Massey.run (seriesOf syndromes) npar).c.natDegree = count := ⟨_, rfl⟩
  rw [hcount] at h
  by_cases hbad : count = 0 ∨ count > npar / 2
  · rw [if_pos hbad] at h
    cases h
  rw [if_neg hbad] at h
  obtain ⟨positions, hchien, h⟩ := Option.bind_eq_some_iff.1 h
  obtain ⟨magnitudes, hforney, h⟩ := Option.bind_eq_some_iff.1 h
  obtain ⟨residual, hresidual, h⟩ := Option.bind_eq_some_iff.1 h
  by_cases hall : allZero residual = true
  swap
  · rw [if_neg hall] at h
    cases h
  rw [if_pos hall] at h
  have hrange : n ≠ 0 ∧ n ≤ galoisMax := by
    by_contra hrange
    rw [Ctdb.forney, if_pos (by omega)] at hforney
    cases hforney
  rw [chienSearch_eq gf (by omega) hrange.1 hrange.2] at hchien
  by_cases hnum : (rootRows sigma n).length = count
  swap
  · rw [if_neg hnum] at hchien
    cases hchien
  rw [if_pos hnum] at hchien
  obtain rfl := Option.some.inj hchien
  rw [Ctdb.forney, if_neg (by omega)] at hforney
  obtain ⟨g, hg⟩ : ∃ g : ℕ → UInt16, magnitudes = (rootRows sigma n).map g := ⟨_, eq_map_of_mapM hforney⟩
  have hcorr : corrections = (rootRows sigma n).map fun r => ⟨r, g r⟩ := by
    rw [← Option.some.inj h, hg, List.zipWith_map_right, List.zipWith_self]
  have hincreasing : (rootRows sigma n).Pairwise (· < ·) := List.pairwise_lt_range.sublist List.filter_sublist
  have hlt : ∀ r ∈ rootRows sigma n, r < n := fun r hr => List.mem_range.1 (List.mem_of_mem_filter hr)
  have hrows : ∀ c ∈ corrections, c.row < n := by
    rw [hcorr]
    intro c hc
    obtain ⟨r, hr, rfl⟩ := List.mem_map.1 hc
    exact hlt r hr
  have hsyndrome : ∀ k < npar, toGF (syndromes.getD k 0) =
      (corrections.map fun c => toGF c.magnitude * rowLocator n c.row ^ k).sum := by
    intro k hk
    obtain ⟨residual', hresidual', hrow⟩ := residualAfterCorrection_spec gf (by omega : npar ≤ syndromes.length) hrange.1
      hrange.2 hrows
    rw [Option.some.inj h] at hresidual
    obtain rfl := Option.some.inj (hresidual'.symm.trans hresidual)
    exact CharTwo.add_eq_zero.1 (hrow.allZero.1 hall k hk)
  have hstarts : Starts (seriesOf syndromes) (rootRows sigma n).toFinset (rowLocator n) (fun r => toGF (g r)) npar := by
    intro k hk
    rw [coeff_seriesOf, hsyndrome k hk, hcorr, List.map_map, powerSum,
      List.sum_toFinset _ (hincreasing.imp Nat.ne_of_lt)]
    rfl
  have hcard : (rootRows sigma n).toFinset.card = count := by
    rw [List.toFinset_card_of_nodup (hincreasing.imp Nat.ne_of_lt), hnum]
  have hne := ErrorLocator.magnitude_ne_zero hstarts (by rw [hcard, hcount])
  refine ⟨?_, hrows, ?_, ?_, hsyndrome⟩
  · rw [hcorr, List.map_map, show LocatedError.row ∘ (fun r => ⟨r, g r⟩) = id from rfl, List.map_id]
    exact hincreasing
  · rw [hcorr]
    intro c hc
    obtain ⟨r, hr, rfl⟩ := List.mem_map.1 hc
    exact toGF_eq_zero.not.1 (hne r (List.mem_toFinset.2 hr))
  · rw [hcorr, List.length_map, hnum]
    omega

/-! ## The decoder as a map on syndrome words -/

/-- The words are the first `npar` syndromes of the error vector. -/
def HasSyndromes (syndromes : List UInt16) (npar n : ℕ) (e : ℕ → UInt16) : Prop :=
  ∀ k < npar, toGF (syndromes.getD k 0) = errorSyndrome n e k

/-- The syndromes of an error vector, in words: row `r` has the locator `alpha^(n - 1 - r)`. -/
def errorSyndromeWords (npar n : ℕ) (e : ℕ → UInt16) : List UInt16 :=
  (List.range npar).map fun k => (List.range n).foldl (fun s r => s ^^^ gf.mulExp (e r) (k * (n - 1 - r))) 0

theorem length_errorSyndromeWords (npar n : ℕ) (e : ℕ → UInt16) : (errorSyndromeWords gf npar n e).length = npar := by
  simp [errorSyndromeWords]

theorem toGF_xorSum (f : ℕ → UInt16) (n : ℕ) :
    toGF ((List.range n).foldl (fun s r => s ^^^ f r) 0) = ∑ r ∈ Finset.range n, toGF (f r) := by
  induction n with
  | zero => simp
  | succ n ih => rw [List.range_succ, List.foldl_append, List.foldl_cons, List.foldl_nil, toGF_xor, ih, Finset.sum_range_succ]

theorem hasSyndromes_words (npar n : ℕ) (e : ℕ → UInt16) : HasSyndromes (errorSyndromeWords gf npar n e) npar n e := by
  intro k hk
  rw [errorSyndromeWords, List.getD_eq_getElem?_getD, List.getElem?_map, List.getElem?_range hk, Option.map_some,
    Option.getD_some, toGF_xorSum, errorSyndrome]
  simp only [Galois16.toGF_mulExp]

/-- **Column decoding is exactly bounded-distance decoding.** A vector of at most `npar / 2` errors is
found from its syndromes, for any number `npar` of them. Whatever the syndromes are, an answer is such a vector with these syndromes,
and there is no answer only when no vector of that weight has them. -/
theorem decodeColumnSyndromes_boundedDistance {npar n : ℕ} (hpos : 1 ≤ n) (hmax : n ≤ 65535) :
    (∀ e : ℕ → UInt16, (errorSupport n e).length ≤ npar / 2 →
      decodeColumnSyndromes gf (errorSyndromeWords gf npar n e) npar n = some (errorEntries n e)) ∧
    ∀ syndromes : List UInt16, syndromes.length = npar →
      (∀ corrections, decodeColumnSyndromes gf syndromes npar n = some corrections →
        Decodes syndromes npar n corrections) ∧
      (decodeColumnSyndromes gf syndromes npar n = none →
        ∀ e, HasSyndromes syndromes npar n e → npar / 2 < (errorSupport n e).length) := by
  have hfound : ∀ (syndromes : List UInt16) (e : ℕ → UInt16), syndromes.length = npar →
      HasSyndromes syndromes npar n e → (errorSupport n e).length ≤ npar / 2 →
      decodeColumnSyndromes gf syndromes npar n = some (errorEntries n e) := by
    intro syndromes e hlen hsyn hweight
    have h : Correctable syndromes npar n e := ⟨hlen.ge, by omega, hmax, hsyn, by omega⟩
    exact h.decodeColumnSyndromes gf
  refine ⟨fun e hweight => ?_, fun syndromes hlen => ⟨fun corrections h => decodes_of_decodeColumnSyndromes gf h, ?_⟩⟩
  · exact hfound _ e (length_errorSyndromeWords gf npar n e) (hasSyndromes_words gf npar n e) hweight
  · intro hnone e hsyn
    by_contra hweight
    rw [hfound syndromes e hlen hsyn (by omega)] at hnone
    cases hnone

theorem decodeColumnSyndromes_boundedDistance_single :
    decodeColumnSyndromes Galois16.new (errorSyndromeWords Galois16.new 4 3 fun r => if r = 1 then 7 else 0) 4 3 =
      some [⟨1, 7⟩] :=
  (decodeColumnSyndromes_boundedDistance Galois16.new (by decide) (by decide)).1 _ (by decide)

end Ctdb
