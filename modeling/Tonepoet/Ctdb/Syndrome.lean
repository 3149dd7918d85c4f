import Mathlib.Algebra.BigOperators.Field
import Mathlib.Data.List.GetD
import Tonepoet.Ctdb.Context

/-!
# Syndromes at a read offset (tui/ctdb.rs:594-738, tui/ctdb_cuetools_repair.rs:47-120)

A syndrome row is computed from the parity of the column the offset points at. Where the offset
crosses a stride, one word of the column is taken out and one is put in at the other end.
-/

namespace Ctdb

open Rust ShiftRegister

variable (gf : Galois16)

/-- `gf_mul_exp` (ctdb.rs:592). -/
def gfMulExp (value : UInt16) (exp : ℕ) : UInt16 :=
  if value = 0 then 0 else gf.mul value (gf.alphaPow (exp % galoisMax))

/-- `gf_div_exp` (ctdb.rs:601). A power of the generator is never zero. -/
def gfDivExp (value : UInt16) (exp : ℕ) : UInt16 :=
  if value = 0 then 0 else gf.div value (gf.alphaPow (exp % galoisMax)) (gf.alphaPow_ne_zero _)

/-- One parity symbol in the inner transform. -/
def addParitySymbol (syn : List UInt16) (lo : UInt16) (x1 : ℕ) : Option (List UInt16) :=
  if lo = 0 then some syn
  else do
    let logLo ← gf.log lo
    some (syn.mapIdx fun x s =>
      s ^^^ gf.alphaPow ((logLo + galoisMax - (1 + x1) * x % galoisMax) % galoisMax))

/-- `cuetools_parity_row_to_syndrome_row` (ctdb.rs:641). -/
def cuetoolsParityRowToSyndromeRow (parityRow : List UInt16) (outNpar sourceNpar : ℕ) : Option (List UInt16) :=
  if outNpar > sourceNpar ∨ parityRow.length < sourceNpar then none
  else (List.range sourceNpar).foldlM (fun syn x1 => addParitySymbol gf syn (parityRow.getD x1 0) x1)
    (List.replicate outNpar 0)

/-- The first-boundary correction: a loop that updates each symbol of the row. -/
def firstBoundary (ctx : CuetoolsSyndromeContext) (part : ℕ) (syn : List UInt16) : Option (List UInt16) :=
  syn.zipIdx.mapM fun (s, i) => do
    let leadout ← ctx.leadout[(← checkedSub ctx.laststride (part + 1))]?
    let leadinIndex ← checkedAdd ctx.stride part
    let exp := i * ctx.stridecount % galoisMax
    let leadin ← ctx.leadin[leadinIndex]?
    some (gfMulExp gf s i ^^^ leadout ^^^ gfMulExp gf leadin exp)

/-- The last-boundary correction. -/
def lastBoundary (ctx : CuetoolsSyndromeContext) (part : ℕ) (syn : List UInt16) : Option (List UInt16) :=
  syn.zipIdx.mapM fun (s, i) => do
    let leadoutIndex ← checkedSub (← checkedAdd ctx.laststride ctx.stride) (part + 1)
    let exp := i * ctx.stridecount % galoisMax
    let leadout ← ctx.leadout[leadoutIndex]?
    let leadin ← ctx.leadin[part]?
    some (gfDivExp gf (s ^^^ leadout ^^^ gfMulExp gf leadin exp) i)

/-- The body both syndrome functions share: row `part2` at an offset in sample pairs. -/
def syndromeRowAt (parity16 : List (List UInt16)) (ctx : CuetoolsSyndromeContext) (outNpar : ℕ) (sampleOffset : ℤ)
    (part2 : ℕ) : Option (List UInt16) := do
  let parity2syndromeWordOffset := -2 * sampleOffset
  let y1 := (((part2 : ℤ) - parity2syndromeWordOffset) % (ctx.stride : ℤ)).toNat
  let syn ← cuetoolsParityRowToSyndromeRow gf (← parity16[y1]?) outNpar cuetoolsMaxNpar
  let offsetWords := 2 * sampleOffset
  let part := ((part2 : ℤ) + offsetWords) % (ctx.stride : ℤ)
  let syn ← if part < offsetWords then firstBoundary gf ctx part.toNat syn else some syn
  if part ≥ (ctx.stride : ℤ) + offsetWords then lastBoundary gf ctx part.toNat syn else some syn

/-- `cuetools_get_syndrome_row` (ctdb.rs:678). -/
def cuetoolsGetSyndromeRow (parity16 : List (List UInt16)) (ctx : CuetoolsSyndromeContext) (outNpar : ℕ)
    (sampleOffset : ℤ) : Option (List UInt16) :=
  if outNpar > cuetoolsMaxNpar ∨ parity16.length < ctx.stride then none
  else syndromeRowAt gf parity16 ctx outNpar sampleOffset 0

/-- `cuetools_get_syndrome_matrix` (ctdb_cuetools_repair.rs:51). -/
def cuetoolsGetSyndromeMatrix (parity16 : List (List UInt16)) (ctx : CuetoolsSyndromeContext) (outNpar : ℕ)
    (sampleOffset : ℤ) : Option (List (List UInt16)) :=
  if outNpar = 0 ∨ outNpar > cuetoolsMaxNpar ∨ parity16.length < ctx.stride then none
  else (List.range ctx.stride).mapM (syndromeRowAt gf parity16 ctx outNpar sampleOffset)

/-! ## Rows of words as rows of field elements -/

@[simp] theorem toGF_gfMulExp (a : UInt16) (n : ℕ) : toGF (gfMulExp gf a n) = toGF a * alpha ^ n := by
  by_cases ha : a = 0
  · simp [gfMulExp, ha]
  · rw [gfMulExp, if_neg ha, Galois16.toGF_mul, Galois16.toGF_alphaPow, alpha_pow_mod]

@[simp] theorem toGF_gfDivExp (a : UInt16) (n : ℕ) : toGF (gfDivExp gf a n) = toGF a / alpha ^ n := by
  by_cases ha : a = 0
  · simp [gfDivExp, ha]
  · rw [gfDivExp, if_neg ha, Galois16.toGF_div, Galois16.toGF_alphaPow, alpha_pow_mod]

/-- A row of `n` words stands for the elements `f 0, …, f (n - 1)`. -/
structure IsRow (syn : List UInt16) (n : ℕ) (f : ℕ → GF) : Prop where
  length : syn.length = n
  symbol : ∀ i < n, toGF (syn.getD i 0) = f i

theorem IsRow.congr {syn : List UInt16} {n : ℕ} {f g : ℕ → GF} (h : IsRow syn n f) (hfg : ∀ i < n, f i = g i) :
    IsRow syn n g := ⟨h.length, fun i hi => (h.symbol i hi).trans (hfg i hi)⟩

theorem IsRow.ext {syn syn' : List UInt16} {n : ℕ} {f : ℕ → GF} (h : IsRow syn n f) (h' : IsRow syn' n f) : syn = syn' := by
  apply List.ext_getElem (h.length.trans h'.length.symm)
  intro i hi hi'
  apply toGF_injective
  have hn : i < n := h.length ▸ hi
  have heq := (h.symbol i hn).trans (h'.symbol i hn).symm
  rwa [List.getD_eq_getElem _ _ hi, List.getD_eq_getElem _ _ hi'] at heq

theorem mapM_eq_some {α β : Type} {f : α → Option β} {g : α → β} : ∀ {xs : List α}, (∀ a ∈ xs, f a = some (g a)) →
    xs.mapM f = some (xs.map g)
  | [], _ => rfl
  | a :: xs, h => by
    rw [List.mapM_cons, h a (by simp), some_bind, mapM_eq_some fun b hb => h b (by simp [hb])]
    rfl

/-- A loop that updates each symbol. -/
theorem IsRow.updateEach {syn : List UInt16} {n : ℕ} {f : ℕ → GF} (h : IsRow syn n f) {u : UInt16 × ℕ → Option UInt16}
    {v : UInt16 → ℕ → UInt16} {g : ℕ → GF} (hu : ∀ s i, u (s, i) = some (v s i))
    (hv : ∀ s, ∀ i < n, toGF s = f i → toGF (v s i) = g i) : ∃ syn', syn.zipIdx.mapM u = some syn' ∧ IsRow syn' n g := by
  refine ⟨_, mapM_eq_some (g := fun p => v p.1 p.2) fun p _ => hu p.1 p.2, by simp [h.length], ?_⟩
  intro i hi
  have hi' : i < syn.length := by rw [h.length]; exact hi
  have hsym := h.symbol i hi
  rw [List.getD_eq_getElem _ _ hi'] at hsym
  rw [List.getD_eq_getElem?_getD, List.getElem?_map, List.getElem?_zipIdx, List.getElem?_eq_getElem hi']
  simpa using hv syn[i] i hi hsym

theorem addParitySymbol_ok {syn : List UInt16} {n : ℕ} {f : ℕ → GF} (h : IsRow syn n f) (lo : UInt16) (x1 : ℕ) :
    ∃ syn', addParitySymbol gf syn lo x1 = some syn' ∧ IsRow syn' n (fun x => f x + toGF lo / alpha ^ ((1 + x1) * x)) := by
  by_cases hlo : lo = 0
  · refine ⟨syn, if_pos hlo, h.congr fun i _ => ?_⟩
    rw [hlo, toGF_zero, zero_div, add_zero]
  · obtain ⟨l, hl, hlog, hpow⟩ := gf.log_eq_some hlo
    refine ⟨_, by rw [addParitySymbol, if_neg hlo, hlog]; rfl, by simp [h.length], ?_⟩
    intro x hx
    have hx' : x < syn.length := by rw [h.length]; exact hx
    have hsym := h.symbol x hx
    rw [List.getD_eq_getElem _ _ hx'] at hsym
    have hexp : toGF (gf.alphaPow ((l + galoisMax - (1 + x1) * x % galoisMax) % galoisMax)) =
        toGF lo / alpha ^ ((1 + x1) * x) := by
      have hmod := Galois16.mod_galoisMax_lt ((1 + x1) * x)
      rw [Galois16.toGF_alphaPow, alpha_pow_mod, eq_div_iff (alpha_pow_ne_zero _), ← alpha_pow_mod ((1 + x1) * x),
        ← pow_add, show l + galoisMax - (1 + x1) * x % galoisMax + (1 + x1) * x % galoisMax = l + galoisMax by omega,
        pow_add, alpha_pow_galoisMax, mul_one, hpow]
    rw [List.getD_eq_getElem?_getD, List.getElem?_mapIdx, List.getElem?_eq_getElem hx', Option.map_some, Option.getD_some,
      toGF_xor, hexp, hsym]

/-- The inner transform of a register at one root. -/
theorem sum_div_eq_value {wr : List UInt16} {n : ℕ} (hlen : wr.length = n) (x : ℕ) :
    ∑ x1 ∈ Finset.range n, toGF (wr.getD x1 0) / alpha ^ ((1 + x1) * x) =
      value (alpha ^ x) (wr.map toGF) / (alpha ^ x) ^ n := by
  have hx : alpha ^ x ≠ 0 := alpha_pow_ne_zero x
  rw [value_eq_horner, horner, List.length_map, hlen, Finset.sum_div]
  refine Finset.sum_congr rfl fun x1 hx1 => ?_
  have hx1 := Finset.mem_range.1 hx1
  have hget : (wr.map toGF).getD x1 0 = toGF (wr.getD x1 0) := by
    rw [← toGF_zero, List.getD_map]
  rw [hget, div_eq_div_iff (alpha_pow_ne_zero _) (pow_ne_zero _ hx), mul_comm (1 + x1), pow_mul, mul_assoc, ← pow_add,
    show n - 1 - x1 + (1 + x1) = n by omega]

/-- **From parity to syndromes**: the transform gives the value of the register at each root, scaled back. -/
theorem parityRowToSyndromeRow_ok {wr : List UInt16} {outNpar n : ℕ} (hlen : wr.length = n) (hout : outNpar ≤ n) :
    ∃ syn, cuetoolsParityRowToSyndromeRow gf wr outNpar n = some syn ∧
      IsRow syn outNpar (fun x => value (alpha ^ x) (wr.map toGF) / (alpha ^ x) ^ n) := by
  have hfold : ∀ k, ∃ syn, (List.range k).foldlM (fun syn x1 => addParitySymbol gf syn (wr.getD x1 0) x1)
      (List.replicate outNpar 0) = some syn ∧
      IsRow syn outNpar (fun x => ∑ x1 ∈ Finset.range k, toGF (wr.getD x1 0) / alpha ^ ((1 + x1) * x)) := by
    intro k
    induction k with
    | zero =>
      refine ⟨_, rfl, by simp, fun i hi => ?_⟩
      simp [hi]
    | succ k ih =>
      obtain ⟨syn, hsyn, hrow⟩ := ih
      obtain ⟨syn', hsyn', hrow'⟩ := addParitySymbol_ok gf hrow (wr.getD k 0) k
      refine ⟨syn', ?_, hrow'.congr fun x _ => (Finset.sum_range_succ _ _).symm⟩
      rw [List.range_succ, List.foldlM_append, hsyn, some_bind, List.foldlM_cons, hsyn', some_bind, List.foldlM_nil]
      rfl
  obtain ⟨syn, hsyn, hrow⟩ := hfold n
  refine ⟨syn, by rw [cuetoolsParityRowToSyndromeRow, if_neg (by omega), hsyn], hrow.congr fun x _ => ?_⟩
  exact sum_div_eq_value hlen x

/-! ## The boundary corrections -/

theorem firstBoundary_ok {ctx : CuetoolsSyndromeContext} {syn : List UInt16} {n : ℕ} {f : ℕ → GF} {leadout leadin : UInt16}
    (h : IsRow syn n f) (part : ℕ) (hpart : part + 1 ≤ ctx.laststride) (hfits : ctx.stride + part ≤ usizeMax)
    (hout : ctx.leadout[ctx.laststride - (part + 1)]? = some leadout) (hin : ctx.leadin[ctx.stride + part]? = some leadin) :
    ∃ syn', firstBoundary gf ctx part syn = some syn' ∧
      IsRow syn' n (fun i => f i * alpha ^ i + toGF leadout + toGF leadin * alpha ^ (i * ctx.stridecount)) := by
  refine h.updateEach (v := fun s i => gfMulExp gf s i ^^^ leadout ^^^ gfMulExp gf leadin (i * ctx.stridecount % galoisMax))
    ?_ ?_
  · intro s i
    simp only [checkedSub_of_le hpart, some_bind, hout, checkedAdd_of_le hfits, hin]
  · intro s i _ hs
    rw [toGF_xor, toGF_xor, toGF_gfMulExp, toGF_gfMulExp, alpha_pow_mod, hs]

theorem lastBoundary_ok {ctx : CuetoolsSyndromeContext} {syn : List UInt16} {n : ℕ} {f : ℕ → GF} {leadout leadin : UInt16}
    (h : IsRow syn n f) (part : ℕ) (hpart : part + 1 ≤ ctx.laststride + ctx.stride) (hfits : ctx.laststride + ctx.stride ≤ usizeMax)
    (hout : ctx.leadout[ctx.laststride + ctx.stride - (part + 1)]? = some leadout) (hin : ctx.leadin[part]? = some leadin) :
    ∃ syn', lastBoundary gf ctx part syn = some syn' ∧
      IsRow syn' n (fun i => (f i + toGF leadout + toGF leadin * alpha ^ (i * ctx.stridecount)) / alpha ^ i) := by
  refine h.updateEach
    (v := fun s i => gfDivExp gf (s ^^^ leadout ^^^ gfMulExp gf leadin (i * ctx.stridecount % galoisMax)) i) ?_ ?_
  · intro s i
    simp only [checkedAdd_of_le hfits, some_bind, checkedSub_of_le hpart, hout, hin]
  · intro s i _ hs
    rw [toGF_gfDivExp, toGF_xor, toGF_xor, toGF_gfMulExp, alpha_pow_mod, hs]

/-- Moving a column up by one word: the oldest word out, the next one in. -/
theorem horner_shift (x : GF) (f : ℕ → GF) (n : ℕ) :
    horner x f n * x + f n + f 0 * x ^ n = horner x (fun r => f (r + 1)) n := by
  have h := horner_succ x f n
  rw [horner_succ'] at h
  have htwo := CharTwo.add_self_eq_zero (f 0 * x ^ n)
  linear_combination htwo - h

/-- Moving a column down by one word. -/
theorem horner_unshift {x : GF} (hx : x ≠ 0) (f : ℕ → GF) (n : ℕ) :
    (horner x (fun r => f (r + 1)) n + f n + f 0 * x ^ n) / x = horner x f n := by
  rw [div_eq_iff hx, ← horner_shift x f n]
  have htwo := CharTwo.add_self_eq_zero (f n + f 0 * x ^ n)
  linear_combination htwo

/-- Word `r` of column `c` at an offset of `o` words. -/
def shiftedWord (audio : List Int16) (o : ℤ) (c r : ℕ) : UInt16 :=
  payloadWord audio ((stride : ℤ) + r * stride + c + o).toNat

/-- The plain syndrome of a shifted column. -/
noncomputable def plainSyndrome (audio : List Int16) (o : ℤ) (c i : ℕ) : GF :=
  ∑ r ∈ Finset.range (rowCount audio), toGF (shiftedWord audio o c r) * alpha ^ (i * (rowCount audio - 1 - r))

theorem plainSyndrome_eq_horner (audio : List Int16) (o : ℤ) (c i : ℕ) :
    plainSyndrome audio o c i = horner (alpha ^ i) (fun r => toGF (shiftedWord audio o c r)) (rowCount audio) :=
  Finset.sum_congr rfl fun r _ => by rw [pow_mul]

variable {audio : List Int16} {parity16 : List (List UInt16)} {ctx : CuetoolsSyndromeContext}

/-- The row of a column before any correction is the plain syndrome of that column. -/
theorem Spans.parityRow (h : Spans audio) (hparity : computeAudioParity16 audio = some parity16) {outNpar k : ℕ}
    (hout : outNpar ≤ cuetoolsMaxNpar) (hk : k < stride) :
    ∃ wr syn, parity16[k]? = some wr ∧ cuetoolsParityRowToSyndromeRow gf wr outNpar cuetoolsMaxNpar = some syn ∧
      IsRow syn outNpar
        (fun i => horner (alpha ^ i) (fun r => toGF (payloadWord audio (stride + r * stride + k))) (rowCount audio)) := by
  obtain ⟨parity, hparity', -, hcol⟩ := h.audioParity16
  obtain rfl : parity = parity16 := Option.some.inj (hparity'.symm.trans hparity)
  obtain ⟨wr, hwr, hlen, hval⟩ := hcol k hk
  obtain ⟨syn, hsyn, hrow⟩ := parityRowToSyndromeRow_ok gf hlen hout
  refine ⟨wr, syn, hwr, hsyn, hrow.congr fun i hi => ?_⟩
  rw [hval i (by omega), mul_div_cancel_left₀ _ (pow_ne_zero _ (alpha_pow_ne_zero i))]

/-- **One corrected row.** Whichever branch the column takes, its row is the plain syndrome of the
shifted column. -/
theorem Spans.syndromeRowAt (h : Spans audio) (hparity : computeAudioParity16 audio = some parity16)
    (hctx : cuetoolsBuildSyndromeContext audio = some ctx) {outNpar c : ℕ} (hout : outNpar ≤ cuetoolsMaxNpar) {s : ℤ}
    (hs : |2 * s| < stride) (hc : c < stride) :
    ∃ syn, syndromeRowAt gf parity16 ctx outNpar s c = some syn ∧ IsRow syn outNpar (plainSyndrome audio (2 * s) c) := by
  obtain ⟨ctx', hctx', hstride, hcount, hlast, hin, hleadout⟩ := h.buildSyndromeContext
  obtain rfl : ctx' = ctx := Option.some.inj (hctx'.symm.trans hctx)
  have hlen := h.length
  have hfits := h.fits
  have hpl := h.payloadLen_eq
  have hmod := Nat.mod_lt (payloadLen audio) stride_pos
  obtain ⟨hlo, hhi⟩ := abs_lt.1 hs
  have hcolumn : ((c : ℤ) - -2 * s) % (ctx'.stride : ℤ) = ((c : ℤ) + 2 * s) % (stride : ℤ) := by
    rw [hstride]
    congr 1
    ring
  rw [syndromeRowAt]
  simp only [hcolumn]
  rw [hstride]
  by_cases hover : (stride : ℤ) ≤ c + 2 * s
  · -- the column has wrapped past the end of the stride
    obtain ⟨k, hk⟩ := Int.eq_ofNat_of_zero_le (show 0 ≤ (c : ℤ) + 2 * s - stride by omega)
    have hpart : ((c : ℤ) + 2 * s) % (stride : ℤ) = k := by
      rw [show (c : ℤ) + 2 * s = k + stride by omega, Int.add_emod_right]
      exact Int.emod_eq_of_lt (by omega) (by omega)
    obtain ⟨wr, syn, hwr, hsyn, hrow⟩ := h.parityRow gf hparity hout (show k < stride by omega)
    obtain ⟨syn', hsyn', hrow'⟩ := firstBoundary_ok gf hrow k (by omega) (by omega)
      (hleadout (ctx'.laststride - (k + 1)) (by omega)) (hin (ctx'.stride + k) (by omega))
    rw [hpart, Int.toNat_natCast, hwr, some_bind, hsyn, some_bind, if_pos (by omega), hsyn', some_bind, if_neg (by omega)]
    refine ⟨syn', rfl, hrow'.congr fun i _ => ?_⟩
    have hlastWord : payloadLen audio - (1 + (ctx'.laststride - (k + 1))) = stride + rowCount audio * stride + k := by omega
    rw [hlastWord, hstride, hcount, pow_mul, plainSyndrome_eq_horner]
    have hshift := horner_shift (alpha ^ i) (fun r => toGF (payloadWord audio (stride + r * stride + k))) (rowCount audio)
    simp only [Nat.zero_mul, Nat.add_zero] at hshift
    rw [hshift]
    refine horner_congr fun r _ => ?_
    rw [shiftedWord, show (stride : ℤ) + r * stride + c + 2 * s = ((stride + (r + 1) * stride + k : ℕ) : ℤ) by
      push_cast
      rw [add_mul]
      omega, Int.toNat_natCast]
  · by_cases hunder : (c : ℤ) + 2 * s < 0
    · -- the column has wrapped past its start
      obtain ⟨k, hk⟩ := Int.eq_ofNat_of_zero_le (show 0 ≤ (c : ℤ) + 2 * s + stride by omega)
      have hpart : ((c : ℤ) + 2 * s) % (stride : ℤ) = k := by
        rw [← Int.add_emod_right, hk]
        exact Int.emod_eq_of_lt (by omega) (by omega)
      obtain ⟨wr, syn, hwr, hsyn, hrow⟩ := h.parityRow gf hparity hout (show k < stride by omega)
      obtain ⟨syn', hsyn', hrow'⟩ := lastBoundary_ok gf hrow k (by omega) (by omega)
        (hleadout (ctx'.laststride + ctx'.stride - (k + 1)) (by omega)) (hin k (by omega))
      rw [hpart, Int.toNat_natCast, hwr, some_bind, hsyn, some_bind, if_neg (by omega), some_bind, if_pos (by omega)]
      refine ⟨syn', hsyn', hrow'.congr fun i _ => ?_⟩
      have hlastWord : payloadLen audio - (1 + (ctx'.laststride + ctx'.stride - (k + 1))) = rowCount audio * stride + k := by
        omega
      rw [hlastWord, hcount, pow_mul, plainSyndrome_eq_horner]
      have hrows : ∀ r, stride + r * stride + k = (r + 1) * stride + k := fun r => by rw [add_mul]; omega
      have hshift := horner_unshift (alpha_pow_ne_zero i) (fun r => toGF (payloadWord audio (r * stride + k))) (rowCount audio)
      simp only [Nat.zero_mul, Nat.zero_add] at hshift
      simp only [hrows]
      rw [hshift]
      refine horner_congr fun r _ => ?_
      rw [shiftedWord, show (stride : ℤ) + r * stride + c + 2 * s = ((r * stride + k : ℕ) : ℤ) by
        push_cast
        omega, Int.toNat_natCast]
    · obtain ⟨k, hk⟩ := Int.eq_ofNat_of_zero_le (show 0 ≤ (c : ℤ) + 2 * s by omega)
      have hpart : ((c : ℤ) + 2 * s) % (stride : ℤ) = k := by
        rw [hk]
        exact Int.emod_eq_of_lt (by omega) (by omega)
      obtain ⟨wr, syn, hwr, hsyn, hrow⟩ := h.parityRow gf hparity hout (show k < stride by omega)
      rw [hpart, Int.toNat_natCast, hwr, some_bind, hsyn, some_bind, if_neg (by omega), some_bind, if_neg (by omega)]
      refine ⟨syn, rfl, hrow.congr fun i _ => ?_⟩
      rw [plainSyndrome_eq_horner]
      refine horner_congr fun r _ => ?_
      rw [shiftedWord, show (stride : ℤ) + r * stride + c + 2 * s = ((stride + r * stride + k : ℕ) : ℤ) by push_cast; omega,
        Int.toNat_natCast]

/-- Every word of a shifted column is in the payload. -/
theorem Spans.shifted_lt (h : Spans audio) {o : ℤ} (ho : |o| < stride) {c r : ℕ} (hc : c < stride) (hr : r < rowCount audio) :
    0 < (stride : ℤ) + r * stride + c + o ∧ (stride : ℤ) + r * stride + c + o < payloadLen audio := by
  obtain ⟨hlo, hhi⟩ := abs_lt.1 ho
  have hpl := h.payloadLen_eq
  have hrow := Nat.mul_le_mul_right stride (Nat.succ_le_of_lt hr)
  rw [Nat.succ_mul] at hrow
  have hpos : (0 : ℤ) ≤ r * stride := by positivity
  have hrow' : (r : ℤ) * stride + stride ≤ rowCount audio * stride := by exact_mod_cast hrow
  have hpl' : (payloadLen audio : ℤ) = rowCount audio * stride + stride * 2 + (payloadLen audio % stride : ℕ) := by
    exact_mod_cast hpl
  omega

/-- **The syndrome matrix of an image.** Row `c` is the plain syndrome of column `c` of the shifted payload. -/
theorem Spans.getSyndromeMatrix (h : Spans audio) (hparity : computeAudioParity16 audio = some parity16)
    (hctx : cuetoolsBuildSyndromeContext audio = some ctx) {outNpar : ℕ} (hpos : outNpar ≠ 0)
    (hout : outNpar ≤ cuetoolsMaxNpar) {s : ℤ} (hs : |2 * s| < stride) :
    ∃ matrix, cuetoolsGetSyndromeMatrix gf parity16 ctx outNpar s = some matrix ∧ matrix.length = stride ∧
      ∀ c < stride, ∃ row, matrix[c]? = some row ∧ Ctdb.syndromeRowAt gf parity16 ctx outNpar s c = some row ∧
        IsRow row outNpar (plainSyndrome audio (2 * s) c) := by
  obtain ⟨ctx', hctx', hstride, -⟩ := h.buildSyndromeContext
  obtain rfl : ctx' = ctx := Option.some.inj (hctx'.symm.trans hctx)
  obtain ⟨parity, hparity', hlen, -⟩ := h.audioParity16
  obtain rfl : parity = parity16 := Option.some.inj (hparity'.symm.trans hparity)
  have hrow : ∀ c ∈ List.range stride, Ctdb.syndromeRowAt gf parity ctx' outNpar s c =
      some ((Ctdb.syndromeRowAt gf parity ctx' outNpar s c).getD []) := by
    intro c hc
    obtain ⟨syn, hsyn, -⟩ := h.syndromeRowAt gf hparity hctx hout hs (List.mem_range.1 hc)
    rw [hsyn]
    rfl
  refine ⟨_, by rw [cuetoolsGetSyndromeMatrix, if_neg (by omega), hstride, mapM_eq_some hrow], by simp, ?_⟩
  intro c hc
  obtain ⟨syn, hsyn, hsrow⟩ := h.syndromeRowAt gf hparity hctx hout hs hc
  refine ⟨syn, ?_, hsyn, hsrow⟩
  rw [List.getElem?_map, List.getElem?_range hc, Option.map_some, hsyn]
  rfl

theorem Spans.getSyndromeRow (h : Spans audio) (hparity : computeAudioParity16 audio = some parity16)
    (hctx : cuetoolsBuildSyndromeContext audio = some ctx) {outNpar : ℕ} (hout : outNpar ≤ cuetoolsMaxNpar) (s : ℤ) :
    cuetoolsGetSyndromeRow gf parity16 ctx outNpar s = Ctdb.syndromeRowAt gf parity16 ctx outNpar s 0 := by
  obtain ⟨ctx', hctx', hstride, -⟩ := h.buildSyndromeContext
  obtain rfl : ctx' = ctx := Option.some.inj (hctx'.symm.trans hctx)
  obtain ⟨parity, hparity', hlen, -⟩ := h.audioParity16
  obtain rfl : parity = parity16 := Option.some.inj (hparity'.symm.trans hparity)
  rw [cuetoolsGetSyndromeRow, if_neg (by omega)]

end Ctdb
