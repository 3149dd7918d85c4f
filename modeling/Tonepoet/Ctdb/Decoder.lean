import Tonepoet.Ctdb.Syndrome
import Tonepoet.Library.LinearRecurrence

/-!
# `ctdb_rs::decoder` (ctdb_rs/mod.rs:405-652)

Error location in one column: Berlekamp–Massey, Chien search, Forney magnitudes and the residual.
Indices into the polynomials and the syndromes stay within `npar`.
-/

namespace Ctdb

open Rust LinearRecurrence

structure LocatedError where
  row : ℕ
  magnitude : UInt16
  deriving DecidableEq, Repr

/-- `all_zero` (mod.rs:416). -/
def allZero (words : List UInt16) : Bool := words.all (· == 0)

/-- The variables of the Berlekamp–Massey loop. The discrepancy it divides by is never zero. -/
structure BerlekampMassey where
  c : List UInt16
  b : List UInt16
  degree : ℕ
  m : ℕ
  lastDiscrepancy : UInt16
  ne_zero : lastDiscrepancy ≠ 0

variable (gf : Galois16)

namespace BerlekampMassey

def init (npar : ℕ) : BerlekampMassey :=
  ⟨1 :: List.replicate npar 0, 1 :: List.replicate npar 0, 0, 1, 1, by decide⟩

def discrepancy (syndromes : List UInt16) (st : BerlekampMassey) (n : ℕ) : UInt16 :=
  (List.range' 1 (min st.degree n)).foldl (fun discrepancy i =>
    if st.c.getD i 0 ≠ 0 ∧ syndromes.getD (n - i) 0 ≠ 0 then
      discrepancy ^^^ gf.mul (st.c.getD i 0) (syndromes.getD (n - i) 0)
    else discrepancy) (syndromes.getD n 0)

/-- `c[j + m] ^= scale * b[j]` for the `j` that stay inside the array. -/
def addShifted (npar : ℕ) (st : BerlekampMassey) (scale : UInt16) : List UInt16 :=
  if st.m ≤ npar then
    (List.range (npar - st.m + 1)).foldl (fun c j =>
      if st.b.getD j 0 ≠ 0 then c.set (j + st.m) (c.getD (j + st.m) 0 ^^^ gf.mul scale (st.b.getD j 0)) else c) st.c
  else st.c

/-- The loop body for term `n`. -/
def step (syndromes : List UInt16) (npar : ℕ) (st : BerlekampMassey) (n : ℕ) : BerlekampMassey :=
  let discrepancy := discrepancy gf syndromes st n
  if h : discrepancy = 0 then { st with m := st.m + 1 }
  else
    let scale := gf.div discrepancy st.lastDiscrepancy st.ne_zero
    let c := addShifted gf npar st scale
    if 2 * st.degree ≤ n then ⟨c, st.c, n + 1 - st.degree, 1, discrepancy, h⟩
    else { st with c, m := st.m + 1 }

end BerlekampMassey

/-- `rposition(|&v| v != 0)`. -/
def rpositionNonzero (c : List UInt16) : Option ℕ := (List.range c.length).reverse.find? fun i => c.getD i 0 ≠ 0

/-- `berlekamp_massey` (mod.rs:424). -/
def berlekampMassey (syndromes : List UInt16) (npar : ℕ) : Option (List UInt16 × ℕ) :=
  if syndromes.length < npar then none
  else if allZero (syndromes.take npar) then some ([1], 0)
  else
    let st := (List.range npar).foldl (BerlekampMassey.step gf syndromes npar) (BerlekampMassey.init npar)
    let actualDegree := (rpositionNonzero st.c).getD 0
    some (st.c.take (actualDegree + 1), actualDegree)

/-- `eval_poly_at_alpha_exp` (mod.rs:482). -/
def evalPolyAtAlphaExp (poly : List UInt16) (alphaExp : ℕ) : UInt16 :=
  poly.zipIdx.foldl (fun out (coeff, degree) =>
    if coeff ≠ 0 then out ^^^ gf.mulExp coeff (alphaExp * degree % galoisMax) else out) 0

/-- The exponent of the inverse locator. -/
def inverseExp (locatorExp : ℕ) : ℕ := (galoisMax - locatorExp % galoisMax) % galoisMax

/-- `chien_search` (mod.rs:494). -/
def chienSearch (sigma : List UInt16) (errorCount stridecount : ℕ) : Option (List ℕ) :=
  if errorCount = 0 then some []
  else if stridecount = 0 ∨ stridecount > galoisMax then none
  else do
    let rows ← (List.range stridecount).foldlM (fun rows locatorExp =>
      if evalPolyAtAlphaExp gf sigma (inverseExp locatorExp) = 0 then
        let rows := rows ++ [stridecount - 1 - locatorExp]
        if rows.length > errorCount then none else some rows
      else some rows) []
    if rows.length = errorCount then some (rows.mergeSort (· ≤ ·)) else none

/-- `syndrome_evaluator` (mod.rs:526). -/
def syndromeEvaluator (syndromes sigma : List UInt16) (npar : ℕ) : List UInt16 :=
  sigma.zipIdx.foldl (fun omega (a, i) =>
    if a = 0 ∨ i ≥ npar then omega
    else (List.range (npar - i)).foldl (fun omega j =>
      if syndromes.getD j 0 ≠ 0 then omega.set (i + j) (omega.getD (i + j) 0 ^^^ gf.mul a (syndromes.getD j 0))
      else omega) omega) (List.replicate npar 0)

/-- `sigma_derivative_at` (mod.rs:547): the odd degrees. -/
def sigmaDerivativeAt (sigma : List UInt16) (zExp : ℕ) : UInt16 :=
  ((List.range sigma.length).filter fun degree => degree % 2 = 1).foldl (fun out degree =>
    if sigma.getD degree 0 ≠ 0 then out ^^^ gf.mulExp (sigma.getD degree 0) (zExp * (degree - 1) % galoisMax) else out) 0

/-- The body of the loop over the error positions. -/
def forneyAt (omega sigma : List UInt16) (stridecount row : ℕ) : Option UInt16 :=
  if row ≥ stridecount then none
  else
    let locatorExp := stridecount - 1 - row
    let zExp := inverseExp locatorExp
    let omegaValue := evalPolyAtAlphaExp gf omega zExp
    let derivativeValue := sigmaDerivativeAt gf sigma zExp
    if h : derivativeValue = 0 then none
    else some (gf.mul (gf.alphaPow locatorExp) (gf.div omegaValue derivativeValue h))

/-- `forney` (mod.rs:559). -/
def forney (syndromes sigma : List UInt16) (errorPositions : List ℕ) (npar stridecount : ℕ) : Option (List UInt16) :=
  if syndromes.length < npar ∨ stridecount = 0 ∨ stridecount > galoisMax then none
  else errorPositions.mapM (forneyAt gf (syndromeEvaluator gf syndromes sigma npar) sigma stridecount)

/-- `residual_after_correction` (mod.rs:595). -/
def residualAfterCorrection (syndromes : List UInt16) (corrections : List LocatedError) (npar stridecount : ℕ) :
    Option (List UInt16) :=
  if syndromes.length < npar ∨ stridecount = 0 ∨ stridecount > galoisMax then none
  else corrections.foldlM (fun residual correction =>
    if correction.row ≥ stridecount then none
    else
      let locatorExp := stridecount - 1 - correction.row
      some (residual.mapIdx fun k r => r ^^^ gf.mulExp correction.magnitude (locatorExp * k % galoisMax)))
    (syndromes.take npar)

/-- `decode_column_syndromes` (mod.rs:622). -/
def decodeColumnSyndromes (syndromes : List UInt16) (npar stridecount : ℕ) : Option (List LocatedError) :=
  if syndromes.length < npar then none
  else if allZero (syndromes.take npar) then some []
  else do
    let (sigma, errorCount) ← berlekampMassey gf syndromes npar
    if errorCount = 0 ∨ errorCount > npar / 2 then none
    else do
      let positions ← chienSearch gf sigma errorCount stridecount
      let magnitudes ← forney gf syndromes sigma positions npar stridecount
      let corrections := List.zipWith LocatedError.mk positions magnitudes
      let residual ← residualAfterCorrection gf syndromes corrections npar stridecount
      if allZero residual then some corrections else none

end Ctdb
