import Tonepoet.Ctdb.Galois
import Tonepoet.Library.ShiftRegister

/-!
# `ctdb_rs::syndrome`: the systematic encoder (ctdb_rs/mod.rs:13-273)

One column of the image goes word by word through a shift register. At the roots
`alpha^0, …, alpha^(npar - 1)` of the generator the register has the value of the whole column.
-/

namespace Ctdb

open ShiftRegister

/-- `STRIDE`: 10 CD sectors of 588 stereo samples, in words. -/
@[irreducible] def stride : ℕ := 11760

inductive CtdbRsError where
  | invalidNpar (npar : ℕ)
  | invalidAudioLength (words stride : ℕ)
  | invalidParityLength (got needAtLeast : ℕ)
  | invalidParityShape (stride npar : ℕ)
  deriving DecidableEq, Repr

def CtdbRsError.message : CtdbRsError → String
  | invalidNpar npar => s!"invalid npar {npar}; CTDB-compatible values are 4, 8, or 16"
  | invalidAudioLength words stride =>
    s!"audio has {words} u16 words; need at least two full CTDB rows of {stride} words"
  | invalidParityLength got needAtLeast => s!"parity byte buffer has {got} bytes; need at least {needAtLeast} bytes"
  | invalidParityShape stride npar => s!"parity matrix does not contain {stride} columns with {npar} symbols each"

/-- `validate_npar` (mod.rs:188). -/
def validateNpar (npar : ℕ) : Except CtdbRsError Unit :=
  if npar = 4 ∨ npar = 8 ∨ npar = 16 then .ok () else .error (.invalidNpar npar)

/-- `data_row_count` (mod.rs:195). -/
def dataRowCount (audioWords : ℕ) : Except CtdbRsError ℕ :=
  if audioWords < stride * 2 then .error (.invalidAudioLength audioWords stride) else .ok (audioWords / stride - 2)

variable (gf : Galois16)

/-- The loop over `j` of `make_generator_poly`: an entry reads the old value of the next one. -/
def mulRootWords (root : UInt16) : List UInt16 → List UInt16
  | [] => []
  | [g] => [gf.mul g root]
  | g :: g' :: gx => (gf.mul g root ^^^ g') :: mulRootWords root (g' :: gx)

/-- `make_generator_poly` (mod.rs:210). -/
def makeGeneratorPoly (npar : ℕ) : Except CtdbRsError (List UInt16) := do
  validateNpar npar
  .ok ((List.range npar).foldl (fun gx rootExp => mulRootWords gf (gf.alphaPow rootExp) gx)
    (List.replicate (npar - 1) 0 ++ [1]))

/-- `update_lfsr` (mod.rs:229): each register word moves up by one and takes its share of the feedback. -/
def updateLfsr (gx wr : List UInt16) (dataWord : UInt16) : List UInt16 :=
  let feedback := wr.headD 0 ^^^ dataWord
  List.zipWith (fun w g => w ^^^ gf.mul g feedback) (wr.tail ++ [0]) gx

/-- One column of `compute_parity_matrix_from_audio`. Its indices stay below
    `STRIDE + rows * STRIDE + STRIDE ≤ audio.len()`. -/
def columnParity (gx : List UInt16) (audio : List Int16) (npar rows col : ℕ) : List UInt16 :=
  (List.range rows).foldl (fun wr row => updateLfsr gf gx wr (audio.getD (stride + row * stride + col) 0).toUInt16)
    (List.replicate npar 0)

/-- `compute_parity_matrix_from_audio` (mod.rs:253). -/
def computeParityMatrixFromAudio (audio : List Int16) (npar : ℕ) : Except CtdbRsError (List (List UInt16)) := do
  let rows ← dataRowCount audio.length
  let gx ← makeGeneratorPoly gf npar
  .ok ((List.range stride).map (columnParity gf gx audio npar rows))

/-! ## The encoder in the field -/

theorem stride_eq : stride = 11760 := by rw [stride]

theorem stride_pos : 0 < stride := by rw [stride_eq]; decide

theorem map_mulRootWords (root : UInt16) : ∀ gx : List UInt16,
    (mulRootWords gf root gx).map toGF = mulRoot (toGF root) (gx.map toGF)
  | [] => rfl
  | [g] => by simp [mulRootWords, mulRoot]
  | g :: g' :: gx => by
    rw [mulRootWords, List.map_cons, map_mulRootWords root (g' :: gx), toGF_xor, Galois16.toGF_mul]
    rfl

theorem map_updateLfsr (gx wr : List UInt16) (d : UInt16) :
    (updateLfsr gf gx wr d).map toGF = feed (gx.map toGF) (wr.map toGF) (toGF d) := by
  have hhead : (wr.map toGF).headD 0 = toGF (wr.headD 0) := by cases wr <;> simp
  have htail : (wr.map toGF).tail ++ [0] = (wr.tail ++ [0]).map toGF := by cases wr <;> simp
  rw [feed, hhead, htail, updateLfsr, List.map_zipWith, List.zipWith_map]
  simp only [toGF_xor, Galois16.toGF_mul]

theorem map_foldl_mulRootWords (exps : List ℕ) (gx : List UInt16) :
    (exps.foldl (fun gx e => mulRootWords gf (gf.alphaPow e) gx) gx).map toGF =
      exps.foldl (fun gs e => mulRoot (alpha ^ e) gs) (gx.map toGF) := by
  induction exps generalizing gx with
  | nil => rfl
  | cons e exps ih => rw [List.foldl_cons, List.foldl_cons, ih, map_mulRootWords, Galois16.toGF_alphaPow]

theorem map_foldl_updateLfsr (gx : List UInt16) (f : ℕ → UInt16) (rows : List ℕ) (wr : List UInt16) :
    (rows.foldl (fun wr row => updateLfsr gf gx wr (f row)) wr).map toGF =
      rows.foldl (fun wr row => feed (gx.map toGF) wr (toGF (f row))) (wr.map toGF) := by
  induction rows generalizing wr with
  | nil => rfl
  | cons row rows ih => rw [List.foldl_cons, List.foldl_cons, ih, map_updateLfsr]

/-- The generator of a valid `npar` has the roots `alpha^0, …, alpha^(npar - 1)`. -/
theorem makeGeneratorPoly_ok {npar : ℕ} (hnpar : validateNpar npar = .ok ()) :
    ∃ gx, makeGeneratorPoly gf npar = .ok gx ∧ gx.length = npar ∧
      ∀ x < npar, value (alpha ^ x) (gx.map toGF) = (alpha ^ x) ^ npar := by
  refine ⟨_, by rw [makeGeneratorPoly, hnpar]; rfl, ?_⟩
  have hmap := map_foldl_mulRootWords gf (List.range npar) (List.replicate (npar - 1) 0 ++ [1])
  rw [List.map_append, List.map_replicate, toGF_zero, List.map_singleton, toGF_one] at hmap
  have hpos : 0 < npar := by
    by_contra h
    obtain rfl : npar = 0 := by omega
    exact absurd hnpar (by decide)
  refine ⟨?_, fun x hx => ?_⟩
  · rw [← List.length_map toGF, hmap]
    exact (value_generator (fun e => alpha ^ e) hpos).1
  · rw [hmap]
    exact (value_generator (fun e => alpha ^ e) hx).2

/-- **The register of a column has the column's value at every root.** -/
theorem columnParity_spec {gx : List UInt16} {npar : ℕ} (hpos : 0 < npar) (hlen : gx.length = npar)
    (hroot : ∀ x < npar, value (alpha ^ x) (gx.map toGF) = (alpha ^ x) ^ npar) (audio : List Int16) (rows col : ℕ) :
    (columnParity gf gx audio npar rows col).length = npar ∧ ∀ x < npar,
      value (alpha ^ x) ((columnParity gf gx audio npar rows col).map toGF) = (alpha ^ x) ^ npar *
        horner (alpha ^ x) (fun row => toGF (audio.getD (stride + row * stride + col) 0).toUInt16) rows := by
  have hmap := map_foldl_updateLfsr gf gx (fun row => (audio.getD (stride + row * stride + col) 0).toUInt16)
    (List.range rows) (List.replicate npar 0)
  have hgx : (gx.map toGF).length = npar := by rw [List.length_map, hlen]
  rw [List.map_replicate, toGF_zero] at hmap
  have hspec := fun x (hx : x < npar) => @value_foldl_feed _ _ (alpha ^ x) (gx.map toGF) (by rw [hgx]; exact hpos)
    (by rw [hgx]; exact hroot x hx) (fun row => toGF (audio.getD (stride + row * stride + col) 0).toUInt16) rows
  rw [hgx] at hspec
  refine ⟨?_, fun x hx => ?_⟩
  · rw [← List.length_map toGF, columnParity, hmap]
    exact (hspec 0 hpos).1
  · rw [columnParity, hmap]
    exact (hspec x hx).2

theorem dataRowCount_ok {n : ℕ} (h : stride * 2 ≤ n) : dataRowCount n = .ok (n / stride - 2) := if_neg (by omega)

/-- **The parity matrix of an image**, column by column. -/
theorem computeParityMatrixFromAudio_ok {npar : ℕ} (hnpar : validateNpar npar = .ok ()) (audio : List Int16)
    (haudio : stride * 2 ≤ audio.length) :
    ∃ parity, computeParityMatrixFromAudio gf audio npar = .ok parity ∧ parity.length = stride ∧
      ∀ col < stride, ∃ wr, parity[col]? = some wr ∧ wr.length = npar ∧ ∀ x < npar,
        value (alpha ^ x) (wr.map toGF) = (alpha ^ x) ^ npar *
          horner (alpha ^ x) (fun row => toGF (audio.getD (stride + row * stride + col) 0).toUInt16)
            (audio.length / stride - 2) := by
  obtain ⟨gx, hgx, hlen, hroot⟩ := makeGeneratorPoly_ok gf hnpar
  have hpos : 0 < npar := by
    by_contra h
    obtain rfl : npar = 0 := by omega
    exact absurd hnpar (by decide)
  refine ⟨_, by rw [computeParityMatrixFromAudio, dataRowCount_ok haudio, hgx]; rfl, by simp, ?_⟩
  intro col hcol
  refine ⟨_, by rw [List.getElem?_map, List.getElem?_range hcol]; rfl, ?_⟩
  exact columnParity_spec gf hpos hlen hroot audio (audio.length / stride - 2) col

end Ctdb
