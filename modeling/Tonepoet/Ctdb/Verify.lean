import Tonepoet.Ctdb.RepairPlan

/-!
# `ctdb_rs::codec`: verification (ctdb_rs/mod.rs:282-408, 738-943)

The parity of the audio and the parity it is checked against both go through the syndrome transform,
and the two matrices are compared. The transform is one-to-one, so that equal syndromes mean equal
parity; and no two columns with the same parity differ in between one and `npar` rows.
-/

namespace Ctdb

open Rust ShiftRegister ErrorLocator

variable (gf : Galois16)

/-- `try_bytes_to_parity` (mod.rs:282). -/
def tryBytesToParity (data : List UInt8) (stride npar : ℕ) : Except CtdbRsError (List (List UInt16)) := do
  validateNpar npar
  let need := stride * npar * 2
  if data.length < need then .error (.invalidParityLength data.length need)
  else .ok ((List.range stride).map fun j => (List.range npar).map fun i =>
    let offset := (j + i * stride) * 2
    u16FromLeBytes (data.getD offset 0) (data.getD (offset + 1) 0))

/-- `check_parity_shape` (mod.rs:330). -/
def checkParityShape (parity : List (List UInt16)) (stride npar : ℕ) : Except CtdbRsError Unit :=
  if parity.length < stride ∨ (parity.take stride).any (fun row => row.length < npar) then
    .error (.invalidParityShape stride npar)
  else .ok ()

/-- The body of the loop over `x1`. A logarithm plus `MAX` is an index of the table, and stays one less
    `(1 + x1) * x`, which is below 256. -/
def addSymbolTerms (syn : List UInt16) (par : UInt16) (x1 : ℕ) : List UInt16 :=
  if par = 0 then syn
  else
    let llo := gf.logEntry par + galoisMax
    syn.mapIdx fun x s =>
      have : llo - (1 + x1) * x < galoisMax * 2 := by
        have := gf.logEntry_lt par
        omega
      s ^^^ gf.expTbl[llo - (1 + x1) * x]

/-- One row of the syndrome matrix. -/
def parityColumnToSyndrome (column : List UInt16) (npar : ℕ) : List UInt16 :=
  (List.range npar).foldl (fun syn x1 => addSymbolTerms gf syn (column.getD x1 0) x1) (List.replicate npar 0)

/-- `parity_to_syndrome_with_word_offset` (mod.rs:345). -/
def parityToSyndromeWithWordOffset (parity : List (List UInt16)) (npar stride : ℕ) (wordOffset : ℤ) :
    Except CtdbRsError (List (List UInt16)) := do
  validateNpar npar
  checkParityShape parity stride npar
  .ok ((List.range stride).map fun (y : ℕ) =>
    let y1 := (((y : ℤ) - wordOffset) % (stride : ℤ)).toNat
    parityColumnToSyndrome gf (parity.getD y1 []) npar)

/-- `xor_syndrome_matrices` (mod.rs:398). The shapes it asserts are those of the transform. -/
def xorSyndromeMatrices (lhs rhs : List (List UInt16)) : List (List UInt16) :=
  List.zipWith (fun a b => List.zipWith (· ^^^ ·) a b) lhs rhs

structure VerifyResult where
  /-- `matches`. -/
  isMatch : Bool
  errorColumns : ℕ
  nonzeroSyndromes : ℕ
  columnMagnitudes : List UInt16
  deriving DecidableEq, Repr

/-- The bitwise OR of a column's symbols. -/
def columnMagnitude (column : List UInt16) : UInt16 := column.foldl (fun magnitude value => magnitude ||| value) 0

/-- `VerifyResult::from_syndromes` (mod.rs:917). -/
def VerifyResult.fromSyndromes (syndromes : List (List UInt16)) : VerifyResult :=
  let magnitudes := syndromes.map columnMagnitude
  let errorColumns := magnitudes.countP (· ≠ 0)
  { isMatch := errorColumns == 0
    errorColumns
    nonzeroSyndromes := (syndromes.map fun column => column.countP (· ≠ 0)).sum
    columnMagnitudes := magnitudes }

/-- `map_err(RepairError::from)`. -/
def mapErr {α : Type} : Except CtdbRsError α → Except RepairError α
  | .ok a => .ok a
  | .error e => .error (.ofCtdbRsError e)

theorem mapErr_ok_bind {α β : Type} (a : α) (f : α → Except RepairError β) : (mapErr (.ok a) >>= f) = f a := rfl

/-- `syndrome_delta_with_word_offset` (mod.rs:874). -/
def syndromeDeltaWithWordOffset (audio : List Int16) (parityBytes : List UInt8) (npar : ℕ) (wordOffset : ℤ) :
    Except RepairError (List (List UInt16)) := do
  mapErr (validateNpar npar)
  let computed ← mapErr (computeParityMatrixFromAudio gf audio npar)
  let provided ← mapErr (tryBytesToParity parityBytes stride npar)
  let computedSyndrome ← mapErr (parityToSyndromeWithWordOffset gf computed npar stride 0)
  let providedSyndrome ← mapErr (parityToSyndromeWithWordOffset gf provided npar stride wordOffset)
  .ok (xorSyndromeMatrices computedSyndrome providedSyndrome)

/-- `try_verify_with_word_offset` (mod.rs:738). -/
def tryVerifyWithWordOffset (audio : List Int16) (parityBytes : List UInt8) (npar : ℕ) (wordOffset : ℤ) :
    Except RepairError VerifyResult := do
  let syndromes ← syndromeDeltaWithWordOffset gf audio parityBytes npar wordOffset
  .ok (VerifyResult.fromSyndromes syndromes)

/-- `try_compute_parity` (mod.rs:676). -/
def tryComputeParity (audio : List Int16) (npar : ℕ) : Except CtdbRsError (List UInt8) := do
  let parity ← computeParityMatrixFromAudio gf audio npar
  .ok (parityToBytes parity stride npar)

/-! ## Few differences are seen at the roots -/

/-- Two columns that differ in at most `m` rows and agree at `m` roots are equal. -/
theorem eq_of_horner {n m : ℕ} (hmax : n ≤ galoisMax) {f g : ℕ → UInt16}
    (hfew : ((List.range n).filter fun r => f r ≠ g r).length ≤ m)
    (h : ∀ x < m, horner (alpha ^ x) (fun r => toGF (f r)) n = horner (alpha ^ x) (fun r => toGF (g r)) n) :
    ∀ r < n, f r = g r := by
  classical
  obtain ⟨s, hs⟩ : ∃ s, (List.range n).filter (fun r => f r ≠ g r) = s := ⟨_, rfl⟩
  rw [hs] at hfew
  have hmem : ∀ r, r ∈ s ↔ r < n ∧ f r ≠ g r := by
    intro r
    simp [← hs]
  have hnodup : s.Nodup := by
    rw [← hs]
    exact List.nodup_range.filter _
  have hlocated := located_rows hmax (s := s.toFinset) fun r hr => ((hmem r).1 (List.mem_toFinset.1 hr)).1
  have hzero := hlocated.eq_zero_of_powerSum (e := fun r => toGF (f r) - toGF (g r)) ?_
  · intro r hr
    by_contra hne
    have := hzero r (List.mem_toFinset.2 ((hmem r).2 ⟨hr, hne⟩))
    exact hne (toGF_injective (sub_eq_zero.1 this))
  · intro k hk
    rw [List.toFinset_card_of_nodup hnodup] at hk
    have hsub : s.toFinset ⊆ Finset.range n := by
      intro r hr
      exact Finset.mem_range.2 ((hmem r).1 (List.mem_toFinset.1 hr)).1
    have hdiff := sub_eq_zero.2 (h k (by omega))
    rw [horner, horner, ← Finset.sum_sub_distrib] at hdiff
    rw [powerSum, Finset.sum_subset hsub fun r hr hr' => ?_, ← hdiff]
    · refine Finset.sum_congr rfl fun r _ => ?_
      rw [rowLocator, ← pow_mul, ← pow_mul, mul_comm k, sub_mul]
    · have heq : f r = g r := by
        by_contra hne
        exact hr' (List.mem_toFinset.2 ((hmem r).2 ⟨Finset.mem_range.1 hr, hne⟩))
      rw [heq, sub_self, zero_mul]

/-- Registers with the same value at every root are equal. -/
theorem eq_of_value {wr wr' : List UInt16} {npar : ℕ} (hlen : wr.length = npar) (hlen' : wr'.length = npar)
    (hmax : npar ≤ galoisMax)
    (h : ∀ x < npar, value (alpha ^ x) (wr.map toGF) = value (alpha ^ x) (wr'.map toGF)) : wr = wr' := by
  have hhorner : ∀ {ws : List UInt16}, ws.length = npar → ∀ x,
      value (alpha ^ x) (ws.map toGF) = horner (alpha ^ x) (fun r => toGF (ws.getD r 0)) npar := by
    intro ws hws x
    rw [value_eq_horner, List.length_map, hws]
    refine horner_congr fun r _ => ?_
    rw [← toGF_zero, List.getD_map]
  have heq := eq_of_horner hmax (f := fun r => wr.getD r 0) (g := fun r => wr'.getD r 0)
    ((List.length_filter_le _ _).trans_eq List.length_range) fun x hx => by
      rw [← hhorner hlen, ← hhorner hlen', h x hx]
  apply List.ext_getElem (hlen.trans hlen'.symm)
  intro i hi hi'
  have := heq i (hlen ▸ hi)
  rwa [List.getD_eq_getElem _ _ hi, List.getD_eq_getElem _ _ hi'] at this

/-! ## The transform -/

theorem npar_le_max {npar : ℕ} (h : validateNpar npar = .ok ()) : 0 < npar ∧ npar ≤ 16 := by
  unfold validateNpar at h
  split at h
  · omega
  · cases h

theorem addSymbolTerms_isRow {syn : List UInt16} {npar x1 : ℕ} {f : ℕ → GF} (h : IsRow syn npar f) (hnpar : npar ≤ 16)
    (hx1 : x1 < npar) (par : UInt16) :
    IsRow (addSymbolTerms gf syn par x1) npar fun x => f x + toGF par / alpha ^ ((1 + x1) * x) := by
  unfold addSymbolTerms
  by_cases hpar : par = 0
  · rw [if_pos hpar]
    refine h.congr fun x _ => ?_
    rw [hpar, toGF_zero, zero_div, add_zero]
  · rw [if_neg hpar]
    refine ⟨by simp [h.length], fun x hx => ?_⟩
    have hx' : x < syn.length := by rw [h.length]; exact hx
    have hsym := h.symbol x hx
    rw [List.getD_eq_getElem _ _ hx'] at hsym
    have hsmall : (1 + x1) * x ≤ galoisMax := by
      refine (Nat.mul_le_mul (show 1 + x1 ≤ 16 by omega) (show x ≤ 16 by omega)).trans ?_
      rw [galoisMax, fieldSize]
      decide
    rw [List.getD_eq_getElem _ _ (by simpa using hx'), List.getElem_mapIdx, toGF_xor, hsym, Galois16.toGF_expTbl]
    congr 1
    rw [eq_div_iff (alpha_pow_ne_zero _), ← pow_add,
      show gf.logEntry par + galoisMax - (1 + x1) * x + (1 + x1) * x = gf.logEntry par + galoisMax by omega, pow_add,
      alpha_pow_galoisMax, mul_one, gf.alpha_pow_logEntry hpar]

/-- A column's syndromes are its values at the roots, scaled back. -/
theorem parityColumnToSyndrome_isRow {wr : List UInt16} {npar : ℕ} (hlen : wr.length = npar) (hnpar : npar ≤ 16) :
    IsRow (parityColumnToSyndrome gf wr npar) npar fun x => value (alpha ^ x) (wr.map toGF) / (alpha ^ x) ^ npar := by
  have hfold : ∀ k ≤ npar, IsRow ((List.range k).foldl (fun syn x1 => addSymbolTerms gf syn (wr.getD x1 0) x1)
      (List.replicate npar 0)) npar fun x => ∑ x1 ∈ Finset.range k, toGF (wr.getD x1 0) / alpha ^ ((1 + x1) * x) := by
    intro k hk
    induction k with
    | zero => exact ⟨by simp, fun i hi => by simp [hi]⟩
    | succ k ih =>
      rw [List.range_succ, List.foldl_append]
      refine (addSymbolTerms_isRow gf (ih (by omega)) hnpar (by omega) _).congr fun x _ => ?_
      rw [Finset.sum_range_succ]
  exact (hfold npar le_rfl).congr fun x _ => sum_div_eq_value hlen x

/-- **The transform is one-to-one.** -/
theorem parityColumnToSyndrome_injective {wr wr' : List UInt16} {npar : ℕ} (hlen : wr.length = npar)
    (hlen' : wr'.length = npar) (hnpar : npar ≤ 16)
    (h : parityColumnToSyndrome gf wr npar = parityColumnToSyndrome gf wr' npar) : wr = wr' := by
  refine eq_of_value hlen hlen' (hnpar.trans (by decide)) fun x hx => ?_
  have hsym := (parityColumnToSyndrome_isRow gf hlen hnpar).symbol x hx
  rw [h, (parityColumnToSyndrome_isRow gf hlen' hnpar).symbol x hx] at hsym
  exact ((div_left_inj' (pow_ne_zero npar (alpha_pow_ne_zero x))).1 hsym).symm

theorem parityToSyndrome_ok {parity : List (List UInt16)} {npar : ℕ} (hnpar : validateNpar npar = .ok ())
    (h : IsMatrix parity stride npar) : parityToSyndromeWithWordOffset gf parity npar stride 0 =
      .ok ((List.range stride).map fun y => parityColumnToSyndrome gf (parity.getD y []) npar) := by
  have hshape : checkParityShape parity stride npar = .ok () := by
    refine if_neg ?_
    rintro (hlen | hany)
    · exact hlen.ne h.1
    · obtain ⟨row, hrow, hshort⟩ := List.any_eq_true.1 hany
      obtain ⟨c, hc⟩ := List.mem_iff_getElem?.1 (List.mem_of_mem_take hrow)
      have hlt : c < stride := by
        rw [← h.1]
        exact (List.getElem?_eq_some_iff.1 hc).1
      have hget : row = parity.getD c [] := Option.some.inj (hc.symm.trans (h.getElem? hlt))
      simp only [hget, h.2 c hlt, lt_irrefl, decide_false, Bool.false_eq_true] at hshort
  rw [parityToSyndromeWithWordOffset, hnpar, hshape]
  refine congrArg Except.ok (List.map_congr_left fun y hy => ?_)
  have hmod : (((y : ℤ) - 0) % (stride : ℤ)).toNat = y := by
    rw [sub_zero, Int.emod_eq_of_lt (by omega) (by exact_mod_cast List.mem_range.1 hy), Int.toNat_natCast]
  simp only [hmod]

/-! ## The comparison -/

theorem or_eq_zero {a b : UInt16} : a ||| b = 0 ↔ a = 0 ∧ b = 0 := by
  rw [← UInt16.toBitVec_inj, ← UInt16.toBitVec_inj, ← UInt16.toBitVec_inj, UInt16.toBitVec_or]
  exact BitVec.or_eq_zero_iff

theorem foldl_or_eq_zero (column : List UInt16) (magnitude : UInt16) :
    column.foldl (fun magnitude value => magnitude ||| value) magnitude = 0 ↔ magnitude = 0 ∧ ∀ v ∈ column, v = 0 := by
  induction column generalizing magnitude with
  | nil => simp
  | cons v column ih => rw [List.foldl_cons, ih, or_eq_zero, List.forall_mem_cons, and_assoc]

/-- The result is a match when every symbol is zero. -/
theorem fromSyndromes_isMatch (syndromes : List (List UInt16)) :
    (VerifyResult.fromSyndromes syndromes).isMatch = true ↔ ∀ column ∈ syndromes, ∀ v ∈ column, v = 0 := by
  simp only [VerifyResult.fromSyndromes, beq_iff_eq, List.countP_eq_zero, List.forall_mem_map, decide_eq_true_eq, not_not]
  refine forall₂_congr fun column _ => ?_
  rw [columnMagnitude, foldl_or_eq_zero]
  simp

theorem zipWith_xor_eq_zero : ∀ {a b : List UInt16}, a.length = b.length →
    ((∀ v ∈ List.zipWith (· ^^^ ·) a b, v = 0) ↔ a = b)
  | [], [], _ => by simp
  | x :: a, y :: b, h => by
    have hlen : a.length = b.length := by simpa using h
    rw [List.zipWith_cons_cons, List.forall_mem_cons, zipWith_xor_eq_zero hlen, UInt16.xor_eq_zero_iff, List.cons_eq_cons]
  | [], _ :: _, h => by simp at h
  | _ :: _, [], h => by simp at h

/-- **Equal syndromes, equal parity.** -/
theorem xorSyndromes_eq_zero {a b : List (List UInt16)} {npar : ℕ} (ha : IsMatrix a stride npar) (hb : IsMatrix b stride npar)
    (hnpar : npar ≤ 16) :
    (∀ column ∈ xorSyndromeMatrices ((List.range stride).map fun y => parityColumnToSyndrome gf (a.getD y []) npar)
      ((List.range stride).map fun y => parityColumnToSyndrome gf (b.getD y []) npar), ∀ v ∈ column, v = 0) ↔ a = b := by
  have hrow := fun {m : List (List UInt16)} (hm : IsMatrix m stride npar) {y : ℕ} (hy : y < stride) =>
    (parityColumnToSyndrome_isRow gf (hm.2 y hy) hnpar).length
  rw [xorSyndromeMatrices, List.zipWith_map, List.zipWith_self]
  simp only [List.forall_mem_map, List.mem_range]
  constructor
  · intro h
    have hcolumn : ∀ y < stride, a.getD y [] = b.getD y [] := fun y hy =>
      parityColumnToSyndrome_injective gf (ha.2 y hy) (hb.2 y hy) hnpar
        ((zipWith_xor_eq_zero ((hrow ha hy).trans (hrow hb hy).symm)).1 (h y hy))
    exact ha.ext hb fun c hc i _ => by rw [hcolumn c hc]
  · rintro rfl y hy
    exact (zipWith_xor_eq_zero rfl).2 rfl

/-! ## The bytes -/

theorem low_u16FromLeBytes (lo hi : UInt8) : (u16FromLeBytes lo hi).toUInt8 = lo ∧ (u16FromLeBytes lo hi >>> 8).toUInt8 = hi := by
  have hlo := lo.toNat_lt
  have hhi := hi.toNat_lt
  have hhigh : (hi.toUInt16 <<< 8).toNat = 2 ^ 8 * hi.toNat := by
    simp [Nat.shiftLeft_eq]
    omega
  have hword : (u16FromLeBytes lo hi).toNat = 2 ^ 8 * hi.toNat + lo.toNat := by
    rw [u16FromLeBytes, UInt16.toNat_or, hhigh, UInt8.toNat_toUInt16, Nat.or_comm, ← Nat.two_pow_add_eq_or_of_lt hlo]
  refine ⟨UInt8.toNat_inj.1 ?_, UInt8.toNat_inj.1 ?_⟩
  · rw [UInt16.toNat_toUInt8, hword]
    omega
  · rw [UInt16.toNat_toUInt8, UInt16.toNat_shiftRight, hword, Nat.shiftRight_eq_div_pow,
      show (8 : UInt16).toNat % 16 = 8 by decide]
    omega

/-- The words of a byte string. -/
def blobMatrix (data : List UInt8) (s npar : ℕ) : List (List UInt16) :=
  (List.range s).map fun j => (List.range npar).map fun i => blobWord data s j i

theorem isMatrix_blobMatrix (data : List UInt8) (s npar : ℕ) : IsMatrix (blobMatrix data s npar) s npar := by
  refine ⟨by simp [blobMatrix], fun c hc => ?_⟩
  rw [blobMatrix, getD_map_range _ _ hc, List.length_map, List.length_range]

theorem tryBytesToParity_ok {data : List UInt8} {s npar : ℕ} (hnpar : validateNpar npar = .ok ())
    (hlen : s * npar * 2 ≤ data.length) : tryBytesToParity data s npar = .ok (blobMatrix data s npar) := by
  rw [tryBytesToParity, hnpar]
  exact if_neg (by omega)

/-- Writing the words of a byte string gives its first bytes back. -/
theorem parityToBytes_blobMatrix {data : List UInt8} {s npar : ℕ} (hlen : s * npar * 2 ≤ data.length) :
    parityToBytes (blobMatrix data s npar) s npar = data.take (s * npar * 2) := by
  apply List.ext_getElem
  · rw [parityToBytes, List.length_map, List.length_range, List.length_take, min_eq_left hlen]
  · intro k hk hk'
    have hk : k < s * npar * 2 := by simpa [parityToBytes] using hk
    have hs : 0 < s := by
      rcases Nat.eq_zero_or_pos s with rfl | hs
      · simp at hk
      · exact hs
    have hcol := Nat.mod_lt (k / 2) hs
    have hrow : k / 2 / s < npar := by
      rw [Nat.div_lt_iff_lt_mul hs, mul_comm]
      omega
    have haddr : k / 2 % s + k / 2 / s * s = k / 2 := by rw [mul_comm, Nat.mod_add_div]
    simp only [parityToBytes, List.getElem_map, List.getElem_range, List.getElem_take]
    rw [blobMatrix, getD_map_range _ _ hcol, getD_map_range _ _ hrow, blobWord, haddr, (low_u16FromLeBytes _ _).1,
      (low_u16FromLeBytes _ _).2]
    split
    · rw [show k / 2 * 2 = k by omega, List.getD_eq_getElem]
    · rw [show k / 2 * 2 + 1 = k by omega, List.getD_eq_getElem]

/-- **Bytes and words say the same.** -/
theorem take_eq_parityToBytes_iff {data : List UInt8} {s npar : ℕ} (hlen : s * npar * 2 ≤ data.length)
    (hfits : s * npar * 2 ≤ usizeMax) {parity : List (List UInt16)} (hparity : IsMatrix parity s npar) :
    data.take (s * npar * 2) = parityToBytes parity s npar ↔ parity = blobMatrix data s npar := by
  constructor
  · intro h
    have hround := bytesToSyndromeMatrix_eq_some (bytesToSyndromeMatrix_parityToBytes hparity hfits)
    rw [← parityToBytes_blobMatrix hlen] at h
    rw [hround, ← h]
    exact (bytesToSyndromeMatrix_eq_some
      (bytesToSyndromeMatrix_parityToBytes (isMatrix_blobMatrix data s npar) hfits)).symm
  · rintro rfl
    exact (parityToBytes_blobMatrix hlen).symm

/-! ## Verification -/

variable {audio audio' : List Int16} {npar : ℕ}

/-- The parity matrix of an image has the shape of the transform. -/
theorem computeParity_isMatrix (hnpar : validateNpar npar = .ok ()) (haudio : stride * 2 ≤ audio.length) :
    ∃ parity, computeParityMatrixFromAudio gf audio npar = .ok parity ∧ IsMatrix parity stride npar ∧
      ∀ col < stride, ∀ x < npar, value (alpha ^ x) ((parity.getD col []).map toGF) = (alpha ^ x) ^ npar *
        horner (alpha ^ x) (fun row => toGF (audio.getD (stride + row * stride + col) 0).toUInt16)
          (audio.length / stride - 2) := by
  obtain ⟨parity, hparity, hlen, hcol⟩ := computeParityMatrixFromAudio_ok gf hnpar audio haudio
  refine ⟨parity, hparity, ⟨hlen, fun c hc => ?_⟩, fun c hc x hx => ?_⟩
  · obtain ⟨wr, hwr, hwrlen, -⟩ := hcol c hc
    rw [List.getD_eq_getElem?_getD, hwr, Option.getD_some, hwrlen]
  · obtain ⟨wr, hwr, -, hval⟩ := hcol c hc
    rw [List.getD_eq_getElem?_getD, hwr, Option.getD_some, hval x hx]

/-- Verification compares the parity matrix with the words of the bytes. -/
theorem tryVerify_isMatch (hnpar : validateNpar npar = .ok ()) {parity : List (List UInt16)}
    (hparity : computeParityMatrixFromAudio gf audio npar = .ok parity) (hmatrix : IsMatrix parity stride npar)
    {data : List UInt8} (hdata : stride * npar * 2 ≤ data.length) :
    ∃ result, tryVerifyWithWordOffset gf audio data npar 0 = .ok result ∧
      (result.isMatch = true ↔ parity = blobMatrix data stride npar) := by
  have hblob := isMatrix_blobMatrix data stride npar
  have hdelta : syndromeDeltaWithWordOffset gf audio data npar 0 = .ok (xorSyndromeMatrices
      ((List.range stride).map fun y => parityColumnToSyndrome gf (parity.getD y []) npar)
      ((List.range stride).map fun y => parityColumnToSyndrome gf ((blobMatrix data stride npar).getD y []) npar)) := by
    rw [syndromeDeltaWithWordOffset, hnpar, mapErr_ok_bind, hparity, mapErr_ok_bind, tryBytesToParity_ok hnpar hdata,
      mapErr_ok_bind, parityToSyndrome_ok gf hnpar hmatrix, mapErr_ok_bind, parityToSyndrome_ok gf hnpar hblob,
      mapErr_ok_bind]
  refine ⟨_, by rw [tryVerifyWithWordOffset, hdelta]; rfl, ?_⟩
  rw [fromSyndromes_isMatch, xorSyndromes_eq_zero gf hmatrix hblob (npar_le_max hnpar).2]

/-- The rows in which a column of two images differs. -/
def differingRows (audio audio' : List Int16) (col : ℕ) : List ℕ :=
  (List.range (audio.length / stride - 2)).filter fun row =>
    audio.getD (stride + row * stride + col) 0 ≠ audio'.getD (stride + row * stride + col) 0

theorem bytes_fit (hnpar : validateNpar npar = .ok ()) : stride * npar * 2 ≤ usizeMax := by
  have hmax := (npar_le_max hnpar).2
  rw [stride_eq]
  have husize : 11760 * 16 * 2 ≤ usizeMax := by decide
  omega

/-- **Verification is exact and detects up to `npar` damaged rows a column.** The parity bytes match when
they are the parity of the audio, and the parity of an image never matches another image with as many
rows that differs from it in between one and `npar` rows of some column. -/
theorem tryVerify_exact (hnpar : npar = 4 ∨ npar = 8 ∨ npar = 16) (haudio : stride * 2 ≤ audio.length) :
    ∃ bytes, tryComputeParity gf audio npar = .ok bytes ∧
      (∀ data : List UInt8, stride * npar * 2 ≤ data.length →
        ∃ result, tryVerifyWithWordOffset gf audio data npar 0 = .ok result ∧
          (result.isMatch = true ↔ data.take (stride * npar * 2) = bytes)) ∧
      ∀ audio' : List Int16, audio'.length / stride = audio.length / stride → audio.length / stride - 2 ≤ 65535 →
        ∀ col < stride, 1 ≤ (differingRows audio audio' col).length → (differingRows audio audio' col).length ≤ npar →
          ∃ result, tryVerifyWithWordOffset gf audio' bytes npar 0 = .ok result ∧ result.isMatch = false := by
  have hvalid : validateNpar npar = .ok () := if_pos hnpar
  have hfits := bytes_fit hvalid
  obtain ⟨parity, hparity, hmatrix, hvalue⟩ := computeParity_isMatrix gf hvalid haudio
  refine ⟨parityToBytes parity stride npar, by rw [tryComputeParity, hparity]; rfl, ?_, ?_⟩
  · intro data hdata
    obtain ⟨result, hresult, hmatch⟩ := tryVerify_isMatch gf hvalid hparity hmatrix hdata
    exact ⟨result, hresult, hmatch.trans (take_eq_parityToBytes_iff hdata hfits hmatrix).symm⟩
  · intro audio' hrows hmax col hcol hone hfew
    have haudio' : stride * 2 ≤ audio'.length := by
      have := (Nat.le_div_iff_mul_le stride_pos).2 (Nat.mul_comm stride 2 ▸ haudio)
      rw [← hrows, Nat.le_div_iff_mul_le stride_pos] at this
      omega
    obtain ⟨parity', hparity', hmatrix', hvalue'⟩ := computeParity_isMatrix gf hvalid haudio'
    have hlen : (parityToBytes parity stride npar).length = stride * npar * 2 := by
      rw [parityToBytes, List.length_map, List.length_range]
    obtain ⟨result, hresult, hmatch⟩ := tryVerify_isMatch gf hvalid hparity' hmatrix' hlen.ge
    refine ⟨result, hresult, Bool.eq_false_iff.2 fun htrue => ?_⟩
    have hbytes := (take_eq_parityToBytes_iff hlen.ge hfits hmatrix').2 (hmatch.1 htrue)
    have hsame : parity = parity' := by
      refine ((take_eq_parityToBytes_iff hlen.ge hfits hmatrix).1 ?_).trans (hmatch.1 htrue).symm
      rw [List.take_of_length_le hlen.le]
    -- the same register in this column, so the same value at every root
    have heq := eq_of_horner hmax (m := npar) (f := fun row => (audio.getD (stride + row * stride + col) 0).toUInt16)
      (g := fun row => (audio'.getD (stride + row * stride + col) 0).toUInt16) ?_ ?_
    · obtain ⟨row, hrow⟩ := List.exists_mem_of_length_pos hone
      obtain ⟨hlt, hne⟩ := List.mem_filter.1 hrow
      exact (decide_eq_true_iff.1 hne) (toUInt16_inj.1 (heq row (List.mem_range.1 hlt)))
    · simpa [differingRows, toUInt16_inj] using hfew
    · intro x hx
      have hval := hvalue col hcol x hx
      rw [hsame, hvalue' col hcol x hx, hrows] at hval
      exact (mul_left_cancel₀ (pow_ne_zero _ (alpha_pow_ne_zero x)) hval).symm

/-- One damaged sample of a three-row image. -/
theorem tryVerify_exact_damaged : ∃ bytes result,
    tryComputeParity Galois16.new (List.replicate (3 * stride) 0) 4 = .ok bytes ∧
    tryVerifyWithWordOffset Galois16.new ((List.replicate (3 * stride) 0).set stride 1) bytes 4 0 = .ok result ∧
    result.isMatch = false := by
  have hpos := stride_pos
  have hlen : (List.replicate (3 * stride) (0 : Int16)).length / stride = 3 := by
    rw [List.length_replicate, Nat.mul_div_cancel _ hpos]
  have hdiffer : differingRows (List.replicate (3 * stride) 0) ((List.replicate (3 * stride) 0).set stride 1) 0 = [0] := by
    have hin : stride < 3 * stride := by omega
    rw [differingRows, hlen]
    simp [hin]
  obtain ⟨bytes, hbytes, -, hdetect⟩ := tryVerify_exact Galois16.new (show 4 = 4 ∨ 4 = 8 ∨ 4 = 16 from .inl rfl)
    (show stride * 2 ≤ (List.replicate (3 * stride) (0 : Int16)).length by rw [List.length_replicate]; omega)
  obtain ⟨result, hresult, hmatch⟩ := hdetect ((List.replicate (3 * stride) 0).set stride 1) (by rw [List.length_set])
    (by rw [hlen]; decide) 0 hpos (by rw [hdiffer]; decide) (by rw [hdiffer]; decide)
  exact ⟨bytes, result, hbytes, hresult, hmatch⟩

end Ctdb
