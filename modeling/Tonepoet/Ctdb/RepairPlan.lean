import Mathlib.Tactic.Linarith
import Tonepoet.Ctdb.Repair

/-!
# Where the corrections go

The blob round-trips through its bytes. A protected word of the image is addressed by its row and
column at the read offset; the address is one-to-one and stays inside the payload. Locating the errors
comes down to one error vector for each column.
-/

namespace Ctdb

open Rust

/-! ## The blob -/

theorem u16FromLeBytes_toLeBytes (w : UInt16) : u16FromLeBytes w.toUInt8 (w >>> 8).toUInt8 = w := by
  have hlt := w.toNat_lt
  have hhigh : ((w >>> 8).toUInt8.toUInt16 <<< 8).toNat = 2 ^ 8 * (w.toNat / 2 ^ 8) := by
    simp [Nat.shiftRight_eq_div_pow, Nat.shiftLeft_eq]
    omega
  have hlow : w.toUInt8.toUInt16.toNat = w.toNat % 2 ^ 8 := by simp
  apply UInt16.toNat_inj.1
  rw [u16FromLeBytes, UInt16.toNat_or, hhigh, hlow, Nat.or_comm, ← Nat.two_pow_add_eq_or_of_lt (Nat.mod_lt _ (by decide)),
    Nat.div_add_mod]

theorem toUInt16_inj {a b : Int16} : a.toUInt16 = b.toUInt16 ↔ a = b :=
  ⟨fun h => by cases a; cases b; exact congrArg Int16.ofUInt16 h, fun h => h ▸ rfl⟩

/-- A matrix of `rows` rows with `npar` symbols each. -/
def IsMatrix (matrix : List (List UInt16)) (rows npar : ℕ) : Prop :=
  matrix.length = rows ∧ ∀ c < rows, (matrix.getD c []).length = npar

theorem IsMatrix.getElem? {matrix : List (List UInt16)} {rows npar c : ℕ} (h : IsMatrix matrix rows npar) (hc : c < rows) :
    matrix[c]? = some (matrix.getD c []) := getElem?_getD [] (by rw [h.1]; exact hc)

theorem IsMatrix.ext {a b : List (List UInt16)} {rows npar : ℕ} (ha : IsMatrix a rows npar) (hb : IsMatrix b rows npar)
    (h : ∀ c < rows, ∀ i < npar, (a.getD c []).getD i 0 = (b.getD c []).getD i 0) : a = b := by
  apply List.ext_getElem?
  intro c
  by_cases hc : c < rows
  · rw [ha.getElem? hc, hb.getElem? hc]
    congr 1
    apply List.ext_getElem ((ha.2 c hc).trans (hb.2 c hc).symm)
    intro i hi hi'
    have := h c hc i (ha.2 c hc ▸ hi)
    rwa [List.getD_eq_getElem _ _ hi, List.getD_eq_getElem _ _ hi'] at this
  · rw [List.getElem?_eq_none (by rw [ha.1]; omega), List.getElem?_eq_none (by rw [hb.1]; omega)]

/-- The words of a decoded blob. -/
def blobWord (bytes : List UInt8) (stride j i : ℕ) : UInt16 :=
  u16FromLeBytes (bytes.getD ((j + i * stride) * 2) 0) (bytes.getD ((j + i * stride) * 2 + 1) 0)

theorem bytesToSyndromeMatrix_eq_some {bytes : List UInt8} {s npar : ℕ} {matrix : List (List UInt16)}
    (h : cuetoolsBytesToSyndromeMatrix bytes s npar = some matrix) :
    matrix = (List.range s).map fun j => (List.range npar).map fun i => blobWord bytes s j i := by
  obtain ⟨a, -, h⟩ := Option.bind_eq_some_iff.1 h
  obtain ⟨b, -, h⟩ := Option.bind_eq_some_iff.1 h
  by_cases hlen : bytes.length < b
  · rw [if_pos hlen] at h
    cases h
  · rw [if_neg hlen] at h
    exact (Option.some.inj h).symm

theorem getD_map_range {α : Type} (f : ℕ → α) (d : α) {n k : ℕ} (hk : k < n) : ((List.range n).map f).getD k d = f k := by
  rw [List.getD_eq_getElem _ _ (by simpa using hk), List.getElem_map, List.getElem_range]

theorem isMatrix_of_bytes {bytes : List UInt8} {s npar : ℕ} {matrix : List (List UInt16)}
    (h : cuetoolsBytesToSyndromeMatrix bytes s npar = some matrix) : IsMatrix matrix s npar := by
  rw [bytesToSyndromeMatrix_eq_some h]
  refine ⟨by simp, fun c hc => ?_⟩
  rw [getD_map_range _ _ hc, List.length_map, List.length_range]

theorem index_div_mod {s j i : ℕ} (hj : j < s) : (j + i * s) % s = j ∧ (j + i * s) / s = i := by
  refine ⟨by rw [Nat.add_mul_mod_self_right, Nat.mod_eq_of_lt hj], ?_⟩
  rw [Nat.add_mul_div_right _ _ (by omega), Nat.div_eq_of_lt hj, zero_add]

/-- **The blob round-trips.** -/
theorem bytesToSyndromeMatrix_parityToBytes {matrix : List (List UInt16)} {s npar : ℕ} (hm : IsMatrix matrix s npar)
    (hfits : s * npar * 2 ≤ usizeMax) : cuetoolsBytesToSyndromeMatrix (parityToBytes matrix s npar) s npar = some matrix := by
  obtain ⟨bytes, hbytes⟩ : ∃ bytes, parityToBytes matrix s npar = bytes := ⟨_, rfl⟩
  have hlen : bytes.length = s * npar * 2 := by rw [← hbytes, parityToBytes, List.length_map, List.length_range]
  obtain ⟨decoded, hdecoded⟩ : ∃ decoded, cuetoolsBytesToSyndromeMatrix bytes s npar = some decoded := by
    refine ⟨(List.range s).map fun j => (List.range npar).map fun i => blobWord bytes s j i, ?_⟩
    rw [cuetoolsBytesToSyndromeMatrix, checkedMul_of_le (by omega), some_bind, checkedMul_of_le hfits, some_bind,
      if_neg (by omega)]
    rfl
  rw [hbytes, hdecoded]
  refine congrArg some ((isMatrix_of_bytes hdecoded).ext hm fun j hj i hi => ?_)
  obtain ⟨hmod, hdiv⟩ := index_div_mod (i := i) hj
  have hbound : (j + i * s) * 2 + 1 < s * npar * 2 := by
    have := Nat.mul_le_mul_right s (Nat.succ_le_of_lt hi)
    rw [Nat.succ_mul] at this
    rw [Nat.mul_comm s npar]
    omega
  rw [bytesToSyndromeMatrix_eq_some hdecoded, getD_map_range _ _ hj, getD_map_range _ _ hi, blobWord, ← hbytes, parityToBytes,
    getD_map_range _ _ (by omega), getD_map_range _ _ hbound]
  simp only [Nat.mul_mod_left, Nat.mul_div_cancel _ (show 0 < 2 by decide), hmod, hdiv,
    show ((j + i * s) * 2 + 1) / 2 = j + i * s by omega, show ((j + i * s) * 2 + 1) % 2 = 1 by omega, if_true]
  rw [if_neg (by decide), u16FromLeBytes_toLeBytes]

/-- On matrices of `npar` symbols a row the comparison is equality. -/
theorem syndromeMatricesEqual_iff {a b : List (List UInt16)} {rows npar : ℕ} (ha : IsMatrix a rows npar)
    (hb : IsMatrix b rows npar) : cuetoolsSyndromeMatricesEqual a b npar = true ↔ a = b := by
  constructor
  · intro h
    rw [cuetoolsSyndromeMatricesEqual, Bool.and_eq_true, List.all_eq_true] at h
    refine ha.ext hb fun c hc i hi => ?_
    have hpair : (a.getD c [], b.getD c []) ∈ a.zip b := by
      refine List.mem_of_getElem? (i := c) ?_
      rw [List.getElem?_zip_eq_some]
      exact ⟨ha.getElem? hc, hb.getElem? hc⟩
    have htake := h.2 _ hpair
    simp only [Bool.and_eq_true, beq_iff_eq] at htake
    rw [List.take_of_length_le (ha.2 c hc).le, List.take_of_length_le (hb.2 c hc).le] at htake
    rw [htake.2]
  · rintro rfl
    rw [cuetoolsSyndromeMatricesEqual, Bool.and_eq_true, List.all_eq_true]
    refine ⟨by simp, ?_⟩
    rintro ⟨x, y⟩ hxy
    obtain ⟨c, hc⟩ := List.mem_iff_getElem?.1 hxy
    obtain ⟨hx, hy⟩ := List.getElem?_zip_eq_some.1 hc
    obtain rfl : x = y := Option.some.inj (hx.symm.trans hy)
    have hlt : c < rows := by
      rw [← ha.1]
      exact (List.getElem?_eq_some_iff.1 hx).1
    have hlen : x.length = npar := by
      rw [← ha.2 c hlt]
      congr 1
      exact Option.some.inj (hx.symm.trans (ha.getElem? hlt))
    simp [hlen]

/-! ## Addresses -/

/-- The place of a protected word in the image. -/
def imageIndex (actualOffset : ℤ) (row column : ℕ) : ℕ :=
  (2 * (stride : ℤ) + row * stride + column - 2 * actualOffset).toNat

/-- An offset the repair is called with: less than half a stride either way. -/
structure InRange (audio : List Int16) (actualOffset : ℤ) : Prop where
  spans : Spans audio
  offset : |2 * -actualOffset| < (stride : ℤ)

variable {audio : List Int16} {actualOffset : ℤ} {row column : ℕ}

theorem InRange.imageIndex_eq (h : InRange audio actualOffset) (hr : row < rowCount audio) (hc : column < stride) :
    (imageIndex actualOffset row column : ℤ) = 2 * (stride : ℤ) + row * stride + column - 2 * actualOffset ∧
      imageIndex actualOffset row column < audio.length := by
  have hlen := h.spans.length
  obtain ⟨hpos, hlt⟩ := h.spans.shifted_lt h.offset hc hr
  rw [imageIndex]
  omega

/-- The audio index of a located error is its address. -/
theorem InRange.audioIndex (h : InRange audio actualOffset) (hr : row < rowCount audio) (hc : column < stride) :
    cuetoolsRepairAudioIndex row column actualOffset audio.length = some (imageIndex actualOffset row column) := by
  obtain ⟨heq, hlt⟩ := h.imageIndex_eq hr hc
  rw [imageIndex] at heq hlt
  rw [cuetoolsRepairAudioIndex, if_neg (by omega), imageIndex]

/-- A word of the shifted payload is the word of the image at its address. -/
theorem InRange.shiftedWord_eq (h : InRange audio actualOffset) (hr : row < rowCount audio) (hc : column < stride) :
    shiftedWord audio (2 * -actualOffset) column row = (audio.getD (imageIndex actualOffset row column) 0).toUInt16 := by
  obtain ⟨heq, hlt⟩ := h.imageIndex_eq hr hc
  obtain ⟨hpos, -⟩ := h.spans.shifted_lt h.offset hc hr
  rw [shiftedWord, payloadWord]
  congr 2
  omega

/-- **Addresses are one-to-one.** -/
theorem InRange.imageIndex_inj (h : InRange audio actualOffset) {row' column' : ℕ} (hr : row < rowCount audio)
    (hc : column < stride) (hr' : row' < rowCount audio) (hc' : column' < stride)
    (heq : imageIndex actualOffset row column = imageIndex actualOffset row' column') : row = row' ∧ column = column' := by
  obtain ⟨h1, -⟩ := h.imageIndex_eq hr hc
  obtain ⟨h2, -⟩ := h.imageIndex_eq hr' hc'
  have hsum : column + row * stride = column' + row' * stride := by
    have : (column : ℤ) + row * stride = column' + row' * stride := by
      rw [heq] at h1
      linarith
    exact_mod_cast this
  obtain ⟨hm, hd⟩ := index_div_mod (i := row) hc
  obtain ⟨hm', hd'⟩ := index_div_mod (i := row') hc'
  rw [hsum] at hm hd
  exact ⟨hd.symm.trans hd', hm.symm.trans hm'⟩

/-! ## Locating -/

/-- A located error of a column as a correction. -/
def place (actualOffset : ℤ) (column : ℕ) (c : LocatedError) : CuetoolsRepairCorrection :=
  ⟨c.row, column, c.magnitude, imageIndex actualOffset c.row column⟩

/-- The corrections of an error matrix: column by column, the rows in increasing order. -/
def placed (actualOffset : ℤ) (n columns : ℕ) (errors : ℕ → ℕ → UInt16) : List CuetoolsRepairCorrection :=
  (List.range columns).flatMap fun column => (errorEntries n (errors column)).map (place actualOffset column)

theorem InRange.toCorrection (h : InRange audio actualOffset) (hc : column < stride) {cs : List LocatedError}
    (hrows : ∀ c ∈ cs, c.row < rowCount audio) :
    cs.mapM (toCorrection actualOffset audio.length column) = .ok (cs.map (place actualOffset column)) := by
  refine mapM_ok fun c hcs => ?_
  rw [Ctdb.toCorrection, h.audioIndex (hrows c hcs) hc, okOr_some, pure_bind]
  rfl

/-- An answer of the decoder is the list of the nonzero entries of a vector. -/
theorem Decodes.exists_vector {syndromes : List UInt16} {npar n : ℕ} {cs : List LocatedError}
    (h : Decodes syndromes npar n cs) : ∃ e, cs = errorEntries n e ∧
      ∀ k < npar, toGF (syndromes.getD k 0) = errorSyndrome n e k := by
  classical
  have hnodup : (cs.map LocatedError.row).Nodup := h.increasing.imp Nat.ne_of_lt
  let e : ℕ → UInt16 := fun r => if hr : ∃ c ∈ cs, c.row = r then hr.choose.magnitude else 0
  have he : ∀ c ∈ cs, e c.row = c.magnitude := by
    intro c hc
    have hex : ∃ d ∈ cs, d.row = c.row := ⟨c, hc, rfl⟩
    have hsame : hex.choose = c := List.inj_on_of_nodup_map hnodup hex.choose_spec.1 hc hex.choose_spec.2
    simp only [e]
    rw [dif_pos hex, hsame]
  have hmem : ∀ r, r ∈ cs.map LocatedError.row ↔ r ∈ errorSupport n e := by
    intro r
    rw [mem_errorSupport]
    constructor
    · intro hr
      obtain ⟨c, hc, rfl⟩ := List.mem_map.1 hr
      exact ⟨h.row_lt c hc, by rw [he c hc]; exact h.magnitude_ne_zero c hc⟩
    · rintro ⟨-, hne⟩
      by_contra hr
      apply hne
      refine dif_neg fun hex => hr ?_
      obtain ⟨c, hc, rfl⟩ := hex
      exact List.mem_map_of_mem hc
  have hsupport : cs.map LocatedError.row = errorSupport n e :=
    List.Perm.eq_of_pairwise (fun a b _ _ (hab : a < b) hba => absurd hab (Nat.lt_asymm hba)) h.increasing
      (pairwise_errorSupport n e) ((List.perm_ext_iff_of_nodup hnodup (nodup_errorSupport n e)).2 hmem)
  have hentries : cs = errorEntries n e := by
    rw [errorEntries, ← hsupport, List.map_map]
    conv_lhs => rw [← List.map_id cs]
    refine List.map_congr_left fun c hc => ?_
    rw [Function.comp_apply, he c hc]
    rfl
  refine ⟨e, hentries, fun k hk => ?_⟩
  rw [h.syndrome k hk, errorSyndrome_eq_powerSum, ErrorLocator.powerSum, List.sum_toFinset _ (nodup_errorSupport n e),
    ← hsupport, List.map_map]
  refine congrArg List.sum (List.map_congr_left fun c hc => ?_)
  rw [Function.comp_apply, he c hc]

variable (gf : Galois16)

theorem length_of_chienSearch {sigma : List UInt16} {errorCount stridecount : ℕ} {rows : List ℕ}
    (h : chienSearch gf sigma errorCount stridecount = some rows) : rows.length = errorCount := by
  rw [chienSearch] at h
  by_cases hzero : errorCount = 0
  · rw [if_pos hzero] at h
    rw [← Option.some.inj h, hzero, List.length_nil]
  · rw [if_neg hzero] at h
    by_cases hbad : stridecount = 0 ∨ stridecount > galoisMax
    · rw [if_pos hbad] at h
      cases h
    · rw [if_neg hbad] at h
      obtain ⟨found, -, h⟩ := Option.bind_eq_some_iff.1 h
      by_cases hlen : found.length = errorCount
      · rw [if_pos hlen] at h
        rw [← Option.some.inj h, List.length_mergeSort, hlen]
      · rw [if_neg hlen] at h
        cases h

/-- The difference of two rows. -/
def deltaRow (lhs rhs : List UInt16) (npar : ℕ) : List UInt16 :=
  (List.range npar).map fun i => lhs.getD i 0 ^^^ rhs.getD i 0

theorem length_deltaRow (lhs rhs : List UInt16) (npar : ℕ) : (deltaRow lhs rhs npar).length = npar := by
  rw [deltaRow, List.length_map, List.length_range]

theorem toGF_deltaRow (lhs rhs : List UInt16) {npar k : ℕ} (hk : k < npar) :
    toGF ((deltaRow lhs rhs npar).getD k 0) = toGF (lhs.getD k 0) + toGF (rhs.getD k 0) := by
  rw [deltaRow, getD_map_range _ _ hk, toGF_xor]

/-- **The column loop is the column decoder**, with an error where the decoder has no answer. -/
theorem repairColumn_cases (n audioLen : ℕ) (actualOffset : ℤ) {our blob : List (List UInt16)} {lhs rhs : List UInt16} {npar : ℕ}
    (hour : our[column]? = some lhs) (hblob : blob[column]? = some rhs) (hl : lhs.length = npar) (hr : rhs.length = npar) :
    (∃ located, decodeColumnSyndromes gf (deltaRow lhs rhs npar) npar n = some located ∧
      repairColumn gf our blob npar n actualOffset audioLen column =
        located.mapM (toCorrection actualOffset audioLen column)) ∨
    (decodeColumnSyndromes gf (deltaRow lhs rhs npar) npar n = none ∧ ∃ errorsFound,
      repairColumn gf our blob npar n actualOffset audioLen column =
        .error (.err (.uncorrectable column errorsFound (npar / 2)))) := by
  have htake : (deltaRow lhs rhs npar).take npar = deltaRow lhs rhs npar :=
    List.take_of_length_le (length_deltaRow _ _ _).le
  rw [repairColumn, hour, okOr_some, pure_bind, hblob, okOr_some, pure_bind, if_neg (by omega), decodeColumnSyndromes,
    if_neg (by rw [length_deltaRow]; omega), htake, ← deltaRow]
  by_cases hzero : allZero (deltaRow lhs rhs npar) = true
  · rw [if_pos hzero, if_pos hzero]
    exact .inl ⟨[], rfl, rfl⟩
  rw [if_neg hzero, if_neg hzero]
  rcases hbm : berlekampMassey gf (deltaRow lhs rhs npar) npar with _ | ⟨sigma, count⟩
  · exact .inr ⟨rfl, 0, rfl⟩
  rw [okOr_some, pure_bind, some_bind]
  by_cases hcount : count = 0 ∨ count > npar / 2
  · simp only [if_pos hcount]
    exact .inr ⟨trivial, count, rfl⟩
  simp only [if_neg hcount]
  rcases hchien : chienSearch gf sigma count n with _ | positions
  · exact .inr ⟨rfl, count, rfl⟩
  rw [okOr_some, pure_bind, some_bind, if_neg (by rw [length_of_chienSearch gf hchien]; exact not_not.2 rfl)]
  rcases hforney : forney gf (deltaRow lhs rhs npar) sigma positions npar n with _ | magnitudes
  · exact .inr ⟨rfl, count, rfl⟩
  rw [okOr_some, pure_bind, some_bind]
  rcases hresidual : residualAfterCorrection gf (deltaRow lhs rhs npar) (List.zipWith LocatedError.mk positions magnitudes)
    npar n with _ | residual
  · exact .inr ⟨rfl, count, rfl⟩
  rw [okOr_some, pure_bind, some_bind]
  by_cases hall : allZero residual = true
  · rw [if_neg (not_not.2 hall), if_pos hall]
    exact .inl ⟨_, rfl, rfl⟩
  · rw [if_pos hall, if_neg hall]
    exact .inr ⟨rfl, count, rfl⟩

/-- The errors that relate an image's matrix to a blob's. -/
structure Explains (our blob : List (List UInt16)) (npar n columns : ℕ) (errors : ℕ → ℕ → UInt16) : Prop where
  syndrome : ∀ c < columns, ∀ i < npar, toGF ((our.getD c []).getD i 0) + toGF ((blob.getD c []).getD i 0) =
    errorSyndrome n (errors c) i
  weight : ∀ c < columns, (errorSupport n (errors c)).length ≤ npar / 2

/-- One column, from the decoder's side: if it succeeds there is a vector that explains it. -/
theorem InRange.repairColumn_sound (h : InRange audio actualOffset) {our blob : List (List UInt16)} {npar : ℕ}
    (hour : IsMatrix our stride npar) (hblob : IsMatrix blob stride npar) (hc : column < stride) :
    (∃ e, repairColumn gf our blob npar (rowCount audio) actualOffset audio.length column =
        .ok ((errorEntries (rowCount audio) e).map (place actualOffset column)) ∧
      (∀ i < npar, toGF ((our.getD column []).getD i 0) + toGF ((blob.getD column []).getD i 0) =
        errorSyndrome (rowCount audio) e i) ∧ (errorSupport (rowCount audio) e).length ≤ npar / 2) ∨
    ∃ errorsFound, repairColumn gf our blob npar (rowCount audio) actualOffset audio.length column =
      .error (.err (.uncorrectable column errorsFound (npar / 2))) := by
  rcases repairColumn_cases gf (rowCount audio) audio.length actualOffset
    (hour.getElem? hc) (hblob.getElem? hc) (hour.2 column hc) (hblob.2 column hc) with ⟨located, hdecode, heq⟩ | ⟨-, hfail⟩
  · have hdecodes := decodes_of_decodeColumnSyndromes gf hdecode
    obtain ⟨e, rfl, hsyn⟩ := hdecodes.exists_vector
    refine .inl ⟨e, by rw [heq, h.toCorrection hc hdecodes.row_lt], fun i hi => ?_, ?_⟩
    · rw [← hsyn i hi, toGF_deltaRow _ _ hi]
    · simpa [errorEntries] using hdecodes.weight
  · exact .inr hfail

/-- One column, from the vector's side: whatever explains it is what is found. -/
theorem InRange.repairColumn_complete (h : InRange audio actualOffset) {our blob : List (List UInt16)} {npar : ℕ}
    (hour : IsMatrix our stride npar) (hblob : IsMatrix blob stride npar) (hmax : rowCount audio ≤ galoisMax)
    (hc : column < stride) {e : ℕ → UInt16}
    (hsyn : ∀ i < npar, toGF ((our.getD column []).getD i 0) + toGF ((blob.getD column []).getD i 0) =
      errorSyndrome (rowCount audio) e i) (hweight : (errorSupport (rowCount audio) e).length ≤ npar / 2) :
    repairColumn gf our blob npar (rowCount audio) actualOffset audio.length column =
      .ok ((errorEntries (rowCount audio) e).map (place actualOffset column)) := by
  have hdelta : ∀ k < npar, toGF ((deltaRow (our.getD column []) (blob.getD column []) npar).getD k 0) =
      errorSyndrome (rowCount audio) e k := fun k hk => by rw [toGF_deltaRow _ _ hk, hsyn k hk]
  have hdecode : decodeColumnSyndromes gf (deltaRow (our.getD column []) (blob.getD column []) npar) npar (rowCount audio) =
      some (errorEntries (rowCount audio) e) := by
    rcases Nat.eq_zero_or_pos (rowCount audio) with hzero | hpos
    · have hall : allZero ((deltaRow (our.getD column []) (blob.getD column []) npar).take npar) = true := by
        rw [allZero_take (length_deltaRow _ _ _).ge]
        intro k hk
        rw [← toGF_eq_zero, hdelta k hk, hzero, errorSyndrome, Finset.range_zero, Finset.sum_empty]
      rw [decodeColumnSyndromes, if_neg (by rw [length_deltaRow]; omega), if_pos hall, hzero]
      rfl
    · exact Correctable.decodeColumnSyndromes gf ⟨(length_deltaRow _ _ _).ge, hpos.ne', hmax, hdelta, by omega⟩
  rcases repairColumn_cases gf (rowCount audio) audio.length actualOffset
    (hour.getElem? hc) (hblob.getElem? hc) (hour.2 column hc) (hblob.2 column hc) with ⟨located, hlocated, heq⟩ | ⟨hnone, -⟩
  · obtain rfl := Option.some.inj (hlocated.symm.trans hdecode)
    rw [heq, h.toCorrection hc]
    intro c hcs
    obtain ⟨r, hr, rfl⟩ := List.mem_map.1 hcs
    exact (mem_errorSupport.1 hr).1
  · rw [hdecode] at hnone
    cases hnone

/-! ## The column loop -/

section Collect

variable {β : Type} {f : ℕ → Outcome RepairError (List β)}

theorem foldlM_collect_ok {g : ℕ → List β} : ∀ (xs : List ℕ) (all : List β), (∀ x ∈ xs, f x = .ok (g x)) →
    xs.foldlM (fun all x => do let located ← f x; pure (all ++ located)) all = .ok (all ++ xs.flatMap g)
  | [], all, _ => by rw [List.flatMap_nil, List.append_nil]; rfl
  | x :: xs, all, h => by
    have hstep : (do let located ← f x; pure (all ++ located) : Outcome RepairError (List β)) = .ok (all ++ g x) := by
      rw [h x (by simp), ok_bind]
      rfl
    rw [List.foldlM_cons, hstep, ok_bind, foldlM_collect_ok xs _ fun y hy => h y (by simp [hy]), List.flatMap_cons,
      List.append_assoc]

/-- The loop stops at the first error. -/
theorem foldlM_collect_error {x : ℕ} : ∀ (xs : List ℕ) (all : List β), x ∈ xs → (∀ r, f x ≠ .ok r) →
    ∃ y ∈ xs, ∃ e, f y = .error e ∧
      xs.foldlM (fun all x => do let located ← f x; pure (all ++ located)) all = .error e
  | [], _, hx, _ => by cases hx
  | y :: xs, all, hx, hfail => by
    rw [List.foldlM_cons]
    rcases hy : f y with e | r
    · exact ⟨y, by simp, e, hy, rfl⟩
    · have hx' : x ∈ xs := by
        rcases List.mem_cons.1 hx with rfl | hx
        · exact absurd hy (hfail r)
        · exact hx
      obtain ⟨z, hz, e, hfz, hloop⟩ := foldlM_collect_error xs (all ++ r) hx' hfail
      exact ⟨z, by simp [hz], e, hfz, hloop⟩

end Collect

/-! ## Every error before the buffer is written to -/

/-- An error other than the failed verification. -/
def LocateError {α : Type} (r : Outcome RepairError α) : Prop := ∃ e, r = .error (.err e) ∧ e ≠ verificationFailed

theorem append_ne {c d : Char} {a b s : String} (ha : a.toList = c :: s.toList) (hb : b.toList.head? = some d) (hcd : c ≠ d)
    (t : String) : a ++ t ≠ b := by
  intro h
  have hhead := congrArg (fun s : String => s.toList.head?) h
  simp only [String.toList_append, ha, List.cons_append, List.head?_cons, hb, Option.some.injEq] at hhead
  exact hcd hhead

theorem invalidNpar_ne (npar : ℕ) : RepairError.ofCtdbRsError (.invalidNpar npar) ≠ verificationFailed := by
  have hmsg : (CtdbRsError.invalidNpar npar).message =
      "invalid npar " ++ (toString npar ++ "; CTDB-compatible values are 4, 8, or 16") := by
    rw [← String.append_assoc]
    rfl
  intro h
  have heq := RepairError.invalidInput.inj h
  rw [hmsg] at heq
  exact append_ne (c := 'i') (d := 'p') (s := "nvalid npar ") (by decide) (by decide) (by decide) _ heq

theorem invalidParity_ne (msg : String) : RepairError.invalidParity msg ≠ verificationFailed := fun h => by cases h

theorem compareSymbol_cases {matrix : List (List UInt16)} {row entryRow : List UInt16} (hrow : matrix[0]? = some row) {i : ℕ}
    (hi : i < row.length) (hi' : i < entryRow.length) : compareSymbol matrix entryRow i = .ok () ∨
      ∃ msg, compareSymbol matrix entryRow i = .error (.err (.invalidParity msg)) := by
  have hsymbol : at2 matrix 0 i = some (row.getD i 0) := by
    rw [at2, hrow, Option.bind_some]
    exact getElem?_getD 0 hi
  rw [compareSymbol, index2_of_at2 hsymbol, pure_bind, index_of_getElem? (getElem?_getD 0 hi'), pure_bind]
  by_cases hne : row.getD i 0 ≠ entryRow.getD i 0
  · rw [if_pos hne]
    exact .inr ⟨_, rfl⟩
  · rw [if_neg hne]
    exact .inl rfl

/-- A loop of checks passes or reports the parity. -/
theorem checks_cases {f : ℕ → Outcome RepairError Unit} : ∀ xs : List ℕ,
    (∀ x ∈ xs, f x = .ok () ∨ ∃ msg, f x = .error (.err (.invalidParity msg))) →
    xs.foldlM (fun _ x => f x) () = .ok () ∨ ∃ msg, xs.foldlM (fun _ x => f x) () = .error (.err (.invalidParity msg))
  | [], _ => .inl rfl
  | x :: xs, h => by
    rw [List.foldlM_cons]
    rcases h x (by simp) with hok | ⟨msg, herr⟩
    · rw [hok, ok_bind]
      exact checks_cases xs fun y hy => h y (by simp [hy])
    · rw [herr]
      exact .inr ⟨msg, rfl⟩

theorem compareEntryRow_cases (decodeBase64 : String → Option (List UInt8)) (entry : CtdbEntry)
    {matrix : List (List UInt16)} {row : List UInt16} {npar : ℕ} (hrow : matrix[0]? = some row) (hlen : row.length = npar) :
    compareEntryRow gf decodeBase64 entry matrix npar = .ok () ∨
      ∃ msg, compareEntryRow gf decodeBase64 entry matrix npar = .error (.err (.invalidParity msg)) := by
  rw [compareEntryRow]
  rcases decodeEntryRowCuetools gf decodeBase64 entry with _ | ⟨entryRow, entryNpar, source⟩
  · exact .inl rfl
  · refine checks_cases _ fun i hi => ?_
    have hi := (List.mem_range'_1.1 hi).2
    exact compareSymbol_cases hrow (by omega) (by omega)

/-- Decoding the blob gives its matrix or reports the parity. -/
theorem decodeHasparity_cases (decodeBase64 : String → Option (List UInt8)) (blob : List UInt8) (entry : CtdbEntry)
    (ctx : CuetoolsSyndromeContext) (npar : ℕ) (hstride : 0 < ctx.stride) :
    (∃ matrix, cuetoolsBytesToSyndromeMatrix blob ctx.stride npar = some matrix ∧
      cuetoolsDecodeHasparitySyndromeMatrix gf decodeBase64 blob entry ctx npar = .ok matrix) ∨
    ∃ msg, cuetoolsDecodeHasparitySyndromeMatrix gf decodeBase64 blob entry ctx npar = .error (.err (.invalidParity msg)) := by
  rw [cuetoolsDecodeHasparitySyndromeMatrix]
  by_cases hmismatch : entry.stride ≠ 0 ∧ entry.stride ≠ ctx.stride
  · rw [if_pos hmismatch]
    exact .inr ⟨_, rfl⟩
  rw [if_neg hmismatch]
  rcases hmatrix : cuetoolsBytesToSyndromeMatrix blob ctx.stride npar with _ | matrix
  · exact .inr ⟨_, rfl⟩
  have hshape := isMatrix_of_bytes hmatrix
  rw [okOr_some, pure_bind]
  rcases compareEntryRow_cases gf decodeBase64 entry (hshape.getElem? hstride) (hshape.2 0 hstride) with hok | ⟨msg, herr⟩
  · rw [hok]
    exact .inl ⟨matrix, rfl, rfl⟩
  · rw [herr]
    exact .inr ⟨msg, rfl⟩

/-! ## The plan -/

/-- What a plan says about the image and the blob. -/
structure RepairPlan.Spec (plan : RepairPlan) (audio : List Int16) (blob : List UInt8) (entry : CtdbEntry) (actualOffset : ℤ)
    (errors : ℕ → ℕ → UInt16) : Prop where
  npar : plan.npar = min entry.npar.toNat cuetoolsMaxNpar
  npar_valid : validateNpar plan.npar = .ok ()
  our : IsMatrix plan.ourSyndrome stride plan.npar
  our_eq : ∀ c < stride, ∀ i < plan.npar, toGF ((plan.ourSyndrome.getD c []).getD i 0) =
    plainSyndrome audio (2 * -actualOffset) c i
  blob : cuetoolsBytesToSyndromeMatrix blob stride plan.npar = some plan.blobSyndrome
  explains : Explains plan.ourSyndrome plan.blobSyndrome plan.npar (rowCount audio) stride errors
  corrections : plan.corrections = placed actualOffset (rowCount audio) stride errors

end Ctdb
