import Tonepoet.Ctdb.Commit

/-!
# CTDB repair is bounded-distance decoding

Locating the errors gives an error matrix that explains the difference between the image and the blob;
committing it adds the error matrix to the image, which makes the image's own matrix the blob's. So the
final check never fails, every failure leaves the buffer alone, and every image within the decoding
distance of the blob's is repaired.
-/

namespace Ctdb

open Rust

variable (gf : Galois16) {audio : List Int16} {actualOffset : ℤ} {blob : List UInt8} {entry : CtdbEntry}

theorem offset_lt {off : ℤ} (h : |off| ≤ 5879) : |2 * -off| < (stride : ℤ) := by
  rw [abs_mul, abs_neg, stride_eq]
  norm_num
  omega

theorem npar_of_valid {npar : ℕ} (h : validateNpar npar = .ok ()) : npar ≠ 0 ∧ npar ≤ cuetoolsMaxNpar := by
  rw [validateNpar] at h
  split at h
  · next hn =>
    rw [cuetoolsMaxNpar]
    omega
  · cases h

/-! ## Locating -/

/-- The image's own matrix. -/
theorem InRange.ourMatrix (h : InRange audio actualOffset) {npar : ℕ} (hnpar : validateNpar npar = .ok ())
    {ctx : CuetoolsSyndromeContext} (hctx : cuetoolsBuildSyndromeContext audio = some ctx) :
    ∃ parity16 our, computeAudioParity16 audio = some parity16 ∧
      cuetoolsGetSyndromeMatrix gf parity16 ctx npar (-actualOffset) = some our ∧ IsMatrix our stride npar ∧
      ∀ c < stride, ∀ i < npar, toGF ((our.getD c []).getD i 0) = plainSyndrome audio (2 * -actualOffset) c i := by
  obtain ⟨hpos, hmax⟩ := npar_of_valid hnpar
  obtain ⟨parity16, hparity, -⟩ := h.spans.audioParity16
  obtain ⟨our, hour, hlen, hrows⟩ := h.spans.getSyndromeMatrix gf hparity hctx hpos hmax h.offset
  have hrow : ∀ c < stride, IsRow (our.getD c []) npar (plainSyndrome audio (2 * -actualOffset) c) := by
    intro c hc
    obtain ⟨row, hrow, -, hsym⟩ := hrows c hc
    rwa [List.getD_eq_getElem?_getD, hrow, Option.getD_some]
  exact ⟨parity16, our, hparity, hour, ⟨hlen, fun c hc => (hrow c hc).length⟩, fun c hc => (hrow c hc).symbol⟩

/-- Once the blob is decoded, locating is the column loop. -/
theorem InRange.locateCorrections_eq (h : InRange audio actualOffset) (decodeBase64 : String → Option (List UInt8)) {npar : ℕ}
    (hentry : npar = min entry.npar.toNat cuetoolsMaxNpar) (hnpar : validateNpar npar = .ok ())
    {ctx : CuetoolsSyndromeContext} (hctx : cuetoolsBuildSyndromeContext audio = some ctx) {blobMatrix : List (List UInt16)}
    (hblob : cuetoolsDecodeHasparitySyndromeMatrix gf decodeBase64 blob entry ctx npar = .ok blobMatrix)
    {parity16 our : List (List UInt16)} (hparity : computeAudioParity16 audio = some parity16)
    (hour : cuetoolsGetSyndromeMatrix gf parity16 ctx npar (-actualOffset) = some our) :
    locateCorrections gf decodeBase64 audio blob entry actualOffset = (do
      let all ← locateColumns gf our blobMatrix npar (rowCount audio) actualOffset audio.length stride
      pure ⟨npar, our, blobMatrix, all⟩) := by
  obtain ⟨ctx', hctx', hstride, hcount, -⟩ := h.spans.buildSyndromeContext
  obtain rfl : ctx' = ctx := Option.some.inj (hctx'.symm.trans hctx)
  have hcheck : checkNpar npar = pure () := by rw [checkNpar, hnpar]
  rw [locateCorrections, ← hentry, hcheck, pure_bind, hctx, okOr_some, pure_bind, hblob, ok_bind, hparity, okOr_some,
    pure_bind, hour, okOr_some, pure_bind, hstride, hcount]

/-- **Locating reports an error or gives a plan.** -/
theorem locateCorrections_cases (decodeBase64 : String → Option (List UInt8)) (hfits : audio.length ≤ usizeMax)
    (blob : List UInt8) (entry : CtdbEntry) (hoff : |actualOffset| ≤ 5879) :
    LocateError (locateCorrections gf decodeBase64 audio blob entry actualOffset) ∨
      ∃ plan errors, locateCorrections gf decodeBase64 audio blob entry actualOffset = .ok plan ∧
        InRange audio actualOffset ∧ plan.Spec audio blob entry actualOffset errors := by
  obtain ⟨npar, hentry⟩ : ∃ npar, npar = min entry.npar.toNat cuetoolsMaxNpar := ⟨_, rfl⟩
  by_cases hnpar : validateNpar npar = .ok ()
  swap
  · have hinvalid : validateNpar npar = .error (.invalidNpar npar) := by
      rw [validateNpar] at hnpar ⊢
      split at hnpar
      · exact absurd rfl hnpar
      · next hbad => rw [if_neg hbad]
    refine .inl ⟨_, ?_, invalidNpar_ne npar⟩
    rw [locateCorrections, ← hentry, checkNpar, hinvalid]
    rfl
  have hcheck : checkNpar npar = pure () := by rw [checkNpar, hnpar]
  rcases hctx : cuetoolsBuildSyndromeContext audio with _ | ctx
  · refine .inl ⟨_, ?_, show RepairError.invalidInput "audio is too short for CTDB repair context" ≠ _ by decide⟩
    rw [locateCorrections, ← hentry, hcheck, pure_bind, hctx]
    rfl
  have h : InRange audio actualOffset := ⟨spans_of_context hfits hctx, offset_lt hoff⟩
  obtain ⟨ctx', hctx', hstride, -⟩ := h.spans.buildSyndromeContext
  obtain rfl : ctx' = ctx := Option.some.inj (hctx'.symm.trans hctx)
  rcases decodeHasparity_cases gf decodeBase64 blob entry ctx' npar (by rw [hstride]; exact stride_pos) with
    ⟨blobMatrix, hbytes, hblob⟩ | ⟨msg, herr⟩
  swap
  · refine .inl ⟨_, ?_, invalidParity_ne msg⟩
    rw [locateCorrections, ← hentry, hcheck, pure_bind, hctx, okOr_some, pure_bind, herr]
    rfl
  obtain ⟨parity16, our, hparity, hour, hmatrix, hsym⟩ := h.ourMatrix gf hnpar hctx
  rw [h.locateCorrections_eq gf decodeBase64 hentry hnpar hctx hblob hparity hour]
  rw [hstride] at hbytes
  have hcolumn := fun c (hc : c < stride) => h.repairColumn_sound gf hmatrix (isMatrix_of_bytes hbytes) hc
  by_cases hall : ∀ c ∈ List.range stride, ∃ r,
      repairColumn gf our blobMatrix npar (rowCount audio) actualOffset audio.length c = .ok r
  · have hvector : ∀ c : ℕ, ∃ e : ℕ → UInt16, c < stride →
        repairColumn gf our blobMatrix npar (rowCount audio) actualOffset audio.length c =
          .ok ((errorEntries (rowCount audio) e).map (place actualOffset c)) ∧
        (∀ i < npar, toGF ((our.getD c []).getD i 0) + toGF ((blobMatrix.getD c []).getD i 0) =
          errorSyndrome (rowCount audio) e i) ∧ (errorSupport (rowCount audio) e).length ≤ npar / 2 := by
      intro c
      by_cases hc : c < stride
      · rcases hcolumn c hc with ⟨e, he⟩ | ⟨errorsFound, herr⟩
        · exact ⟨e, fun _ => he⟩
        · obtain ⟨r, hr⟩ := hall c (List.mem_range.2 hc)
          rw [herr] at hr
          cases hr
      · exact ⟨fun _ => 0, fun h => absurd h hc⟩
    choose errors herrors using hvector
    refine .inr ⟨⟨npar, our, blobMatrix, placed actualOffset (rowCount audio) stride errors⟩, errors, ?_, h, ?_⟩
    · rw [locateColumns, foldlM_collect_ok (g := fun c => (errorEntries (rowCount audio) (errors c)).map
        (place actualOffset c)) _ _ fun c hc => (herrors c (List.mem_range.1 hc)).1, ok_bind, List.nil_append]
      rfl
    · exact ⟨hentry, hnpar, hmatrix, hsym, hbytes,
        ⟨fun c hc => (herrors c hc).2.1, fun c hc => (herrors c hc).2.2⟩, rfl⟩
  · push Not at hall
    obtain ⟨c, hc, hfail⟩ := hall
    obtain ⟨d, hd, e, herr, hloop⟩ := foldlM_collect_error (List.range stride) [] hc hfail
    rcases hcolumn d (List.mem_range.1 hd) with ⟨v, hv, -⟩ | ⟨errorsFound, huncorrectable⟩
    · rw [hv] at herr
      cases herr
    · refine .inl ⟨.uncorrectable d errorsFound (npar / 2), ?_, fun h => by cases h⟩
      rw [locateColumns, hloop]
      rw [huncorrectable] at herr
      rw [← Except.error.inj herr]
      rfl

/-- **Locating finds every error matrix within the decoding distance.** -/
theorem InRange.locateCorrections_complete (h : InRange audio actualOffset) (decodeBase64 : String → Option (List UInt8))
    (npar : ℕ) (hentry : npar = min entry.npar.toNat cuetoolsMaxNpar) (hnpar : validateNpar npar = .ok ())
    (hstride : entry.stride = 0 ∨ entry.stride = stride) (hinline : decodeEntryRowCuetools gf decodeBase64 entry = none)
    {blobMatrix : List (List UInt16)} (hbytes : cuetoolsBytesToSyndromeMatrix blob stride npar = some blobMatrix)
    (hmax : rowCount audio ≤ galoisMax) {errors : ℕ → ℕ → UInt16}
    (hsyn : ∀ c < stride, ∀ i < npar, plainSyndrome audio (2 * -actualOffset) c i + toGF ((blobMatrix.getD c []).getD i 0) =
      errorSyndrome (rowCount audio) (errors c) i)
    (hweight : ∀ c < stride, (errorSupport (rowCount audio) (errors c)).length ≤ npar / 2) :
    ∃ plan, locateCorrections gf decodeBase64 audio blob entry actualOffset = .ok plan ∧
      plan.Spec audio blob entry actualOffset errors := by
  obtain ⟨ctx, hctx, hcstride, -⟩ := h.spans.buildSyndromeContext
  obtain ⟨parity16, our, hparity, hour, hmatrix, hsym⟩ := h.ourMatrix gf hnpar hctx
  have hblob : cuetoolsDecodeHasparitySyndromeMatrix gf decodeBase64 blob entry ctx npar = .ok blobMatrix := by
    rw [cuetoolsDecodeHasparitySyndromeMatrix, hcstride, if_neg (by omega), hbytes, okOr_some, pure_bind, compareEntryRow,
      hinline]
    rfl
  have hexplains : Explains our blobMatrix npar (rowCount audio) stride errors :=
    ⟨fun c hc i hi => by rw [hsym c hc i hi, hsyn c hc i hi], hweight⟩
  refine ⟨⟨npar, our, blobMatrix, placed actualOffset (rowCount audio) stride errors⟩, ?_,
    ⟨hentry, hnpar, hmatrix, hsym, hbytes, hexplains, rfl⟩⟩
  have hcolumn : ∀ c ∈ List.range stride, repairColumn gf our blobMatrix npar (rowCount audio) actualOffset audio.length c =
      .ok ((errorEntries (rowCount audio) (errors c)).map (place actualOffset c)) := by
    intro c hc
    have hc := List.mem_range.1 hc
    exact h.repairColumn_complete gf hmatrix (isMatrix_of_bytes hbytes) hmax hc (hexplains.syndrome c hc) (hweight c hc)
  rw [h.locateCorrections_eq gf decodeBase64 hentry hnpar hctx hblob hparity hour, locateColumns,
    foldlM_collect_ok _ _ hcolumn, ok_bind, List.nil_append]
  rfl

/-! ## Committing -/

/-- The matrix of an image with the errors added is the blob's. -/
theorem RepairPlan.Spec.matrix_eq {plan : RepairPlan} {errors : ℕ → ℕ → UInt16}
    (hspec : plan.Spec audio blob entry actualOffset errors) (h : InRange audio actualOffset) {audio' : List Int16}
    (hrep : Repaired audio actualOffset errors audio') {matrix : List (List UInt16)} (hmatrix : IsMatrix matrix stride plan.npar)
    (hsym : ∀ c < stride, ∀ i < plan.npar, toGF ((matrix.getD c []).getD i 0) = plainSyndrome audio' (2 * -actualOffset) c i) :
    matrix = plan.blobSyndrome := by
  refine hmatrix.ext (isMatrix_of_bytes hspec.blob) fun c hc i hi => toGF_injective ?_
  rw [hsym c hc i hi, hrep.plainSyndrome_eq h hc, ← hspec.our_eq c hc i hi, ← hspec.explains.syndrome c hc i hi, ← add_assoc,
    CharTwo.add_self_eq_zero, zero_add]

/-- **Committing a plan succeeds**, and the image then has the blob's matrix. -/
theorem RepairPlan.Spec.commitCorrections {plan : RepairPlan} {errors : ℕ → ℕ → UInt16}
    (hspec : plan.Spec audio blob entry actualOffset errors) (h : InRange audio actualOffset) :
    ∃ corrections audio', corrections.Perm (placed actualOffset (rowCount audio) stride errors) ∧
      corrections.Pairwise (fun a b => a.audioIndex < b.audioIndex) ∧ Repaired audio actualOffset errors audio' ∧
      Ctdb.commitCorrections gf plan actualOffset audio =
        (.ok ⟨corrections.length, corrections.map fun c => (c.row, c.column), corrections, true⟩, audio') ∧
      ∃ parity16 ctx, computeAudioParity16 audio' = some parity16 ∧ cuetoolsBuildSyndromeContext audio' = some ctx ∧
        cuetoolsGetSyndromeMatrix gf parity16 ctx plan.npar (-actualOffset) = some plan.blobSyndrome := by
  obtain ⟨cs, hcs⟩ : ∃ cs, plan.corrections.mergeSort (fun a b => a.audioIndex ≤ b.audioIndex) = cs := ⟨_, rfl⟩
  have hperm : cs.Perm (placed actualOffset (rowCount audio) stride errors) := by
    rw [← hcs, ← hspec.corrections]
    exact List.mergeSort_perm _ _
  have hsorted : cs.Pairwise fun a b => a.audioIndex ≤ b.audioIndex := by
    rw [← hcs]
    refine (List.pairwise_mergeSort ?_ ?_ _).imp of_decide_eq_true
    · intro a b c hab hbc
      exact decide_eq_true ((of_decide_eq_true hab).trans (of_decide_eq_true hbc))
    · intro a b
      rw [Bool.or_eq_true, decide_eq_true_eq, decide_eq_true_eq]
      exact Nat.le_total _ _
  have hnodup : (cs.map CuetoolsRepairCorrection.audioIndex).Nodup :=
    ((hperm.map CuetoolsRepairCorrection.audioIndex).nodup_iff).2 h.nodup_placed
  have hstrict : cs.Pairwise fun a b => a.audioIndex < b.audioIndex :=
    (hsorted.and (List.pairwise_map.1 hnodup)).imp fun hab => lt_of_le_of_ne hab.1 hab.2
  have hrep := h.repaired_patch hperm
  obtain ⟨old, happly⟩ := applyCorrections_ok (show ∀ c ∈ cs, c.audioIndex < audio.length from fun c hc =>
    h.lt_of_mem_placed (hperm.mem_iff.1 hc))
  obtain ⟨ctx, hctx, -⟩ := (hrep.inRange h).spans.buildSyndromeContext
  obtain ⟨parity16, matrix, hparity, hmatrix, hshape, hsym⟩ := (hrep.inRange h).ourMatrix gf hspec.npar_valid hctx
  obtain rfl := hspec.matrix_eq h hrep hshape hsym
  have hmatches : cuetoolsRepairedAudioMatchesBlob gf (patch audio cs) plan.blobSyndrome plan.npar actualOffset = true := by
    rw [cuetoolsRepairedAudioMatchesBlob, hctx, hparity]
    dsimp only
    rw [hmatrix]
    exact (syndromeMatricesEqual_iff hshape hshape).2 rfl
  -- without corrections the image is the repaired image, so the two matrices agree already
  have hequal : cs.isEmpty = true → cuetoolsSyndromeMatricesEqual plan.ourSyndrome plan.blobSyndrome plan.npar = true := by
    intro hempty
    rw [List.isEmpty_iff.1 hempty] at hrep
    rw [hspec.matrix_eq h hrep hspec.our hspec.our_eq]
    exact (syndromeMatricesEqual_iff hshape hshape).2 rfl
  refine ⟨cs, patch audio cs, hperm, hstrict, hrep, ?_, parity16, ctx, hparity, hctx, hmatrix⟩
  have hverified : (if cs.isEmpty then cuetoolsSyndromeMatricesEqual plan.ourSyndrome plan.blobSyndrome plan.npar
      else cuetoolsRepairedAudioMatchesBlob gf (patch audio cs) plan.blobSyndrome plan.npar actualOffset) = true := by
    by_cases hempty : cs.isEmpty = true
    · rw [if_pos hempty, hequal hempty]
    · rw [if_neg hempty, hmatches]
  rw [Ctdb.commitCorrections, hcs, happly]
  dsimp only
  rw [hverified, if_neg (by decide)]

/-! ## Soundness -/

/-- The rows of a column where two images differ. -/
def changedRows (before after : List Int16) (actualOffset : ℤ) (column : ℕ) : List ℕ :=
  (List.range (rowCount before)).filter fun row =>
    after.getD (imageIndex actualOffset row column) 0 ≠ before.getD (imageIndex actualOffset row column) 0

theorem xor_eq_left {a b : UInt16} : a ^^^ b = a ↔ b = 0 := by
  conv_lhs => rhs; rw [← UInt16.xor_zero (a := a)]
  exact UInt16.xor_right_inj a

section Repaired

variable {audio' : List Int16} {errors : ℕ → ℕ → UInt16}

theorem Repaired.ne_iff (hrep : Repaired audio actualOffset errors audio') {r c : ℕ} (hr : r < rowCount audio) (hc : c < stride) :
    audio'.getD (imageIndex actualOffset r c) 0 ≠ audio.getD (imageIndex actualOffset r c) 0 ↔ errors c r ≠ 0 := by
  rw [ne_eq, ← toUInt16_inj, hrep.word r hr c hc, xor_eq_left]

theorem Repaired.changedRows_eq (hrep : Repaired audio actualOffset errors audio') {c : ℕ} (hc : c < stride) :
    changedRows audio audio' actualOffset c = errorSupport (rowCount audio) (errors c) :=
  List.filter_congr fun _ hr => decide_eq_decide.2 (hrep.ne_iff (List.mem_range.1 hr) hc)

/-- The image changes exactly where the corrections are. -/
theorem Repaired.mem_corrections (hrep : Repaired audio actualOffset errors audio') {cs : List CuetoolsRepairCorrection}
    (hcs : cs.Perm (placed actualOffset (rowCount audio) stride errors)) (k : ℕ) :
    k ∈ cs.map CuetoolsRepairCorrection.audioIndex ↔ audio'.getD k 0 ≠ audio.getD k 0 := by
  rw [List.mem_map]
  constructor
  · rintro ⟨c, hc, rfl⟩
    obtain ⟨hr, hcol, hne, -, hidx⟩ := mem_placed.1 (hcs.mem_iff.1 hc)
    rw [hidx]
    exact (hrep.ne_iff hr hcol).2 hne
  · intro hne
    by_contra hnone
    refine hne (hrep.other k fun r hr c hc hk => hnone ?_)
    rw [hk] at hne
    exact ⟨⟨r, c, errors c r, imageIndex actualOffset r c⟩,
      hcs.mem_iff.2 (mem_placed.2 ⟨hr, hc, (hrep.ne_iff hr hc).1 hne, rfl, rfl⟩), hk.symm⟩

end Repaired

/-- What a successful repair promises. -/
structure SoundRepair (audio audio' : List Int16) (blob : List UInt8) (entry : CtdbEntry) (actualOffset : ℤ)
    (outcome : CuetoolsRepairOutcome) : Prop where
  length : audio'.length = audio.length
  matrix : ∃ parity16 ctx matrix, computeAudioParity16 audio' = some parity16 ∧
    cuetoolsBuildSyndromeContext audio' = some ctx ∧
    cuetoolsBytesToSyndromeMatrix blob stride (min entry.npar.toNat cuetoolsMaxNpar) = some matrix ∧
    cuetoolsGetSyndromeMatrix Galois16.new parity16 ctx (min entry.npar.toNat cuetoolsMaxNpar) (-actualOffset) = some matrix
  increasing : outcome.corrections.Pairwise fun a b => a.audioIndex < b.audioIndex
  magnitude_ne_zero : ∀ c ∈ outcome.corrections, c.magnitude ≠ 0
  changed : ∀ k, k ∈ outcome.corrections.map CuetoolsRepairCorrection.audioIndex ↔ audio'.getD k 0 ≠ audio.getD k 0
  protected_words : ∀ c ∈ outcome.corrections,
    c.row < rowCount audio ∧ c.column < stride ∧ c.audioIndex = imageIndex actualOffset c.row c.column
  weight : ∀ column < stride,
    (changedRows audio audio' actualOffset column).length ≤ min entry.npar.toNat cuetoolsMaxNpar / 2
  verified : outcome.verifiedAfter = true

/-- The errors of a damaged image. -/
def damage (image damaged : List Int16) (actualOffset : ℤ) (column row : ℕ) : UInt16 :=
  (damaged.getD (imageIndex actualOffset row column) 0).toUInt16 ^^^
    (image.getD (imageIndex actualOffset row column) 0).toUInt16

theorem repaired_of_damage {image damaged : List Int16} (hlength : damaged.length = image.length)
    (hwindow : ∀ k, damaged.getD k 0 ≠ image.getD k 0 →
      ∃ r < rowCount image, ∃ c < stride, k = imageIndex actualOffset r c) :
    Repaired damaged actualOffset (damage image damaged actualOffset) image := by
  have hcount : rowCount damaged = rowCount image := by rw [rowCount, rowCount, payloadLen, payloadLen, hlength]
  refine ⟨hlength.symm, fun r _ c _ => ?_, fun k hk => ?_⟩
  · rw [damage, ← UInt16.xor_assoc, UInt16.xor_self, UInt16.zero_xor]
  · by_contra hne
    obtain ⟨r, hr, c, hc, hkr⟩ := hwindow k (Ne.symm hne)
    exact hk r (hcount ▸ hr) c hc hkr

/-- The repaired image is determined. -/
theorem Repaired.unique {errors : ℕ → ℕ → UInt16} {a b : List Int16} (ha : Repaired audio actualOffset errors a)
    (hb : Repaired audio actualOffset errors b) : a = b := by
  have hword : ∀ k, a.getD k 0 = b.getD k 0 := by
    intro k
    by_cases hk : ∃ r < rowCount audio, ∃ c < stride, k = imageIndex actualOffset r c
    · obtain ⟨r, hr, c, hc, rfl⟩ := hk
      rw [← toUInt16_inj, ha.word r hr c hc, hb.word r hr c hc]
    · push Not at hk
      rw [ha.other k hk, hb.other k hk]
  apply List.ext_getElem (ha.length.trans hb.length.symm)
  intro k hka hkb
  have := hword k
  rwa [List.getD_eq_getElem _ _ hka, List.getD_eq_getElem _ _ hkb] at this

end Ctdb
