import Tonepoet.Ctdb.RepairPlan

/-!
# Committing a plan

Applying the corrections of an error matrix adds the matrix to the words it protects and leaves every
other word alone. The image's own matrix is linear in these words, so afterwards it is the blob's: the
verification passes and nothing is reverted.
-/

namespace Ctdb

open Rust

variable {audio : List Int16} {actualOffset : ℤ}

/-! ## Writing the corrections -/

/-- One corrected word. -/
def correctedWord (audio : List Int16) (c : CuetoolsRepairCorrection) : Int16 :=
  ((audio.getD c.audioIndex 0).toUInt16 ^^^ c.magnitude).toInt16

/-- The buffer after the corrections. -/
def patch (audio : List Int16) (cs : List CuetoolsRepairCorrection) : List Int16 :=
  cs.foldl (fun audio c => audio.set c.audioIndex (correctedWord audio c)) audio

theorem length_patch (cs : List CuetoolsRepairCorrection) : ∀ audio, (patch audio cs).length = audio.length := by
  induction cs with
  | nil => intro audio; rfl
  | cons c cs ih =>
    intro audio
    rw [patch, List.foldl_cons, ← patch, ih, List.length_set]

theorem getD_set_ne {α : Type} {xs : List α} {i k : ℕ} (h : i ≠ k) (a d : α) : (xs.set i a).getD k d = xs.getD k d := by
  rw [List.getD_eq_getElem?_getD, List.getElem?_set_ne h, ← List.getD_eq_getElem?_getD]

theorem getD_set_self {α : Type} {xs : List α} {i : ℕ} (h : i < xs.length) (a d : α) : (xs.set i a).getD i d = a := by
  rw [List.getD_eq_getElem?_getD, List.getElem?_set_self h, Option.getD_some]

/-- A word no correction names stays. -/
theorem getD_patch_of_notMem {k : ℕ} (cs : List CuetoolsRepairCorrection) :
    ∀ audio, k ∉ cs.map CuetoolsRepairCorrection.audioIndex → (patch audio cs).getD k 0 = audio.getD k 0 := by
  induction cs with
  | nil => intro audio _; rfl
  | cons c cs ih =>
    intro audio hk
    rw [List.map_cons, List.mem_cons, not_or] at hk
    rw [patch, List.foldl_cons, ← patch, ih _ hk.2, getD_set_ne (Ne.symm hk.1)]

/-- A word one correction names is corrected once. -/
theorem getD_patch_of_mem {c : CuetoolsRepairCorrection} (cs : List CuetoolsRepairCorrection) :
    ∀ audio, (cs.map CuetoolsRepairCorrection.audioIndex).Nodup → c ∈ cs → c.audioIndex < audio.length →
      (patch audio cs).getD c.audioIndex 0 = correctedWord audio c := by
  induction cs with
  | nil => intro audio _ hc; cases hc
  | cons d cs ih =>
    intro audio hnodup hc hlt
    rw [List.map_cons, List.nodup_cons] at hnodup
    rw [patch, List.foldl_cons, ← patch]
    rcases List.mem_cons.1 hc with rfl | hc
    · rw [getD_patch_of_notMem _ _ hnodup.1, getD_set_self hlt]
    · have hne : d.audioIndex ≠ c.audioIndex := fun h => hnodup.1 (h ▸ List.mem_map_of_mem hc)
      rw [ih _ hnodup.2 hc (by rwa [List.length_set]), correctedWord, getD_set_ne hne, ← correctedWord]

theorem applyCorrections_ok {cs : List CuetoolsRepairCorrection} (hlt : ∀ c ∈ cs, c.audioIndex < audio.length) :
    ∃ old, applyCorrections audio cs = .ok (old, patch audio cs) := by
  have hloop : ∀ (cs : List CuetoolsRepairCorrection) (old : List (ℕ × Int16)) (audio : List Int16),
      (∀ c ∈ cs, c.audioIndex < audio.length) → ∃ old',
        cs.foldlM (fun state correction => do
          let old ← index state.2 correction.audioIndex
          let fixed := old.toUInt16 ^^^ correction.magnitude
          let audio ← assign state.2 correction.audioIndex fixed.toInt16
          pure (state.1 ++ [(correction.audioIndex, old)], audio)) (old, audio) =
        (.ok (old', patch audio cs) : Outcome RepairError (List (ℕ × Int16) × List Int16)) := by
    intro cs
    induction cs with
    | nil => intro old audio _; exact ⟨old, rfl⟩
    | cons c cs ih =>
      intro old audio hlt
      have hc := hlt c (by simp)
      obtain ⟨old', h⟩ := ih (old ++ [(c.audioIndex, audio.getD c.audioIndex 0)])
        (audio.set c.audioIndex (correctedWord audio c)) fun d hd => by
          rw [List.length_set]
          exact hlt d (by simp [hd])
      refine ⟨old', ?_⟩
      rw [List.foldlM_cons]
      dsimp only
      rw [index_of_getElem? (getElem?_getD 0 hc), pure_bind, assign_of_lt hc, pure_bind, pure_bind]
      exact h
  exact hloop cs [] audio hlt

/-! ## The corrections of an error matrix -/

variable {errors : ℕ → ℕ → UInt16}

theorem mem_placed {n columns : ℕ} {c : CuetoolsRepairCorrection} :
    c ∈ placed actualOffset n columns errors ↔ c.row < n ∧ c.column < columns ∧ errors c.column c.row ≠ 0 ∧
      c.magnitude = errors c.column c.row ∧ c.audioIndex = imageIndex actualOffset c.row c.column := by
  rw [placed, List.mem_flatMap]
  constructor
  · rintro ⟨column, hcolumn, hc⟩
    obtain ⟨e, he, rfl⟩ := List.mem_map.1 hc
    obtain ⟨r, hr, rfl⟩ := List.mem_map.1 he
    obtain ⟨hlt, hne⟩ := mem_errorSupport.1 hr
    exact ⟨hlt, List.mem_range.1 hcolumn, hne, rfl, rfl⟩
  · rintro ⟨hr, hc, hne, hmag, hidx⟩
    refine ⟨c.column, List.mem_range.2 hc, List.mem_map.2 ⟨⟨c.row, c.magnitude⟩, ?_, ?_⟩⟩
    · exact List.mem_map.2 ⟨c.row, mem_errorSupport.2 ⟨hr, hne⟩, by rw [hmag]⟩
    · rw [place, ← hidx]

theorem InRange.lt_of_mem_placed (h : InRange audio actualOffset) {c : CuetoolsRepairCorrection}
    (hc : c ∈ placed actualOffset (rowCount audio) stride errors) : c.audioIndex < audio.length := by
  obtain ⟨hr, hcol, -, -, hidx⟩ := mem_placed.1 hc
  rw [hidx]
  exact (h.imageIndex_eq hr hcol).2

theorem InRange.nodup_placed (h : InRange audio actualOffset) :
    ((placed actualOffset (rowCount audio) stride errors).map CuetoolsRepairCorrection.audioIndex).Nodup := by
  rw [placed, List.map_flatMap, List.nodup_flatMap]
  constructor
  · intro column hcolumn
    have hcolumn := List.mem_range.1 hcolumn
    rw [errorEntries, List.map_map, List.map_map]
    refine (List.nodup_map_iff_inj_on (nodup_errorSupport _ _)).2 fun r hr r' hr' heq => ?_
    exact (h.imageIndex_inj (mem_errorSupport.1 hr).1 hcolumn (mem_errorSupport.1 hr').1 hcolumn heq).1
  · refine List.Pairwise.imp_of_mem ?_ (List.nodup_range (n := stride))
    intro column column' hcolumn hcolumn' hne k hk hk'
    obtain ⟨c, hc, rfl⟩ := List.mem_map.1 hk
    obtain ⟨e, he, rfl⟩ := List.mem_map.1 hc
    obtain ⟨r, hr, rfl⟩ := List.mem_map.1 he
    obtain ⟨c', hc', heq⟩ := List.mem_map.1 hk'
    obtain ⟨e', he', rfl⟩ := List.mem_map.1 hc'
    obtain ⟨r', hr', rfl⟩ := List.mem_map.1 he'
    exact hne (h.imageIndex_inj (mem_errorSupport.1 hr).1 (List.mem_range.1 hcolumn) (mem_errorSupport.1 hr').1
      (List.mem_range.1 hcolumn') heq.symm).2

/-- The image with an error matrix added to its protected words. -/
structure Repaired (audio : List Int16) (actualOffset : ℤ) (errors : ℕ → ℕ → UInt16) (audio' : List Int16) : Prop where
  length : audio'.length = audio.length
  word : ∀ r < rowCount audio, ∀ c < stride, (audio'.getD (imageIndex actualOffset r c) 0).toUInt16 =
    (audio.getD (imageIndex actualOffset r c) 0).toUInt16 ^^^ errors c r
  other : ∀ k, (∀ r < rowCount audio, ∀ c < stride, k ≠ imageIndex actualOffset r c) → audio'.getD k 0 = audio.getD k 0

/-- **Patching with the corrections of an error matrix adds the matrix**, in whatever order they come. -/
theorem InRange.repaired_patch (h : InRange audio actualOffset) {cs : List CuetoolsRepairCorrection}
    (hcs : cs.Perm (placed actualOffset (rowCount audio) stride errors)) :
    Repaired audio actualOffset errors (patch audio cs) := by
  have hnodup := ((hcs.map CuetoolsRepairCorrection.audioIndex).nodup_iff).2 h.nodup_placed
  have hkeep : ∀ k, (∀ c ∈ placed actualOffset (rowCount audio) stride errors, c.audioIndex ≠ k) →
      (patch audio cs).getD k 0 = audio.getD k 0 := by
    intro k hk
    refine getD_patch_of_notMem _ _ fun hmem => ?_
    obtain ⟨c, hc, hck⟩ := List.mem_map.1 hmem
    exact hk c (hcs.mem_iff.1 hc) hck
  refine ⟨length_patch _ _, fun r hr c hc => ?_, fun k hk => ?_⟩
  · by_cases hzero : errors c r = 0
    · rw [hkeep, hzero, UInt16.xor_zero]
      intro d hd hidx
      obtain ⟨hdr, hdc, hdne, -, hdidx⟩ := mem_placed.1 hd
      obtain ⟨hrow, hcol⟩ := h.imageIndex_inj hdr hdc hr hc (hdidx.symm.trans hidx)
      exact hdne (by rw [hrow, hcol]; exact hzero)
    · have hmem : (⟨r, c, errors c r, imageIndex actualOffset r c⟩ : CuetoolsRepairCorrection) ∈ cs :=
        hcs.mem_iff.2 (mem_placed.2 ⟨hr, hc, hzero, rfl, rfl⟩)
      have := getD_patch_of_mem cs audio hnodup hmem (h.imageIndex_eq hr hc).2
      rw [this, correctedWord, Int16.toUInt16, UInt16.toInt16]
  · refine hkeep k fun d hd hidx => ?_
    obtain ⟨hdr, hdc, -, -, hdidx⟩ := mem_placed.1 hd
    exact hk _ hdr _ hdc (hidx.symm.trans hdidx)

/-! ## The matrix of the repaired image -/

namespace Repaired

variable {audio' : List Int16}

theorem payloadLen_eq (hrep : Repaired audio actualOffset errors audio') : payloadLen audio' = payloadLen audio := by
  rw [payloadLen, payloadLen, hrep.length]

theorem rowCount_eq (hrep : Repaired audio actualOffset errors audio') : rowCount audio' = rowCount audio := by
  rw [rowCount, rowCount, hrep.payloadLen_eq]

theorem inRange (hrep : Repaired audio actualOffset errors audio') (h : InRange audio actualOffset) :
    InRange audio' actualOffset := by
  refine ⟨⟨?_, ?_⟩, h.offset⟩
  · rw [hrep.payloadLen_eq]
    exact h.spans.payload
  · rw [hrep.length]
    exact h.spans.fits

/-- The syndromes are linear in the protected words. -/
theorem plainSyndrome_eq (hrep : Repaired audio actualOffset errors audio') (h : InRange audio actualOffset) {c : ℕ}
    (hc : c < stride) (i : ℕ) : plainSyndrome audio' (2 * -actualOffset) c i =
      plainSyndrome audio (2 * -actualOffset) c i + errorSyndrome (rowCount audio) (errors c) i := by
  rw [plainSyndrome, plainSyndrome, errorSyndrome, hrep.rowCount_eq, ← Finset.sum_add_distrib]
  refine Finset.sum_congr rfl fun r hr => ?_
  have hr := Finset.mem_range.1 hr
  rw [(hrep.inRange h).shiftedWord_eq (by rwa [hrep.rowCount_eq]) hc, h.shiftedWord_eq hr hc, hrep.word r hr c hc, toGF_xor,
    add_mul]

end Repaired

end Ctdb
