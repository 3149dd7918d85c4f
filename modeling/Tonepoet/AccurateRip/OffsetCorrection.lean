import Mathlib.Data.List.GetD
import Tonepoet.AccurateRip.Crc

/-!
# Offset correction (tui/accuraterip.rs:2317-2442)

Every track is rebuilt from itself and one neighbour, so that the disc moves as a whole by the offset.
`carry` is what a track hands to the next one; the tracks built so far and what they hand on are the
original tracks behind the silence that comes in.
-/

namespace AccurateRip

open Rust

/-- `xs[lo..hi]`. -/
def sliceOrPanic {α : Type} (xs : List α) (lo hi : ℕ) : Outcome String (List α) :=
  match slice xs lo hi with
  | some ys => .ok ys
  | none => .error .panic

/-- `a - b` on `usize`. -/
def subOrPanic (a b : ℕ) : Outcome String ℕ :=
  match checkedSub a b with
  | some d => .ok d
  | none => .error .panic

/-- The first `sample_shift` values of a track moved right. -/
def prefixOf (allRaw : List (List Int16)) (sampleShift i : ℕ) : Outcome String (List Int16) :=
  if i = 0 then .ok (List.replicate sampleShift 0)
  else do
    let prev ← index allRaw (i - 1)
    let start ← subOrPanic prev.length sampleShift
    sliceOrPanic prev start prev.length

/-- The last `sample_shift` values of a track moved left. -/
def suffixOf (allRaw : List (List Int16)) (sampleShift i : ℕ) : Outcome String (List Int16) :=
  if i + 1 < allRaw.length then do
    let next ← index allRaw (i + 1)
    sliceOrPanic next 0 sampleShift
  else .ok (List.replicate sampleShift 0)

/-- The body of the rebuild loop (accuraterip.rs:2398-2432). -/
def correctTrack (offset : ℤ) (allRaw : List (List Int16)) (sampleShift : ℕ) (raw : List Int16) (i : ℕ) :
    Outcome String (List Int16) := do
  let corrected ←
    if offset > 0 then do
      let front ← prefixOf allRaw sampleShift i
      let stop ← subOrPanic raw.length sampleShift
      let kept ← sliceOrPanic raw 0 stop
      .ok (front ++ kept)
    else do
      let back ← suffixOf allRaw sampleShift i
      let kept ← sliceOrPanic raw sampleShift raw.length
      .ok (kept ++ back)
  if corrected.length ≠ raw.length then
    fail s!"Internal error: corrected track {i + 1} has {corrected.length / 2} samples, expected {raw.length / 2}"
  else .ok corrected

/-- The check behind the decoder (accuraterip.rs:2377). -/
def checkTrack (sampleShift absOffset : ℕ) (raw : List Int16) (i : ℕ) : Outcome String Unit :=
  if raw.length < sampleShift then
    fail s!"Track {i + 1} too short ({raw.length / 2} samples) for offset correction of {absOffset} samples"
  else .ok ()

/-- The rebuild of `offset_correction_inner`, with the sample shift of `apply_offset_correction`: all
    tracks are decoded and checked before the first one is rebuilt. -/
def correctTracks (offset : ℤ) (allRaw : List (List Int16)) : Outcome String (List (List Int16)) := do
  let absOffset := offset.natAbs
  let sampleShift := absOffset * 2
  let _ ← allRaw.zipIdx.mapM fun (raw, i) => checkTrack sampleShift absOffset raw i
  allRaw.zipIdx.mapM fun (raw, i) => correctTrack offset allRaw sampleShift raw i

/-! ## The tracks that are built -/

variable {tracks : List (List Int16)} {k : ℕ}

/-- What comes in before track `i` when the disc moves right. -/
def carryRight (k : ℕ) (tracks : List (List Int16)) (i : ℕ) : List Int16 :=
  if i = 0 then List.replicate k 0 else (tracks.getD (i - 1) []).drop ((tracks.getD (i - 1) []).length - k)

/-- What comes in behind track `i - 1` when the disc moves left. -/
def carryLeft (k : ℕ) (tracks : List (List Int16)) (i : ℕ) : List Int16 :=
  if i < tracks.length then (tracks.getD i []).take k else List.replicate k 0

/-- Track `i` of the corrected disc. -/
def correctedTrack (offset : ℤ) (k : ℕ) (tracks : List (List Int16)) (i : ℕ) : List Int16 :=
  let raw := tracks.getD i []
  if offset > 0 then carryRight k tracks i ++ raw.take (raw.length - k) else raw.drop k ++ carryLeft k tracks (i + 1)

theorem sliceOrPanic_ok {α : Type} {xs : List α} {lo hi : ℕ} (h : lo ≤ hi) (hlen : hi ≤ xs.length) :
    sliceOrPanic xs lo hi = .ok ((xs.drop lo).take (hi - lo)) := by
  unfold sliceOrPanic
  rw [slice_of_le h hlen]

theorem subOrPanic_ok {a b : ℕ} (h : b ≤ a) : subOrPanic a b = .ok (a - b) := by
  unfold subOrPanic
  rw [checkedSub_of_le h]

theorem index_track {i : ℕ} (hi : i < tracks.length) :
    (index tracks i : Outcome String (List Int16)) = .ok (tracks.getD i []) := index_of_getElem? (getElem?_getD [] hi)

theorem getD_mem {i : ℕ} (hi : i < tracks.length) : tracks.getD i [] ∈ tracks := by
  rw [List.getD_eq_getElem _ _ hi]
  exact List.getElem_mem hi

theorem prefixOf_ok (hlong : ∀ t ∈ tracks, k ≤ t.length) {i : ℕ} (hi : i < tracks.length) :
    prefixOf tracks k i = .ok (carryRight k tracks i) := by
  unfold prefixOf carryRight
  by_cases h0 : i = 0
  · rw [if_pos h0, if_pos h0]
  · have hprev : i - 1 < tracks.length := by omega
    have hk := hlong _ (getD_mem hprev)
    rw [if_neg h0, if_neg h0, index_track hprev, ok_bind, subOrPanic_ok hk, ok_bind,
      sliceOrPanic_ok (Nat.sub_le _ _) le_rfl]
    rw [List.take_of_length_le (by rw [List.length_drop])]

theorem suffixOf_ok (hlong : ∀ t ∈ tracks, k ≤ t.length) (i : ℕ) :
    suffixOf tracks k i = .ok (carryLeft k tracks (i + 1)) := by
  unfold suffixOf carryLeft
  by_cases hi : i + 1 < tracks.length
  · rw [if_pos hi, if_pos hi, index_track hi, ok_bind, sliceOrPanic_ok (Nat.zero_le _) (hlong _ (getD_mem hi))]
    rfl
  · rw [if_neg hi, if_neg hi]

theorem length_carryRight (hlong : ∀ t ∈ tracks, k ≤ t.length) {i : ℕ} (hi : i ≤ tracks.length) :
    (carryRight k tracks i).length = k := by
  unfold carryRight
  by_cases h0 : i = 0
  · rw [if_pos h0, List.length_replicate]
  · have hk := hlong _ (getD_mem (i := i - 1) (by omega))
    rw [if_neg h0, List.length_drop]
    omega

theorem length_carryLeft (hlong : ∀ t ∈ tracks, k ≤ t.length) (i : ℕ) : (carryLeft k tracks i).length = k := by
  unfold carryLeft
  by_cases hi : i < tracks.length
  · rw [if_pos hi, List.length_take, min_eq_left (hlong _ (getD_mem hi))]
  · rw [if_neg hi, List.length_replicate]

theorem length_correctedTrack (offset : ℤ) (hlong : ∀ t ∈ tracks, k ≤ t.length) {i : ℕ} (hi : i < tracks.length) :
    (correctedTrack offset k tracks i).length = (tracks.getD i []).length := by
  have hk := hlong _ (getD_mem hi)
  unfold correctedTrack
  by_cases hright : offset > 0
  · simp only [if_pos hright, List.length_append, length_carryRight hlong hi.le, List.length_take]
    omega
  · simp only [if_neg hright, List.length_append, length_carryLeft hlong, List.length_drop]
    omega

theorem correctTrack_ok (offset : ℤ) (hlong : ∀ t ∈ tracks, k ≤ t.length) {i : ℕ} (hi : i < tracks.length) :
    correctTrack offset tracks k (tracks.getD i []) i = .ok (correctedTrack offset k tracks i) := by
  have hk := hlong _ (getD_mem hi)
  have hlen := length_correctedTrack offset hlong hi
  unfold correctTrack
  unfold correctedTrack at hlen ⊢
  by_cases hright : offset > 0
  · simp only [if_pos hright] at hlen ⊢
    rw [prefixOf_ok hlong hi, ok_bind, subOrPanic_ok hk, ok_bind, sliceOrPanic_ok (Nat.zero_le _) (Nat.sub_le _ _), ok_bind,
      ok_bind, List.drop_zero, Nat.sub_zero, if_neg (not_not.2 hlen)]
  · simp only [if_neg hright] at hlen ⊢
    have hkept : ((tracks.getD i []).drop k).take ((tracks.getD i []).length - k) = (tracks.getD i []).drop k :=
      List.take_of_length_le (by rw [List.length_drop])
    rw [suffixOf_ok hlong, ok_bind, sliceOrPanic_ok hk le_rfl, ok_bind, ok_bind, hkept, if_neg (not_not.2 hlen)]

/-- The corrected disc. -/
def correctedTracks (offset : ℤ) (k : ℕ) (tracks : List (List Int16)) : List (List Int16) :=
  (List.range tracks.length).map (correctedTrack offset k tracks)

theorem zipIdx_eq_map (tracks : List (List Int16)) :
    tracks.zipIdx = (List.range tracks.length).map fun i => (tracks.getD i [], i) := by
  apply List.ext_getElem
  · simp
  · intro i hi hi'
    have hlt : i < tracks.length := by simpa using hi
    rw [List.getElem_zipIdx, List.getElem_map, List.getElem_range, List.getD_eq_getElem _ _ hlt, Nat.zero_add]

/-- **The rebuild never stops**, once every track is long enough. -/
theorem correctTracks_ok {offset : ℤ} (hlong : ∀ t ∈ tracks, offset.natAbs * 2 ≤ t.length) :
    correctTracks offset tracks = .ok (correctedTracks offset (offset.natAbs * 2) tracks) := by
  have hcheck : (tracks.zipIdx.mapM fun (raw, i) => checkTrack (offset.natAbs * 2) offset.natAbs raw i) =
      .ok (tracks.zipIdx.map fun _ => ()) := by
    refine mapM_ok fun x hx => if_neg ?_
    rw [zipIdx_eq_map] at hx
    obtain ⟨i, hi, rfl⟩ := List.mem_map.1 hx
    exact not_lt.2 (hlong _ (getD_mem (List.mem_range.1 hi)))
  have hbuild : (tracks.zipIdx.mapM fun (raw, i) => correctTrack offset tracks (offset.natAbs * 2) raw i) =
      .ok (correctedTracks offset (offset.natAbs * 2) tracks) := by
    rw [zipIdx_eq_map, List.mapM_map]
    exact mapM_ok fun i hi => correctTrack_ok offset hlong (List.mem_range.1 hi)
  rw [correctTracks, hcheck]
  exact hbuild

/-! ## The disc as a whole -/

theorem flatten_take_succ {m : ℕ} (hm : m < tracks.length) :
    (tracks.take (m + 1)).flatten = (tracks.take m).flatten ++ tracks.getD m [] := by
  rw [← List.take_append_getElem hm, List.flatten_append, List.flatten_singleton, List.getD_eq_getElem _ _ hm]

/-- Up to track `m`, moved right: the tracks built and what the last one hands on are the silence and the
    tracks they were built from. -/
theorem flatMap_right {offset : ℤ} (hright : offset > 0) (m : ℕ) (hm : m ≤ tracks.length) :
    (List.range m).flatMap (correctedTrack offset k tracks) ++ carryRight k tracks m =
      List.replicate k 0 ++ (tracks.take m).flatten := by
  induction m with
  | zero => simp [carryRight]
  | succ m ih =>
    have hlt : m < tracks.length := hm
    have htrack : correctedTrack offset k tracks m =
        carryRight k tracks m ++ (tracks.getD m []).take ((tracks.getD m []).length - k) := if_pos hright
    have hcarry : carryRight k tracks (m + 1) = (tracks.getD m []).drop ((tracks.getD m []).length - k) := by
      rw [carryRight, if_neg (Nat.succ_ne_zero m), Nat.add_sub_cancel]
    have htake := flatten_take_succ hlt
    calc (List.range (m + 1)).flatMap (correctedTrack offset k tracks) ++ carryRight k tracks (m + 1)
        = ((List.range m).flatMap (correctedTrack offset k tracks) ++ carryRight k tracks m) ++
            ((tracks.getD m []).take ((tracks.getD m []).length - k) ++
              (tracks.getD m []).drop ((tracks.getD m []).length - k)) := by
          rw [List.range_succ, List.flatMap_append, hcarry]
          simp [htrack]
      _ = List.replicate k 0 ++ (tracks.take (m + 1)).flatten := by
          rw [ih hlt.le, List.take_append_drop, htake, List.append_assoc]

/-- Up to track `m`, moved left. -/
theorem flatMap_left {offset : ℤ} (hleft : ¬ offset > 0) (m : ℕ) (hm : m ≤ tracks.length) :
    carryLeft k tracks 0 ++ (List.range m).flatMap (correctedTrack offset k tracks) =
      (tracks.take m).flatten ++ carryLeft k tracks m := by
  induction m with
  | zero => simp
  | succ m ih =>
    have hlt : m < tracks.length := hm
    have htrack : correctedTrack offset k tracks m = (tracks.getD m []).drop k ++ carryLeft k tracks (m + 1) := if_neg hleft
    have hcarry : carryLeft k tracks m = (tracks.getD m []).take k := if_pos hlt
    have htake := flatten_take_succ hlt
    calc carryLeft k tracks 0 ++ (List.range (m + 1)).flatMap (correctedTrack offset k tracks)
        = (carryLeft k tracks 0 ++ (List.range m).flatMap (correctedTrack offset k tracks)) ++
            correctedTrack offset k tracks m := by
          rw [List.range_succ, List.flatMap_append]
          simp
      _ = (tracks.take m).flatten ++ ((tracks.getD m []).take k ++ (tracks.getD m []).drop k) ++
            carryLeft k tracks (m + 1) := by
          rw [ih hlt.le, htrack, hcarry]
          simp only [List.append_assoc]
      _ = (tracks.take (m + 1)).flatten ++ carryLeft k tracks (m + 1) := by rw [List.take_append_drop, htake]

/-- **The disc moves right.** -/
theorem flatten_right {offset : ℤ} (hright : offset > 0) (hlong : ∀ t ∈ tracks, k ≤ t.length) :
    ∃ lost, lost.length = k ∧ List.replicate k 0 ++ tracks.flatten = (correctedTracks offset k tracks).flatten ++ lost := by
  refine ⟨_, length_carryRight hlong le_rfl, ?_⟩
  have h := flatMap_right (k := k) hright tracks.length le_rfl
  rw [List.take_length, List.flatMap_def] at h
  exact h.symm

/-- **The disc moves left.** -/
theorem flatten_left {offset : ℤ} (hleft : ¬ offset > 0) (hlong : ∀ t ∈ tracks, k ≤ t.length) :
    ∃ lost, lost.length = k ∧ tracks.flatten ++ List.replicate k 0 = lost ++ (correctedTracks offset k tracks).flatten := by
  refine ⟨_, length_carryLeft hlong 0, ?_⟩
  have h := flatMap_left (k := k) hleft tracks.length le_rfl
  have hend : carryLeft k tracks tracks.length = List.replicate k 0 := if_neg (lt_irrefl _)
  rw [List.take_length, hend, List.flatMap_def] at h
  exact h.symm

theorem map_length_corrected (offset : ℤ) (hlong : ∀ t ∈ tracks, k ≤ t.length) :
    (correctedTracks offset k tracks).map List.length = tracks.map List.length := by
  apply List.ext_getElem
  · simp [correctedTracks]
  · intro i hi hi'
    have hlt : i < tracks.length := by simpa using hi'
    simp only [correctedTracks, List.getElem_map, List.getElem_range]
    rw [length_correctedTrack offset hlong hlt, List.getD_eq_getElem _ _ hlt]

/-! ## The windows of the tracks -/

/-- Where track `i` starts on the disc, in stereo pairs. -/
def trackStart (tracks : List (List Int16)) (i : ℕ) : ℕ := (tracks.take i).flatten.length / 2

/-- A window that lies in the buffer is read as it is. -/
theorem computeArCrcsAtOffset_window (before window behind : List UInt32) (isFirst isLast : Bool) {margin : ℕ} {offset : ℤ}
    (hstart : (margin : ℤ) - offset = before.length) :
    computeArCrcsAtOffset (before ++ window ++ behind) window.length margin offset isFirst isLast =
      some (computeArCrcs window isFirst isLast) := by
  unfold computeArCrcsAtOffset
  simp only [hstart]
  have hlen : (before ++ window ++ behind).length = before.length + window.length + behind.length := by
    rw [List.length_append, List.length_append]
  have hstop : ((before.length : ℤ) + window.length).toNat - (before.length : ℤ).toNat = window.length := by omega
  rw [if_neg (by rw [hlen]; push_cast; omega), hstop, Int.toNat_natCast, List.append_assoc, List.drop_left, List.take_left]

/-- The disc, cut at a corrected track. -/
theorem flatten_split {corrected : List (List Int16)} {i : ℕ} (hi : i < corrected.length) :
    corrected.flatten = (corrected.take i).flatten ++ corrected.getD i [] ++ (corrected.drop (i + 1)).flatten := by
  conv_lhs => rw [← List.take_append_drop i corrected, List.drop_eq_getElem_cons hi]
  rw [List.flatten_append, List.flatten_cons, List.getD_eq_getElem _ _ hi, List.append_assoc]

theorem even_flatten {ts : List (List Int16)} (h : ∀ t ∈ ts, t.length % 2 = 0) : ts.flatten.length % 2 = 0 := by
  induction ts with
  | nil => rfl
  | cons t ts ih =>
    have h1 := h t (by simp)
    have h2 := ih fun u hu => h u (by simp [hu])
    rw [List.flatten_cons, List.length_append]
    omega

/-- The tracks of a corrected disc have the lengths of the tracks they replace. -/
theorem length_flatten_take {ts us : List (List Int16)} (h : us.map List.length = ts.map List.length) (i : ℕ) :
    (us.take i).flatten.length = (ts.take i).flatten.length := by
  rw [List.length_flatten, List.length_flatten, List.map_take, List.map_take, h]

/-- The DWORDs of a stream of tracks around one of them. -/
theorem toDwords_split {ts : List (List Int16)} (heven : ∀ t ∈ ts, t.length % 2 = 0) {i : ℕ} (hi : i < ts.length)
    (behind : List Int16) : toDwords (ts.flatten ++ behind) =
      toDwords (ts.take i).flatten ++ toDwords (ts.getD i []) ++ toDwords ((ts.drop (i + 1)).flatten ++ behind) := by
  have hfront : (ts.take i).flatten.length % 2 = 0 := even_flatten fun t ht => heven t (List.mem_of_mem_take ht)
  have htrack := heven _ (getD_mem hi)
  rw [flatten_split hi, List.append_assoc, List.append_assoc, toDwords_append hfront, toDwords_append htrack,
    List.append_assoc]

theorem even_corrected {offset : ℤ} (heven : ∀ t ∈ tracks, t.length % 2 = 0) (hlong : ∀ t ∈ tracks, k ≤ t.length) :
    ∀ t ∈ correctedTracks offset k tracks, t.length % 2 = 0 := by
  intro t ht
  obtain ⟨i, hi, rfl⟩ := List.mem_map.1 ht
  have hlt := List.mem_range.1 hi
  rw [length_correctedTrack offset hlong hlt]
  exact heven _ (getD_mem hlt)

/-- **The window of a track at the offset is the corrected track.** -/
theorem window_corrected {offset : ℤ} (heven : ∀ t ∈ tracks, t.length % 2 = 0)
    (hlong : ∀ t ∈ tracks, offset.natAbs * 2 ≤ t.length) {i : ℕ} (hi : i < tracks.length) {margin : ℕ}
    (hmargin : offset.natAbs ≤ margin) (isFirst isLast : Bool) :
    computeArCrcsAtOffset (decodeTrackToDwords tracks.flatten margin).1 ((tracks.getD i []).length / 2)
        (margin + trackStart tracks i) offset isFirst isLast =
      some (computeArCrcs (toDwords (correctedTrack offset (offset.natAbs * 2) tracks i)) isFirst isLast) := by
  obtain ⟨a, ha⟩ : ∃ a, offset.natAbs = a := ⟨_, rfl⟩
  obtain ⟨rest, rfl⟩ : ∃ rest, margin = rest + a := ⟨margin - a, by omega⟩
  rw [ha] at hlong ⊢
  have hsilence : toDwords (List.replicate (a * 2) 0) = List.replicate a 0 := by
    rw [mul_comm]
    exact toDwords_silence a
  obtain ⟨corrected, hcorrected⟩ : ∃ c, correctedTracks offset (a * 2) tracks = c := ⟨_, rfl⟩
  have hcount : i < corrected.length := by
    rw [← hcorrected]
    simpa [correctedTracks] using hi
  have hget : correctedTrack offset (a * 2) tracks i = corrected.getD i [] := by
    rw [List.getD_eq_getElem _ _ hcount]
    simp only [← hcorrected, correctedTracks, List.getElem_map, List.getElem_range]
  have hevenC : ∀ t ∈ corrected, t.length % 2 = 0 := hcorrected ▸ even_corrected heven hlong
  have hbefore : (toDwords (corrected.take i).flatten).length = trackStart tracks i := by
    rw [length_toDwords, length_flatten_take (hcorrected ▸ map_length_corrected offset hlong), trackStart]
  have hwindow : (tracks.getD i []).length / 2 = (toDwords (corrected.getD i [])).length := by
    rw [length_toDwords, ← hget, length_correctedTrack offset hlong hi]
  have hfull : (decodeTrackToDwords tracks.flatten (rest + a)).1 =
      List.replicate (rest + a) 0 ++ toDwords tracks.flatten ++ List.replicate (rest + a) 0 := rfl
  rw [hget, hwindow, hfull]
  by_cases hright : offset > 0
  · -- the silence in front is half margin, half what comes in
    obtain ⟨lost, -, hdisc⟩ := flatten_right hright hlong
    rw [hcorrected] at hdisc
    have hstream : List.replicate a 0 ++ toDwords tracks.flatten =
        toDwords (corrected.take i).flatten ++ toDwords (corrected.getD i []) ++
          toDwords ((corrected.drop (i + 1)).flatten ++ lost) := by
      rw [← hsilence, ← toDwords_append (by rw [List.length_replicate]; omega), hdisc, toDwords_split hevenC hcount]
    have hbuffer : List.replicate (rest + a) 0 ++ toDwords tracks.flatten ++ List.replicate (rest + a) 0 =
        (List.replicate rest 0 ++ toDwords (corrected.take i).flatten) ++ toDwords (corrected.getD i []) ++
          (toDwords ((corrected.drop (i + 1)).flatten ++ lost) ++ List.replicate (rest + a) 0) := by
      rw [List.replicate_add rest a 0, List.append_assoc (List.replicate rest 0), hstream]
      simp only [List.append_assoc]
    rw [hbuffer]
    apply computeArCrcsAtOffset_window
    rw [List.length_append, List.length_replicate, hbefore]
    push_cast
    omega
  · -- the silence behind is half what comes in, half margin
    obtain ⟨lost, hlost, hdisc⟩ := flatten_left hright hlong
    rw [hcorrected] at hdisc
    have hstream : toDwords tracks.flatten ++ List.replicate a 0 =
        toDwords lost ++ (toDwords (corrected.take i).flatten ++ toDwords (corrected.getD i []) ++
          toDwords ((corrected.drop (i + 1)).flatten ++ [])) := by
      rw [← hsilence, ← toDwords_append (even_flatten heven), hdisc, toDwords_append (by omega),
        ← toDwords_split hevenC hcount, List.append_nil]
    have hbuffer : List.replicate (rest + a) 0 ++ toDwords tracks.flatten ++ List.replicate (rest + a) 0 =
        (List.replicate (rest + a) 0 ++ toDwords lost ++ toDwords (corrected.take i).flatten) ++
          toDwords (corrected.getD i []) ++ (toDwords ((corrected.drop (i + 1)).flatten ++ []) ++ List.replicate rest 0) := by
      conv_lhs => rhs; rw [add_comm, List.replicate_add a rest 0]
      rw [List.append_assoc, ← List.append_assoc (toDwords tracks.flatten), hstream]
      simp only [List.append_assoc]
    rw [hbuffer]
    apply computeArCrcsAtOffset_window
    rw [List.length_append, List.length_append, List.length_replicate, hbefore, length_toDwords, hlost]
    push_cast
    omega

/-- **Offset correction is a pure shift of the disc.** The rebuild gives tracks of the lengths of the
originals. Put together they are the original disc moved by the offset, right or left: as much silence as
the offset enters at one edge and as many values leave at the other. And the checksums of each corrected
track are those of its window in the original disc at the offset, in a buffer of any margin that reaches it. -/
theorem offsetCorrection_shifts (offset : ℤ) (tracks : List (List Int16))
    (heven : ∀ t ∈ tracks, t.length % 2 = 0) (hlong : ∀ t ∈ tracks, 2 * offset.natAbs ≤ t.length) :
    ∃ corrected, correctTracks offset tracks = .ok corrected ∧
      corrected.map List.length = tracks.map List.length ∧
      (0 < offset → ∃ lost, lost.length = 2 * offset.natAbs ∧
        List.replicate (2 * offset.natAbs) 0 ++ tracks.flatten = corrected.flatten ++ lost) ∧
      (offset < 0 → ∃ lost, lost.length = 2 * offset.natAbs ∧
        tracks.flatten ++ List.replicate (2 * offset.natAbs) 0 = lost ++ corrected.flatten) ∧
      ∀ i (_ : i < tracks.length) (margin : ℕ), offset.natAbs ≤ margin → ∀ isFirst isLast,
        computeArCrcsAtOffset (decodeTrackToDwords tracks.flatten margin).1 ((tracks.getD i []).length / 2)
            (margin + trackStart tracks i) offset isFirst isLast =
          some (computeArCrcs (toDwords (corrected.getD i [])) isFirst isLast) := by
  rw [mul_comm 2] at hlong ⊢
  refine ⟨_, correctTracks_ok hlong, map_length_corrected offset hlong, fun hright => flatten_right hright hlong,
    fun hleft => flatten_left (by omega) hlong, ?_⟩
  intro i hi margin hmargin isFirst isLast
  rw [window_corrected heven hlong hi hmargin]
  have hcount : i < (correctedTracks offset (offset.natAbs * 2) tracks).length := by simpa [correctedTracks] using hi
  rw [List.getD_eq_getElem _ _ hcount]
  simp only [correctedTracks, List.getElem_map, List.getElem_range]

/-- A disc of two tracks moved right by one stereo pair. -/
theorem offsetCorrection_shifts_pair : correctTracks 1 [[1, 2, 3, 4], [5, 6]] = .ok [[0, 0, 1, 2], [3, 4]] ∧
    ∃ corrected, correctTracks 1 [[1, 2, 3, 4], [5, 6]] = .ok corrected ∧ corrected.map List.length = [4, 2] := by
  refine ⟨by rfl, ?_⟩
  obtain ⟨corrected, hcorrected, hlengths, -⟩ := offsetCorrection_shifts 1 [[1, 2, 3, 4], [5, 6]] (by decide)
    (by decide)
  exact ⟨corrected, hcorrected, hlengths⟩

end AccurateRip
