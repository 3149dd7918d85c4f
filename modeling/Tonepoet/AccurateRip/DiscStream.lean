import Tonepoet.AccurateRip.Windows

/-!
# What the two scans see (tui/accuraterip.rs:1300-1330, 1444-1583, 2042-2127)

`verify_album` scans a track between silences; `verify_single_image` scans the disc, as far as it reaches. The reports are stated by the
windows that each of them sees at an offset, and compared.
-/

namespace AccurateRip

open Rust

/-! ## Windows -/

/-- The window of a track that has silence on either side. -/
def silenced (dwords : List UInt32) (offset : ℤ) : List UInt32 :=
  if 0 ≤ offset then (List.replicate offset.natAbs 0 ++ dwords).take dwords.length
  else (dwords ++ List.replicate offset.natAbs 0).drop offset.natAbs

/-- The window of the disc, where it is on the disc. -/
def discWindow (disc : List UInt32) (start count : ℕ) (offset : ℤ) : Option (List UInt32) :=
  if 0 ≤ (start : ℤ) - offset ∧ (start : ℤ) - offset + count ≤ disc.length then
    some ((disc.drop ((start : ℤ) - offset).toNat).take count)
  else none

/-- The first offset whose window has a checksum of the track in a pressing. -/
def scan (windowAt : ℤ → Option (List UInt32)) (isFirst isLast : Bool) (pressings : List ArPressing) (trackIdx : ℕ) (offsets : List ℤ) :
    Option (ℤ × UInt8) :=
  offsets.findSome? fun offset => (windowAt offset).bind fun window =>
    let (v1, v2) := computeArCrcs window isFirst isLast
    pressings.findSome? fun pressing => do
      let entry ← pressing[trackIdx]?
      if v1 = entry.crc ∨ v2 = entry.crc then some (offset, entry.confidence) else none

/-- The report of track `i` of `n`, from its windows. -/
def report (fullScan : Bool) (pressings : List ArPressing) (n : ℕ) (windowAt : ℤ → Option (List UInt32)) (track : List UInt32) (i : ℕ) :
    ArTrackResult :=
  matchResult i (computeArCrcs track (i == 0) (i == n - 1)) (scan windowAt (i == 0) (i == n - 1) pressings i (scanOffsets fullScan))

/-- The boundaries of an image that is made of the tracks. -/
def boundariesOf (tracks : List (List Int16)) : List (UInt64 × UInt64) :=
  tracks.zipIdx.map fun (raw, i) => (UInt64.ofNat (trackStart tracks i), UInt64.ofNat (raw.length / 2))

variable {fullScan : Bool} {pressings : List ArPressing} {tracks : List (List Int16)} {dwords disc : List UInt32} {margin : ℕ} {offset : ℤ}

/-- The offsets of a scan are within its margin. -/
theorem natAbs_le_scanMargin (h : offset ∈ scanOffsets fullScan) : offset.natAbs ≤ scanMargin fullScan := by
  cases fullScan with
  | true =>
    obtain ⟨k, hk, rfl⟩ := List.mem_map.1 h
    have hlt := List.mem_range.1 hk
    change ((k : ℤ) - 1200).natAbs ≤ 1200
    omega
  | false =>
    have hall : ∀ offset ∈ commonOffsets, offset.natAbs ≤ 1194 := by decide
    rw [scanMargin_common]
    exact hall offset h

theorem zero_mem_scanOffsets (fullScan : Bool) : (0 : ℤ) ∈ scanOffsets fullScan := by
  cases fullScan with
  | true => exact List.mem_map.2 ⟨1200, List.mem_range.2 (by decide), rfl⟩
  | false => exact List.mem_cons_self

/-- A scan is told by its windows. -/
theorem tryOffsets_eq_scan {full : List UInt32} {len m : ℕ} {isFirst isLast : Bool} {i : ℕ} {offsets : List ℤ}
    {windowAt : ℤ → Option (List UInt32)}
    (h : ∀ offset ∈ offsets, computeArCrcsAtOffset full len m offset isFirst isLast =
      (windowAt offset).map fun window => computeArCrcs window isFirst isLast) :
    tryOffsets full len m isFirst isLast pressings i offsets = scan windowAt isFirst isLast pressings i offsets := by
  unfold tryOffsets scan
  induction offsets with
  | nil => rfl
  | cons offset offsets ih =>
    rw [List.forall_mem_cons] at h
    rw [List.findSome?_cons, List.findSome?_cons, ih h.2, h.1]
    cases windowAt offset <;> rfl

/-! ## A track between silences -/

theorem length_silenced (dwords : List UInt32) (offset : ℤ) : (silenced dwords offset).length = dwords.length := by
  unfold silenced
  split_ifs <;> simp

theorem computeArCrcsAtOffset_silenced (dwords : List UInt32) (h : offset.natAbs ≤ margin) (isFirst isLast : Bool) :
    computeArCrcsAtOffset (List.replicate margin 0 ++ dwords ++ List.replicate margin 0) dwords.length margin offset isFirst isLast =
      some (computeArCrcs (silenced dwords offset) isFirst isLast) := by
  -- the part of the silence that the window leaves aside
  obtain ⟨rest, rfl⟩ : ∃ rest, margin = rest + offset.natAbs := ⟨margin - offset.natAbs, by omega⟩
  have hlen := length_silenced dwords offset
  by_cases hsign : 0 ≤ offset
  · have hwindow : List.replicate offset.natAbs 0 ++ dwords =
        silenced dwords offset ++ (List.replicate offset.natAbs 0 ++ dwords).drop dwords.length := by
      unfold silenced
      rw [if_pos hsign, List.take_append_drop]
    have hbuffer : List.replicate (rest + offset.natAbs) 0 ++ dwords ++ List.replicate (rest + offset.natAbs) 0 =
        List.replicate rest 0 ++ silenced dwords offset ++
          ((List.replicate offset.natAbs 0 ++ dwords).drop dwords.length ++ List.replicate (rest + offset.natAbs) 0) := by
      conv_lhs => rw [List.replicate_add, List.append_assoc (List.replicate rest 0), hwindow]
      simp only [List.append_assoc, ← List.replicate_add]
    rw [hbuffer, ← hlen]
    exact computeArCrcsAtOffset_window _ _ _ isFirst isLast (by rw [List.length_replicate]; omega)
  · have hwindow : dwords ++ List.replicate offset.natAbs 0 =
        (dwords ++ List.replicate offset.natAbs 0).take offset.natAbs ++ silenced dwords offset := by
      unfold silenced
      rw [if_neg hsign, List.take_append_drop]
    have hbuffer : List.replicate (rest + offset.natAbs) 0 ++ dwords ++ List.replicate (rest + offset.natAbs) 0 =
        (List.replicate (rest + offset.natAbs) 0 ++ (dwords ++ List.replicate offset.natAbs 0).take offset.natAbs) ++
          silenced dwords offset ++ List.replicate rest 0 := by
      have hcomm : List.replicate (rest + offset.natAbs) (0 : UInt32) = List.replicate offset.natAbs 0 ++ List.replicate rest 0 := by
        rw [Nat.add_comm, List.replicate_add]
      conv_lhs => rw [List.append_assoc]
      conv_lhs =>
        arg 2
        rw [hcomm, ← List.append_assoc, hwindow]
      simp only [List.append_assoc]
    rw [hbuffer, ← hlen]
    refine computeArCrcsAtOffset_window _ _ _ isFirst isLast ?_
    rw [List.length_append, List.length_replicate, List.length_take, List.length_append, List.length_replicate]
    omega

/-- `verify_album` sees every track between silences. -/
theorem verifyTrack_report {raw : List Int16} {n duration i : ℕ} :
    verifyTrack fullScan n 0 duration pressings (.ok raw) i =
      .ok (report fullScan pressings n (fun offset => some (silenced (toDwords raw) offset)) (toDwords raw) i) := by
  have heffective : effectiveWindow (i == 0) 0 duration (scanMargin fullScan) (raw.length / 2) = (scanMargin fullScan, raw.length / 2) :=
    if_neg fun h => absurd h.2.1 (lt_irrefl 0)
  have hlen : raw.length / 2 = (toDwords raw).length := (length_toDwords raw).symm
  have hwindows : ∀ offset ∈ scanOffsets fullScan,
      computeArCrcsAtOffset (List.replicate (scanMargin fullScan) 0 ++ toDwords raw ++ List.replicate (scanMargin fullScan) 0)
        (toDwords raw).length (scanMargin fullScan) offset (i == 0) (i == n - 1) =
      (some (silenced (toDwords raw) offset)).map fun window => computeArCrcs window (i == 0) (i == n - 1) :=
    fun offset hoffset => computeArCrcsAtOffset_silenced (toDwords raw) (natAbs_le_scanMargin hoffset) _ _
  unfold verifyTrack decodeTrackToDwords
  dsimp only
  rw [heffective]
  dsimp only
  rw [hlen, sliceOrPanic_ok (by omega) (by simp), Nat.add_sub_cancel_left, List.append_assoc,
    List.drop_left' (List.length_replicate), List.take_left, ← List.append_assoc,
    tryOffsets_eq_scan hwindows]
  rfl

/-! ## A track on the disc -/

/-- The slice of a track, with the part of the margin that is on the disc. -/
theorem computeArCrcsAtOffset_disc {start count : ℕ} (hin : start + count ≤ disc.length) (h : offset.natAbs ≤ margin) (isFirst isLast : Bool) :
    computeArCrcsAtOffset ((disc.drop (start - margin)).take (min (start + count + margin) disc.length - (start - margin))) count
        (start - (start - margin)) offset isFirst isLast =
      (discWindow disc start count offset).map fun window => computeArCrcs window isFirst isLast := by
  obtain ⟨first, hfirst⟩ : ∃ first, start - margin = first := ⟨_, rfl⟩
  obtain ⟨stop, hstop⟩ : ∃ stop, min (start + count + margin) disc.length = stop := ⟨_, rfl⟩
  have hlen : ((disc.drop first).take (stop - first)).length = stop - first := by
    rw [List.length_take, List.length_drop]
    omega
  unfold computeArCrcsAtOffset discWindow
  dsimp only
  rw [hfirst, hstop, hlen]
  by_cases hwindow : 0 ≤ (start : ℤ) - offset ∧ (start : ℤ) - offset + count ≤ disc.length
  · have hskip : ((start - first : ℕ) - offset).toNat + first = ((start : ℤ) - offset).toNat := by omega
    have htake : ((start - first : ℕ) - offset + count).toNat - ((start - first : ℕ) - offset).toNat = count := by omega
    rw [if_neg (by omega), if_pos hwindow, htake, List.drop_take, List.take_take, List.drop_drop, Option.map_some,
      min_eq_left (by omega), Nat.add_comm first, hskip]
  · rw [if_neg hwindow, if_pos (by omega), Option.map_none]

/-- `verify_single_image` sees the disc. -/
theorem verifyBoundary_report {start count n i : ℕ} {track : List UInt32} (hin : start + count ≤ disc.length)
    (hfits : start + count + scanMargin fullScan ≤ usizeMax) (htrack : (disc.drop start).take count = track) :
    verifyBoundary disc fullScan n pressings (UInt64.ofNat start, UInt64.ofNat count) i =
      .ok (report fullScan pressings n (discWindow disc start count) track i) := by
  have husize : usizeMax < 2 ^ 64 := by decide
  have hstart : (UInt64.ofNat start).toNat = start := UInt64.toNat_ofNat_of_lt' (by unfold UInt64.size; omega)
  have hcount : (UInt64.ofNat count).toNat = count := UInt64.toNat_ofNat_of_lt' (by unfold UInt64.size; omega)
  have hwindows : ∀ offset ∈ scanOffsets fullScan, _ = _ := fun offset hoffset =>
    computeArCrcsAtOffset_disc hin (natAbs_le_scanMargin hoffset) (i == 0) (i == n - 1)
  have hslice : ((disc.drop (start - scanMargin fullScan)).take
      (min (start + count + scanMargin fullScan) disc.length - (start - scanMargin fullScan))).length =
      min (start + count + scanMargin fullScan) disc.length - (start - scanMargin fullScan) := by
    rw [List.length_take, List.length_drop]
    omega
  have hzero : (((disc.drop (start - scanMargin fullScan)).take
      (min (start + count + scanMargin fullScan) disc.length - (start - scanMargin fullScan))).drop
        (start - (start - scanMargin fullScan))).take count = track := by
    rw [List.drop_take, List.take_take, List.drop_drop, min_eq_left (by omega), ← htrack]
    congr 2
    omega
  unfold verifyBoundary
  dsimp only
  rw [hstart, hcount, addOrPanic_eq_ok.2 ⟨by omega, rfl⟩]
  refine bind_eq_ok.2 ⟨_, rfl, bind_eq_ok.2 ⟨_, addOrPanic_eq_ok.2 ⟨hfits, rfl⟩, ?_⟩⟩
  rw [sliceOrPanic_ok (by omega) (by omega)]
  refine bind_eq_ok.2 ⟨_, rfl, ?_⟩
  rw [sliceOrPanic_ok (by omega) (by rw [hslice]; omega), Nat.add_sub_cancel_left, hzero, tryOffsets_eq_scan hwindows]
  rfl

/-- Where a track is on its disc. -/
theorem disc_track (heven : ∀ t ∈ tracks, t.length % 2 = 0) {i : ℕ} (hi : i < tracks.length) :
    trackStart tracks i + (tracks.getD i []).length / 2 ≤ (toDwords tracks.flatten).length ∧
      ((toDwords tracks.flatten).drop (trackStart tracks i)).take ((tracks.getD i []).length / 2) = toDwords (tracks.getD i []) := by
  have hsplit := toDwords_split heven hi []
  rw [List.append_nil, List.append_nil, List.append_assoc] at hsplit
  have hstart : trackStart tracks i = (toDwords (tracks.take i).flatten).length := (length_toDwords _).symm
  have hcount : (tracks.getD i []).length / 2 = (toDwords (tracks.getD i [])).length := (length_toDwords _).symm
  rw [hsplit, hstart, hcount, List.drop_left, List.take_left, List.length_append, List.length_append]
  exact ⟨by omega, rfl⟩

/-! ## The reports -/

theorem verifyAlbum_report {toc : Option (List UInt32)} {duration : ℕ} (htoc : track1Frames toc = .ok (0, duration)) :
    verifyAlbum toc fullScan pressings (tracks.map .ok) = .ok (tracks.zipIdx.map fun (raw, i) =>
      report fullScan pressings tracks.length (fun offset => some (silenced (toDwords raw) offset)) (toDwords raw) i) := by
  unfold verifyAlbum
  rw [htoc]
  refine bind_eq_ok.2 ⟨_, rfl, ?_⟩
  dsimp only
  rw [List.zipIdx_map, List.mapM_map, List.length_map]
  exact mapM_ok fun _ _ => verifyTrack_report

theorem verifySingleImage_report (heven : ∀ t ∈ tracks, t.length % 2 = 0)
    (hfits : tracks.flatten.length + scanMargin fullScan ≤ usizeMax) :
    verifySingleImage (boundariesOf tracks) fullScan pressings tracks.flatten = .ok (tracks.zipIdx.map fun (raw, i) =>
      report fullScan pressings tracks.length (discWindow (toDwords tracks.flatten) (trackStart tracks i) (raw.length / 2)) (toDwords raw) i) := by
  have hcount : (boundariesOf tracks).length = tracks.length := by simp [boundariesOf]
  have hboundaries : (boundariesOf tracks).zipIdx = (List.range tracks.length).map fun i =>
      ((UInt64.ofNat (trackStart tracks i), UInt64.ofNat ((tracks.getD i []).length / 2)), i) := by
    apply List.ext_getElem
    · simp [hcount]
    · intro i hi hi'
      have hlt : i < tracks.length := by simpa [hcount] using hi
      simp [boundariesOf, hlt]
  unfold verifySingleImage
  rw [hcount, hboundaries, List.mapM_map, zipIdx_eq_map, List.map_map]
  refine mapM_ok fun i hi => ?_
  obtain ⟨hin, htrack⟩ := disc_track heven (List.mem_range.1 hi)
  have hlen := length_toDwords tracks.flatten
  exact verifyBoundary_report hin (by omega) htrack

/-- **What the two scans see**: without a pre-gap to trim, `verify_album` reports a track by its windows between silences, and
`verify_single_image` by the windows of the disc, at the offsets where they are on the disc. -/
theorem scans_see_disc {toc : Option (List UInt32)} {duration : ℕ} (htoc : track1Frames toc = .ok (0, duration))
    (heven : ∀ t ∈ tracks, t.length % 2 = 0) (hfits : tracks.flatten.length + scanMargin fullScan ≤ usizeMax) :
    verifyAlbum toc fullScan pressings (tracks.map .ok) = .ok (tracks.zipIdx.map fun (raw, i) =>
      report fullScan pressings tracks.length (fun offset => some (silenced (toDwords raw) offset)) (toDwords raw) i) ∧
    verifySingleImage (boundariesOf tracks) fullScan pressings tracks.flatten = .ok (tracks.zipIdx.map fun (raw, i) =>
      report fullScan pressings tracks.length (discWindow (toDwords tracks.flatten) (trackStart tracks i) (raw.length / 2)) (toDwords raw) i) :=
  ⟨verifyAlbum_report htoc, verifySingleImage_report heven hfits⟩

def twoTracks : List (List Int16) := [[1, 2, 3, 4], [5, 6]]

theorem scans_see_disc_twoTracks :
    verifySingleImage (boundariesOf twoTracks) false [] twoTracks.flatten = .ok (twoTracks.zipIdx.map fun (raw, i) =>
      report false [] 2 (discWindow (toDwords twoTracks.flatten) (trackStart twoTracks i) (raw.length / 2)) (toDwords raw) i) := by
  have hfits : twoTracks.flatten.length + scanMargin false ≤ usizeMax := by
    rw [scanMargin_common]
    decide
  have htoc : track1Frames none = .ok (0, 0) := rfl
  exact (scans_see_disc htoc (by decide) hfits).2

/-! ## Where they agree -/

theorem silenced_zero (dwords : List UInt32) : silenced dwords 0 = dwords := by
  simp [silenced]

theorem discWindow_zero {start count : ℕ} (hin : start + count ≤ disc.length) : discWindow disc start count 0 = some ((disc.drop start).take count) := by
  unfold discWindow
  rw [if_pos (by omega)]
  simp

section Scan

variable {windowAt windowAt' : ℤ → Option (List UInt32)} {isFirst isLast : Bool} {i n : ℕ} {offsets : List ℤ} {track : List UInt32}

theorem scan_cons : scan windowAt isFirst isLast pressings i (offset :: offsets) =
    (scan windowAt isFirst isLast pressings i [offset]).or (scan windowAt isFirst isLast pressings i offsets) := by
  unfold scan
  rw [List.findSome?_cons, List.findSome?_cons, List.findSome?_nil]
  split <;> simp [*]

theorem scan_singleton (h : windowAt offset = windowAt' offset) :
    scan windowAt isFirst isLast pressings i [offset] = scan windowAt' isFirst isLast pressings i [offset] := by
  unfold scan
  rw [List.findSome?_cons, List.findSome?_cons, List.findSome?_nil, List.findSome?_nil, h]

/-- What is found is an offset of the scan. -/
theorem offset_mem_of_scan {confidence : UInt8} (h : scan windowAt isFirst isLast pressings i offsets = some (offset, confidence)) :
    offset ∈ offsets := by
  unfold scan at h
  obtain ⟨offset', hmem, hfound⟩ := List.exists_of_findSome?_eq_some h
  obtain ⟨window, -, hfound⟩ := Option.bind_eq_some_iff.1 hfound
  dsimp only at hfound
  obtain ⟨pressing, -, hfound⟩ := List.exists_of_findSome?_eq_some hfound
  obtain ⟨entry, -, hfound⟩ := Option.bind_eq_some_iff.1 hfound
  split_ifs at hfound
  cases hfound
  exact hmem

/-- A match at offset zero is found by every scan that looks there first. -/
theorem scan_zero_first (hzero : 0 ∉ offsets) (htrack : windowAt 0 = windowAt' 0) {confidence : UInt8}
    (h : scan windowAt isFirst isLast pressings i (0 :: offsets) = some (0, confidence)) :
    scan windowAt isFirst isLast pressings i (0 :: offsets) = scan windowAt' isFirst isLast pressings i (0 :: offsets) := by
  have hsame : scan windowAt isFirst isLast pressings i (0 :: offsets) =
      (scan windowAt' isFirst isLast pressings i [0]).or (scan windowAt isFirst isLast pressings i offsets) := by
    rw [scan_cons, scan_singleton htrack]
  cases hfirst : scan windowAt' isFirst isLast pressings i [0] with
  | some found =>
    have hother : scan windowAt' isFirst isLast pressings i (0 :: offsets) = some found := by
      rw [scan_cons, hfirst, Option.some_or]
    rw [hother, hsame, hfirst, Option.some_or]
  | none =>
    rw [hsame, hfirst, Option.none_or] at h
    exact absurd (offset_mem_of_scan h) hzero

/-- The checksums of a report are those at offset zero. -/
theorem report_crc (fullScan : Bool) (pressings : List ArPressing) :
    (report fullScan pressings n windowAt track i).trackNumber = UInt32.ofNat (i + 1) ∧
      (report fullScan pressings n windowAt track i).crcV1 = (computeArCrcs track (i == 0) (i == n - 1)).1 ∧
      (report fullScan pressings n windowAt track i).crcV2 = (computeArCrcs track (i == 0) (i == n - 1)).2 := by
  unfold report matchResult
  split <;> exact ⟨rfl, rfl, rfl⟩

theorem report_offset_zero (h : (report fullScan pressings n windowAt track i).offset = some 0) :
    ∃ confidence, scan windowAt (i == 0) (i == n - 1) pressings i (scanOffsets fullScan) = some (0, confidence) := by
  unfold report matchResult at h
  split at h
  · rename_i offset confidence hscan
    cases h
    exact ⟨confidence, hscan⟩
  · cases h

theorem report_common (htrack : windowAt 0 = windowAt' 0) (h : (report false pressings n windowAt track i).offset = some 0) :
    report false pressings n windowAt track i = report false pressings n windowAt' track i := by
  obtain ⟨confidence, hscan⟩ := report_offset_zero h
  have hoffsets : scanOffsets false = 0 :: commonOffsets.tail := rfl
  rw [hoffsets] at hscan
  unfold report
  rw [hoffsets, scan_zero_first (by decide) htrack hscan]

end Scan

/-- Two reports of one track. -/
structure Agree (fullScan : Bool) (a b : ArTrackResult) : Prop where
  trackNumber : a.trackNumber = b.trackNumber
  crcV1 : a.crcV1 = b.crcV1
  crcV2 : a.crcV2 = b.crcV2
  common : fullScan = false → a.offset = some 0 ∨ b.offset = some 0 → a = b

end AccurateRip
