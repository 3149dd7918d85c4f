import Tonepoet.AccurateRip.OffsetCorrection

/-!
# The windows of a verification (tui/accuraterip.rs:1334-1590, 2042-2131)

`verify_album` trims the pre-gap off track 1 by the table of contents, `verify_single_image` cuts an image
by its boundaries. Both slice a buffer of decoded audio whose length neither the table nor the boundaries
know, so that a slice can leave it.
-/

namespace AccurateRip

open Rust

inductive ArTrackStatus where
  | verified
  | mismatch
  | noDiscInDatabase
  | error (msg : String)
  deriving DecidableEq, Repr

/-- `ArTrackResult`, the path aside. -/
structure ArTrackResult where
  trackNumber : UInt32
  status : ArTrackStatus
  confidence : Option UInt8
  offset : Option ℤ
  crcV1 : UInt32
  crcV2 : UInt32
  deriving DecidableEq, Repr

/-- The result of a track whose window has the checksums `crc` at offset zero. -/
def matchResult (i : ℕ) (crc : UInt32 × UInt32) (found : Option (ℤ × UInt8)) : ArTrackResult :=
  match found with
  | some (offset, confidence) => ⟨UInt32.ofNat (i + 1), .verified, some confidence, some offset, crc.1, crc.2⟩
  | none => ⟨UInt32.ofNat (i + 1), .mismatch, none, none, crc.1, crc.2⟩

/-! ## `verify_album` -/

/-- `track1_pregap_frames` and `track1_toc_duration_frames` (accuraterip.rs:1355). -/
def track1Frames (toc : Option (List UInt32)) : Outcome String (ℕ × ℕ) :=
  match toc with
  | none => .ok (0, 0)
  | some sectors => do
    let first ← index sectors 0
    let lba := first.toNat - 150
    if sectors.length ≥ 2 then do
      let second ← index sectors 1
      let duration ← subOrPanic (second.toNat - 150) (first.toNat - 150)
      .ok (lba, duration)
    else .ok (lba, 0)

/-- `eff_margin` and `eff_track_len` (accuraterip.rs:1512). -/
def effectiveWindow (isFirst : Bool) (pregapFrames durationFrames margin trackLen : ℕ) : ℕ × ℕ :=
  if isFirst ∧ pregapFrames > 0 ∧ durationFrames > 0 then
    let pregapDwords := pregapFrames * samplesPerSector
    let tocDwords := durationFrames * samplesPerSector
    let fileFrames := trackLen / samplesPerSector
    if fileFrames > durationFrames then (margin + pregapDwords, tocDwords) else (margin, trackLen)
  else (margin, trackLen)

/-- The body of the loop over the decoded tracks (accuraterip.rs:1491). -/
def verifyTrack (fullScan : Bool) (n pregapFrames durationFrames : ℕ) (pressings : List ArPressing)
    (decoded : Except String (List Int16)) (i : ℕ) : Outcome String ArTrackResult :=
  let isFirst := i == 0
  let isLast := i == n - 1
  match decoded with
  | .error e => .ok ⟨UInt32.ofNat (i + 1), .error e, none, none, 0, 0⟩
  | .ok raw => do
    let margin := scanMargin fullScan
    let (fullDwords, trackLen) := decodeTrackToDwords raw margin
    let (effMargin, effTrackLen) := effectiveWindow isFirst pregapFrames durationFrames margin trackLen
    let window ← sliceOrPanic fullDwords effMargin (effMargin + effTrackLen)
    .ok (matchResult i (computeArCrcs window isFirst isLast)
      (tryOffsets fullDwords effTrackLen effMargin isFirst isLast pressings i (scanOffsets fullScan)))

/-- `verify_album` (accuraterip.rs:1334), behind the decoder and the database. -/
def verifyAlbum (toc : Option (List UInt32)) (fullScan : Bool) (pressings : List ArPressing)
    (decoded : List (Except String (List Int16))) : Outcome String (List ArTrackResult) := do
  let (pregapFrames, durationFrames) ← track1Frames toc
  decoded.zipIdx.mapM fun (result, i) => verifyTrack fullScan decoded.length pregapFrames durationFrames pressings result i

/-! ## `verify_single_image` -/

/-- `a + b` on `usize`. -/
def addOrPanic (a b : ℕ) : Outcome String ℕ :=
  match checkedAdd a b with
  | some s => .ok s
  | none => .error .panic

/-- The body of the loop over the boundaries (accuraterip.rs:2072). -/
def verifyBoundary (allDwords : List UInt32) (fullScan : Bool) (n : ℕ) (pressings : List ArPressing)
    (boundary : UInt64 × UInt64) (i : ℕ) : Outcome String ArTrackResult := do
  let isFirst := i == 0
  let isLast := i == n - 1
  let margin := scanMargin fullScan
  let startDw := boundary.1.toNat
  let countDw := boundary.2.toNat
  let marginStart := startDw - margin
  let stop ← addOrPanic startDw countDw
  let stop ← addOrPanic stop margin
  let marginEnd := min stop allDwords.length
  let effMargin := startDw - marginStart
  let trackSlice ← sliceOrPanic allDwords marginStart marginEnd
  let window ← sliceOrPanic trackSlice effMargin (effMargin + countDw)
  .ok (matchResult i (computeArCrcs window isFirst isLast)
    (tryOffsets trackSlice countDw effMargin isFirst isLast pressings i (scanOffsets fullScan)))

/-- `verify_single_image` (accuraterip.rs:1916), behind the decoder and the database. -/
def verifySingleImage (boundaries : List (UInt64 × UInt64)) (fullScan : Bool) (pressings : List ArPressing)
    (rawImage : List Int16) : Outcome String (List ArTrackResult) :=
  boundaries.zipIdx.mapM fun (boundary, i) =>
    verifyBoundary (toDwords rawImage) fullScan boundaries.length pressings boundary i

/-! ## When a slice is in range -/

/-- The call returns. -/
def Returns {α : Type} (r : Outcome String α) : Prop := ∃ a, r = .ok a

@[simp] theorem returns_ok {α : Type} (a : α) : Returns (.ok a : Outcome String α) := ⟨a, rfl⟩

theorem returns_bind {α β : Type} {x : Outcome String α} {f : α → Outcome String β} :
    Returns (x >>= f) ↔ ∃ a, x = .ok a ∧ Returns (f a) := by
  constructor
  · rintro ⟨b, hb⟩
    obtain ⟨a, ha, hf⟩ := bind_eq_ok.1 hb
    exact ⟨a, ha, b, hf⟩
  · rintro ⟨a, ha, b, hf⟩
    exact ⟨b, bind_eq_ok.2 ⟨a, ha, hf⟩⟩

theorem returns_mapM {α β : Type} {f : α → Outcome String β} : ∀ {xs : List α},
    Returns (xs.mapM f) ↔ ∀ a ∈ xs, Returns (f a)
  | [] => by simp [pure, Except.pure]
  | a :: xs => by
    rw [List.mapM_cons, returns_bind, List.forall_mem_cons]
    constructor
    · rintro ⟨b, hb, hrest⟩
      obtain ⟨bs, hbs, -⟩ := returns_bind.1 hrest
      exact ⟨⟨b, hb⟩, returns_mapM.1 ⟨bs, hbs⟩⟩
    · rintro ⟨⟨b, hb⟩, hrest⟩
      obtain ⟨bs, hbs⟩ := returns_mapM.2 hrest
      exact ⟨b, hb, returns_bind.2 ⟨bs, hbs, returns_ok _⟩⟩

theorem slice_eq_ok {α : Type} {xs ys : List α} {lo hi : ℕ} :
    sliceOrPanic xs lo hi = .ok ys ↔ (lo ≤ hi ∧ hi ≤ xs.length) ∧ ys = (xs.drop lo).take (hi - lo) := by
  unfold sliceOrPanic slice
  by_cases h : lo ≤ hi ∧ hi ≤ xs.length
  · simp [h, eq_comm]
  · simp [h]

theorem addOrPanic_eq_ok {a b s : ℕ} : addOrPanic a b = .ok s ↔ a + b ≤ usizeMax ∧ s = a + b := by
  unfold addOrPanic checkedAdd
  by_cases h : a + b ≤ usizeMax
  · simp [h, eq_comm]
  · simp [h]

theorem subOrPanic_eq_ok {a b d : ℕ} : subOrPanic a b = .ok d ↔ b ≤ a ∧ d = a - b := by
  unfold subOrPanic checkedSub
  by_cases h : b ≤ a
  · simp [h, eq_comm]
  · simp [h]

/-! ## When a verification returns -/

variable {toc : Option (List UInt32)} {fullScan : Bool} {pressings : List ArPressing}

/-- Track 2 does not start before track 1. Where track 1 has a pre-gap and its file has more frames than
    the table gives it, the file and the margin behind it reach the start of track 2. -/
structure AlbumFits (toc : Option (List UInt32)) (fullScan : Bool) (decoded : List (Except String (List Int16))) : Prop where
  ascending : ∀ first second rest, toc = some (first :: second :: rest) → first.toNat - 150 ≤ second.toNat - 150
  trimmed : ∀ first second rest raw others, toc = some (first :: second :: rest) → decoded = .ok raw :: others →
    150 < first.toNat → first.toNat < second.toNat → second.toNat - first.toNat < raw.length / 2 / samplesPerSector →
    (second.toNat - 150) * samplesPerSector ≤ raw.length / 2 + scanMargin fullScan

/-- Every boundary lies in the decoded image. -/
def ImageFits (boundaries : List (UInt64 × UInt64)) (fullScan : Bool) (rawImage : List Int16) : Prop :=
  ∀ b ∈ boundaries, b.1.toNat + b.2.toNat ≤ rawImage.length / 2 ∧ b.1.toNat + b.2.toNat + scanMargin fullScan ≤ usizeMax

theorem length_decoded (raw : List Int16) (margin : ℕ) :
    (decodeTrackToDwords raw margin).1.length = margin + raw.length / 2 + margin := by
  simp only [decodeTrackToDwords, List.length_append, List.length_replicate, length_toDwords]

/-- The window of a track is in range when it is the whole track, or when a trimmed one reaches no further
than the buffer. -/
theorem verifyTrack_returns {n pregapFrames durationFrames i : ℕ} {raw : List Int16} :
    Returns (verifyTrack fullScan n pregapFrames durationFrames pressings (.ok raw) i) ↔
      (i = 0 → 0 < pregapFrames → 0 < durationFrames → durationFrames < raw.length / 2 / samplesPerSector →
        (pregapFrames + durationFrames) * samplesPerSector ≤ raw.length / 2 + scanMargin fullScan) := by
  have hlen := length_decoded raw (scanMargin fullScan)
  have htrack : (decodeTrackToDwords raw (scanMargin fullScan)).2 = raw.length / 2 := rfl
  simp only [verifyTrack, returns_bind, slice_eq_ok, returns_ok, and_true, hlen, htrack, exists_and_left, exists_eq]
  unfold effectiveWindow
  by_cases hfirst : i = 0 ∧ 0 < pregapFrames ∧ 0 < durationFrames
  · obtain ⟨rfl, hpregap, hduration⟩ := hfirst
    by_cases hlong : durationFrames < raw.length / 2 / samplesPerSector
    · simp only [beq_self_eq_true, gt_iff_lt, hpregap, hduration, hlong, and_self, if_true, forall_const, Nat.add_mul]
      omega
    · simp only [beq_self_eq_true, gt_iff_lt, hpregap, hduration, hlong, and_self, if_true, if_false, forall_const,
        false_imp_iff, iff_true]
      omega
  · rw [if_neg (by simpa [and_assoc] using hfirst)]
    constructor
    · intro _ h0 h1 h2
      exact absurd ⟨h0, h1, h2⟩ hfirst
    · intro _
      dsimp only
      omega

theorem verifyTrack_error_returns {n pregapFrames durationFrames i : ℕ} {e : String} :
    Returns (verifyTrack fullScan n pregapFrames durationFrames pressings (.error e) i) := returns_ok _

/-- Only track 1 can leave its buffer. -/
theorem tracks_return_iff {pregapFrames durationFrames : ℕ} {decoded : List (Except String (List Int16))} :
    Returns (decoded.zipIdx.mapM fun (result, i) =>
        verifyTrack fullScan decoded.length pregapFrames durationFrames pressings result i) ↔
      ∀ raw others, decoded = .ok raw :: others → 0 < pregapFrames → 0 < durationFrames →
        durationFrames < raw.length / 2 / samplesPerSector →
        (pregapFrames + durationFrames) * samplesPerSector ≤ raw.length / 2 + scanMargin fullScan := by
  rw [returns_mapM]
  constructor
  · rintro h raw others rfl
    exact verifyTrack_returns.1 (h (.ok raw, 0) (by simp)) rfl
  · rintro h ⟨result, i⟩ hmem
    rcases result with e | raw
    · exact verifyTrack_error_returns
    · refine verifyTrack_returns.2 fun hi => ?_
      subst hi
      rcases decoded with _ | ⟨first, others⟩
      · simp at hmem
      · refine h raw others ?_
        have hget := List.mem_zipIdx_iff_getElem?.1 hmem
        simp only [List.getElem?_cons_zero, Option.some.injEq] at hget
        rw [hget]

theorem verifyBoundary_returns {allDwords : List UInt32} {n i : ℕ} {b : UInt64 × UInt64} :
    Returns (verifyBoundary allDwords fullScan n pressings b i) ↔
      b.1.toNat + b.2.toNat ≤ allDwords.length ∧ b.1.toNat + b.2.toNat + scanMargin fullScan ≤ usizeMax := by
  simp only [verifyBoundary, returns_bind, addOrPanic_eq_ok, slice_eq_ok, returns_ok, and_true]
  constructor
  · rintro ⟨stop, ⟨-, rfl⟩, stop', ⟨hsum, rfl⟩, slice, ⟨⟨hle, -⟩, rfl⟩, window, ⟨-, hend⟩, -⟩
    rw [List.length_take, List.length_drop] at hend
    omega
  · rintro ⟨hin, hsum⟩
    refine ⟨_, ⟨by omega, rfl⟩, _, ⟨hsum, rfl⟩, _, ⟨⟨by omega, by omega⟩, rfl⟩, _, ⟨⟨by omega, ?_⟩, rfl⟩⟩
    rw [List.length_take, List.length_drop]
    omega

/-- **When `verify_album` stays in range.** -/
theorem album_returns_iff (htoc : ∀ sectors, toc = some sectors → 2 ≤ sectors.length) (decoded : List (Except String (List Int16))) :
    Returns (verifyAlbum toc fullScan pressings decoded) ↔ AlbumFits toc fullScan decoded := by
  rw [verifyAlbum, returns_bind]
  rcases toc with _ | sectors
  · have hnone : track1Frames none = .ok (0, 0) := rfl
    rw [hnone]
    simp only [Except.ok.injEq, exists_eq_left', tracks_return_iff, lt_irrefl, false_imp_iff, implies_true, true_iff]
    exact ⟨by simp, by simp⟩
  rcases sectors with _ | ⟨first, _ | ⟨second, rest⟩⟩
  · simpa using htoc [] rfl
  · simpa using htoc [first] rfl
  have hframes : track1Frames (some (first :: second :: rest)) =
      (subOrPanic (second.toNat - 150) (first.toNat - 150) >>= fun d => .ok (first.toNat - 150, d)) := by
    simp [track1Frames, index]
  have hsum : first.toNat - 150 ≤ second.toNat - 150 →
      first.toNat - 150 + (second.toNat - 150 - (first.toNat - 150)) = second.toNat - 150 := by omega
  rw [hframes]
  constructor
  · rintro ⟨⟨pregap, duration⟩, hok, hreturns⟩
    obtain ⟨d, hd, hpair⟩ := bind_eq_ok.1 hok
    have hpair := Except.ok.inj hpair
    rw [subOrPanic_eq_ok] at hd
    obtain ⟨hle, hduration⟩ := hd
    rw [← hpair, hduration, tracks_return_iff, hsum hle] at hreturns
    refine ⟨?_, ?_⟩
    · rintro _ _ _ ⟨⟩
      exact hle
    · rintro _ _ _ raw others ⟨⟩ hdecoded hpre hlt hlong
      exact hreturns raw others hdecoded (by omega) (by omega) (by omega)
  · intro hfits
    have hle := hfits.ascending first second rest rfl
    refine ⟨_, bind_eq_ok.2 ⟨_, subOrPanic_eq_ok.2 ⟨hle, rfl⟩, rfl⟩, ?_⟩
    rw [tracks_return_iff, hsum hle]
    intro raw others hdecoded hpre hduration hlong
    exact hfits.trimmed first second rest raw others rfl hdecoded (by omega) (by omega) (by omega)

/-- **When `verify_single_image` stays in range.** -/
theorem image_returns_iff (boundaries : List (UInt64 × UInt64)) (rawImage : List Int16) :
    Returns (verifySingleImage boundaries fullScan pressings rawImage) ↔ ImageFits boundaries fullScan rawImage := by
  rw [verifySingleImage, returns_mapM]
  have hzip : ∀ P : UInt64 × UInt64 → Prop, (∀ a ∈ boundaries.zipIdx, P a.1) ↔ ∀ b ∈ boundaries, P b := by
    intro P
    conv_rhs => rw [← List.zipIdx_map_fst 0 boundaries]
    rw [List.forall_mem_map]
  rw [ImageFits, ← hzip]
  refine forall₂_congr fun a _ => ?_
  rw [verifyBoundary_returns, length_toDwords]

/-- **The windows of a verification are in range exactly when they fit.** For a table of contents as the
parsers return it (at least one start and the lead-out), every decoded album, every list of boundaries and
every decoded image, in either scan mode. -/
theorem windows_in_range_iff (fullScan : Bool) (pressings : List ArPressing) :
    (∀ toc : Option (List UInt32), (∀ sectors, toc = some sectors → 2 ≤ sectors.length) → ∀ decoded,
      (Returns (verifyAlbum toc fullScan pressings decoded) ↔ AlbumFits toc fullScan decoded)) ∧
    ∀ boundaries rawImage,
      (Returns (verifySingleImage boundaries fullScan pressings rawImage) ↔ ImageFits boundaries fullScan rawImage) :=
  ⟨fun _ htoc decoded => album_returns_iff htoc decoded, image_returns_iff⟩

/-- A file of 151 frames where the table gives track 1 150 frames behind a pre-gap of 32; a second start
before the first; an image that ends before its last boundary. -/
theorem windows_out_of_range :
    ¬ Returns (verifyAlbum (some [182, 332, 482]) false [] [.ok (List.replicate (2 * 588 * 151) 0), .ok []]) ∧
    ¬ Returns (verifyAlbum (some [332, 182, 482]) false [] [.ok [], .ok []]) ∧
    ¬ Returns (verifySingleImage [(0, 588), (588, 588)] false [] (List.replicate (2 * 588) 0)) := by
  refine ⟨?_, ?_, ?_⟩
  · rw [album_returns_iff (by simp)]
    intro h
    have hend := h.trimmed 182 332 [482] _ _ rfl rfl (by decide) (by decide) (by
      rw [List.length_replicate]
      decide)
    rw [List.length_replicate, scanMargin_common] at hend
    exact absurd hend (by decide)
  · rw [album_returns_iff (by simp)]
    intro h
    exact absurd (h.ascending 332 182 [482] rfl) (by decide)
  · rw [image_returns_iff]
    intro h
    have hend := (h (588, 588) (by simp)).1
    rw [List.length_replicate] at hend
    exact absurd hend (by decide)

end AccurateRip
