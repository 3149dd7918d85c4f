import Tonepoet.Chapters.Titles
import Tonepoet.Library.TickRounding

/-!
# Chapters read back

The boundaries survive the container's clock within the tolerance of the check, whatever the clock; the titles survive only when the text FFmpeg
is given holds them as they are.
-/

namespace Chapters

open Rust TickRounding

/-- A container's clock: a tick lasts `timeBaseNum / timeBaseDen` seconds, and every boundary is stored as some tick. -/
structure Clock where
  timeBaseNum : ℕ
  timeBaseDen : ℕ
  tick : ℕ → ℕ

/-- The chapters a container returns of the entries it was given. -/
def Clock.readEmbeddedChapter (clock : Clock) (entry : ChapterWriteEntry) : RawEmbeddedChapter :=
  ⟨readTitle (ffmetadataUnescape (ffmetadataEscape entry.title)), clock.tick entry.startSample, clock.tick entry.endSample,
    clock.timeBaseNum, clock.timeBaseDen⟩

/-- The time base is positive, and so is the rate; all of them are in their types' ranges. -/
structure Clock.Runs (clock : Clock) (sampleRate : ℕ) : Prop where
  num : 0 < clock.timeBaseNum ∧ clock.timeBaseNum ≤ i32Max
  den : 0 < clock.timeBaseDen ∧ clock.timeBaseDen ≤ i32Max
  rate : 0 < sampleRate ∧ sampleRate ≤ u32Max

/-- The boundary is stored as a nearest tick, which an `i64` holds. -/
def Clock.Stores (clock : Clock) (sampleRate boundary : ℕ) : Prop :=
  Nearest (sampleRate * clock.timeBaseNum) clock.timeBaseDen boundary (clock.tick boundary) ∧ clock.tick boundary ≤ i64Max

/-- The time of the stored tick, rounded to a sample, is a `u64`. -/
def Clock.InRange (clock : Clock) (sampleRate boundary : ℕ) : Prop :=
  clock.tick boundary * (sampleRate * clock.timeBaseNum) + clock.timeBaseDen / 2 < 2 ^ 64 * clock.timeBaseDen

/-- The sample a boundary is read back at. -/
def Clock.readBack (clock : Clock) (sampleRate boundary : ℕ) : ℕ :=
  TickRounding.readBack (sampleRate * clock.timeBaseNum) clock.timeBaseDen (clock.tick boundary)

/-- Tracks without a gap, from a sample on. -/
def SeamlessTracks : ℕ → List EmbeddedChapterTrack → Prop
  | _, [] => True
  | start, track :: tracks => track.boundary.startSample = start ∧ 0 < track.boundary.samples ∧
      track.boundary.isProgramTail = tracks.isEmpty ∧ SeamlessTracks (start + track.boundary.samples) tracks

/-- Entries without a gap, from a sample on. -/
def SeamlessEntries : ℕ → List ChapterWriteEntry → Prop
  | _, [] => True
  | start, entry :: entries => entry.startSample = start ∧ entry.startSample < entry.endSample ∧ SeamlessEntries entry.endSample entries

section
variable {clock : Clock} {sampleRate : ℕ}

theorem ensure_eq_ok {condition : Prop} [Decidable condition] {message : String} {u : Unit} : ensure condition message = .ok u ↔ condition := by
  unfold ensure
  split_ifs with h
  · exact ⟨fun _ => h, fun _ => rfl⟩
  · exact ⟨nofun, fun h' => absurd h' h⟩

theorem ensure_of {condition : Prop} [Decidable condition] {message : String} (h : condition) : ensure condition message = .ok () := if_pos h

theorem orError_eq_ok {α : Type} {message : String} {o : Option α} {a : α} : orError message o = .ok a ↔ o = some a := by
  cases o <;> simp [orError]

theorem checkedI128_of_lt {n : ℕ} (h : n < 2 ^ 127) : checkedI128 (n : ℤ) = some (n : ℤ) := by
  have hcast : ((2 ^ 127 : ℕ) : ℤ) = 2 ^ 127 := by norm_num
  have hlt : (n : ℤ) < 2 ^ 127 := hcast ▸ Int.ofNat_lt.2 h
  have hneg : (-2 ^ 127 : ℤ) ≤ 0 := by norm_num
  exact if_pos ⟨hneg.trans (Int.natCast_nonneg n), hlt⟩

theorem tryU64_natCast_eq_some {n r : ℕ} : tryU64 n = some r ↔ n ≤ u64Max ∧ r = n := by
  unfold tryU64
  by_cases hfits : n ≤ u64Max
  · have hint : (0 : ℤ) ≤ n ∧ (n : ℤ) ≤ u64Max := ⟨Int.natCast_nonneg n, Int.ofNat_le.2 hfits⟩
    rw [if_pos hint, Option.some_inj, Int.toNat_natCast]
    exact ⟨fun h => ⟨hfits, h.symm⟩, fun h => h.2.symm⟩
  · have hint : ¬ ((0 : ℤ) ≤ n ∧ (n : ℤ) ≤ u64Max) := fun h => hfits (Int.ofNat_le.1 h.2)
    rw [if_neg hint]
    exact ⟨nofun, fun h => absurd h.1 hfits⟩

theorem rounding_lt_i128 {t num den rate : ℕ} (ht : t ≤ i64Max) (hnum : num ≤ i32Max) (hden : den ≤ i32Max) (hrate : rate ≤ u32Max) :
    t * num * rate + den / 2 < 2 ^ 127 := by
  have hproduct : t * num * rate ≤ i64Max * i32Max * u32Max := Nat.mul_le_mul (Nat.mul_le_mul ht hnum) hrate
  have hbound : i64Max * i32Max * u32Max + i32Max < 2 ^ 127 := by norm_num [i64Max, i32Max, u32Max]
  exact lt_of_le_of_lt (Nat.add_le_add hproduct ((Nat.div_le_self _ 2).trans hden)) hbound

theorem ok_bind {ε α β : Type} (a : α) (f : α → Except ε β) : (Except.ok a >>= f) = f a := rfl

/-- Nothing overflows but the sample. -/
theorem timestampToSample_eq {t num den rate : ℕ} (ht : t ≤ i64Max) (hnum : 0 < num ∧ num ≤ i32Max) (hden : 0 < den ∧ den ≤ i32Max)
    (hrate : 0 < rate ∧ rate ≤ u32Max) :
    timestampToSample t num den rate =
      orError "chapter timestamp exceeds u64 sample range" (tryU64 (TickRounding.readBack (rate * num) den t : ℕ)) := by
  have hsum := rounding_lt_i128 ht hnum.2 hden.2 hrate.2
  have hproduct : t * num * rate < 2 ^ 127 := lt_of_le_of_lt (Nat.le_add_right _ _) hsum
  have hfirst : t * num < 2 ^ 127 := lt_of_le_of_lt (Nat.le_mul_of_pos_right _ hrate.1) hproduct
  have hnonneg : (0 : ℤ) ≤ t := Int.natCast_nonneg t
  have hpositive : (0 : ℤ) < num ∧ (0 : ℤ) < den := ⟨Int.ofNat_lt.2 hnum.1, Int.ofNat_lt.2 hden.1⟩
  have hhalf : ((t * num * rate : ℕ) : ℤ) + (den : ℤ) / 2 = ((t * num * rate + den / 2 : ℕ) : ℤ) := by
    rw [Int.natCast_add, Int.natCast_div, Nat.cast_ofNat]
  have hticks : t * (rate * num) = t * num * rate := by ring
  unfold timestampToSample
  rw [ensure_of hnonneg, ok_bind, ensure_of hpositive, ok_bind, ensure_of hrate.1.ne', ok_bind, ← Int.natCast_mul, checkedI128_of_lt hfirst,
    Option.bind_some, ← Int.natCast_mul, checkedI128_of_lt hproduct, orError, ok_bind, hhalf, checkedI128_of_lt hsum, orError, ok_bind,
    ← Int.natCast_div, TickRounding.readBack, hticks]

/-- A stored tick is read back, when the sample is one. -/
theorem Clock.Runs.timestampToSample (h : clock.Runs sampleRate) {t r : ℕ} (ht : t ≤ i64Max) :
    timestampToSample t clock.timeBaseNum clock.timeBaseDen sampleRate = .ok r ↔
      TickRounding.readBack (sampleRate * clock.timeBaseNum) clock.timeBaseDen t ≤ u64Max ∧
        r = TickRounding.readBack (sampleRate * clock.timeBaseNum) clock.timeBaseDen t := by
  rw [timestampToSample_eq ht h.num h.den h.rate, orError_eq_ok, tryU64_natCast_eq_some]

/-! ## The boundaries -/

theorem Clock.Runs.inRange (h : clock.Runs sampleRate) {boundary : ℕ} :
    clock.InRange sampleRate boundary ↔ clock.readBack sampleRate boundary ≤ u64Max := by
  unfold Clock.InRange Clock.readBack TickRounding.readBack
  rw [← Nat.div_lt_iff_lt_mul h.den.1, u64Max]
  omega

/-- Nothing saturates in the tolerance. -/
theorem Clock.Runs.tolerance_eq (h : clock.Runs sampleRate) (title : Option Str) (start stop : ℤ) :
    chapterClockToleranceSamples ⟨title, start, stop, clock.timeBaseNum, clock.timeBaseDen⟩ sampleRate =
      TickRounding.tolerance (sampleRate * clock.timeBaseNum) clock.timeBaseDen := by
  obtain ⟨⟨hnum, hnumMax⟩, ⟨hden, hdenMax⟩, hrate, hrateMax⟩ := h
  have hproduct : sampleRate * clock.timeBaseNum ≤ u32Max * i32Max := Nat.mul_le_mul hrateMax hnumMax
  have hdouble : clock.timeBaseDen * 2 = 2 * clock.timeBaseDen := Nat.mul_comm _ _
  have hpositive : ¬ ((clock.timeBaseNum : ℤ) ≤ 0 ∨ (clock.timeBaseDen : ℤ) ≤ 0) := by omega
  unfold chapterClockToleranceSamples TickRounding.tolerance
  rw [if_neg hpositive, Int.toNat_natCast, Int.toNat_natCast]
  generalize sampleRate * clock.timeBaseNum = n at *
  have hle : (n + (2 * clock.timeBaseDen - 1)) / (2 * clock.timeBaseDen) ≤ n + (2 * clock.timeBaseDen - 1) := Nat.div_le_self _ _
  norm_num [u32Max, i32Max] at hproduct hdenMax
  have hbound : (n + (2 * clock.timeBaseDen - 1)) / (2 * clock.timeBaseDen) + 1 ≤ u64Max := by
    norm_num [u64Max]
    omega
  have hn : min n (2 ^ 128 - 1) = n := by omega
  have hd : max (min (clock.timeBaseDen * 2) (2 ^ 128 - 1)) 1 = 2 * clock.timeBaseDen := by omega
  have hsum : min (n + (2 * clock.timeBaseDen - 1)) (2 ^ 128 - 1) = n + (2 * clock.timeBaseDen - 1) := by omega
  simp only [hn, hd, hsum]
  rw [Nat.min_eq_left (Nat.le_of_succ_le hbound), Nat.min_eq_left hbound]

/-! ## The ranges -/

/-- The sample range of an entry, as it is read back. -/
def Clock.range (clock : Clock) (sampleRate : ℕ) (entry : ChapterWriteEntry) : ℕ × ℕ :=
  (clock.readBack sampleRate entry.startSample, clock.readBack sampleRate entry.endSample)

/-- A chapter that its container stores: both boundaries, and two ticks of its clock at least between them. -/
structure Clock.StoresChapter (clock : Clock) (sampleRate : ℕ) (entry : ChapterWriteEntry) : Prop where
  start : clock.Stores sampleRate entry.startSample
  stop : clock.Stores sampleRate entry.endSample
  ticks : 2 * (sampleRate * clock.timeBaseNum) ≤ clock.timeBaseDen * (entry.endSample - entry.startSample)

theorem Clock.Runs.range_lt (h : clock.Runs sampleRate) {entry : ChapterWriteEntry} (hstores : clock.StoresChapter sampleRate entry)
    (hlt : entry.startSample < entry.endSample) :
    clock.readBack sampleRate entry.startSample < clock.readBack sampleRate entry.endSample :=
  readBack_lt (Nat.mul_pos h.rate.1 h.num.1) h.den.1 hstores.start.1 hstores.stop.1 hlt hstores.ticks

theorem Clock.Runs.sampleRanges (h : clock.Runs sampleRate) {entries : List ChapterWriteEntry}
    (hstores : ∀ e ∈ entries, clock.StoresChapter sampleRate e) (hlt : ∀ e ∈ entries, e.startSample < e.endSample) (index : ℕ)
    {ranges : List (ℕ × ℕ)} :
    sampleRanges sampleRate index (entries.map clock.readEmbeddedChapter) = .ok ranges ↔
      (∀ e ∈ entries, clock.InRange sampleRate e.endSample) ∧ ranges = entries.map (clock.range sampleRate) := by
  induction entries generalizing index ranges with
  | nil =>
    simp [Chapters.sampleRanges, eq_comm]
  | cons e entries ih =>
    rw [List.forall_mem_cons] at hstores hlt ⊢
    have hrange := h.range_lt hstores.1 hlt.1
    rw [List.map_cons, List.map_cons]
    unfold Chapters.sampleRanges
    simp only [bind_eq_ok, ensure_eq_ok, ih hstores.2 hlt.2, h.inRange]
    constructor
    · rintro ⟨start, hstart, stop, hstop, -, -, ranges, ⟨hmore, rfl⟩, hranges⟩
      obtain ⟨-, rfl⟩ := (h.timestampToSample hstores.1.start.2).1 hstart
      obtain ⟨hfits, rfl⟩ := (h.timestampToSample hstores.1.stop.2).1 hstop
      cases hranges
      exact ⟨⟨hfits, hmore⟩, rfl⟩
    · rintro ⟨⟨hfits, hmore⟩, rfl⟩
      exact ⟨_, (h.timestampToSample hstores.1.start.2).2 ⟨hrange.le.trans hfits, rfl⟩, _, (h.timestampToSample hstores.1.stop.2).2 ⟨hfits, rfl⟩,
        (), hrange, _, ⟨hmore, rfl⟩, rfl⟩

/-! ## The partition -/

theorem SeamlessEntries.reconcile {start : ℕ} {entries : List ChapterWriteEntry} (h : SeamlessEntries start entries)
    (hlt : ∀ e ∈ entries, clock.readBack sampleRate e.startSample < clock.readBack sampleRate e.endSample) (index : ℕ) :
    reconcileSeams index (entries.map (clock.range sampleRate)) = .ok (entries.map (clock.range sampleRate)) := by
  induction entries generalizing start index with
  | nil => rfl
  | cons e entries ih =>
    obtain ⟨-, -, hmore⟩ := h
    rw [List.forall_mem_cons] at hlt
    have hrest := ih hmore hlt.2 (index + 1)
    cases entries with
    | nil => rfl
    | cons f entries =>
      have hseam : f.startSample = e.endSample := hmore.1
      have hstart : clock.readBack sampleRate e.startSample < clock.readBack sampleRate f.startSample := hseam ▸ hlt.1
      have hexact : absDiff (clock.readBack sampleRate e.endSample) (clock.readBack sampleRate f.startSample) ≤ 1 := by
        rw [hseam, absDiff, Nat.sub_self]
        exact Nat.zero_le 1
      rw [List.map_cons] at hrest
      rw [List.map_cons, List.map_cons]
      unfold Clock.range at hrest ⊢
      unfold reconcileSeams
      dsimp only
      rw [ensure_of hstart, ok_bind, ensure_of hexact, ok_bind, hrest, hseam]
      rfl

/-- The tracks of the entries, from an index on. -/
def Clock.tracks (clock : Clock) (sampleRate : ℕ) : ℕ → List ChapterWriteEntry → List EmbeddedChapterTrack
  | _, [] => []
  | index, entry :: entries =>
    ⟨index + 1, readTitle (ffmetadataUnescape (ffmetadataEscape entry.title)),
      ⟨clock.readBack sampleRate entry.startSample,
        clock.readBack sampleRate entry.endSample - clock.readBack sampleRate entry.startSample, entries.isEmpty⟩⟩ ::
      clock.tracks sampleRate (index + 1) entries

theorem Clock.length_tracks (index : ℕ) (entries : List ChapterWriteEntry) :
    (clock.tracks sampleRate index entries).length = entries.length := by
  induction entries generalizing index with
  | nil => rfl
  | cons e entries ih => exact congrArg Nat.succ (ih _)

theorem SeamlessEntries.tracks {start : ℕ} {entries : List ChapterWriteEntry} (h : SeamlessEntries start entries)
    (hlt : ∀ e ∈ entries, clock.readBack sampleRate e.startSample < clock.readBack sampleRate e.endSample) (index : ℕ) :
    SeamlessTracks (clock.readBack sampleRate start) (clock.tracks sampleRate index entries) := by
  induction entries generalizing start index with
  | nil => trivial
  | cons e entries ih =>
    obtain ⟨rfl, -, hmore⟩ := h
    rw [List.forall_mem_cons] at hlt
    have hrest := ih hmore hlt.2 (index + 1)
    have hend : clock.readBack sampleRate e.startSample +
        (clock.readBack sampleRate e.endSample - clock.readBack sampleRate e.startSample) = clock.readBack sampleRate e.endSample := by
      omega
    refine ⟨rfl, Nat.sub_pos_of_lt hlt.1, ?_, ?_⟩
    · cases entries <;> rfl
    · rw [← hend] at hrest
      exact hrest

theorem chapterTracks_eq_ok {entries : List ChapterWriteEntry}
    (hlt : ∀ e ∈ entries, clock.readBack sampleRate e.startSample < clock.readBack sampleRate e.endSample) (index : ℕ)
    {tracks : List EmbeddedChapterTrack} :
    chapterTracks index (entries.map clock.readEmbeddedChapter) (entries.map (clock.range sampleRate)) = .ok tracks ↔
      (entries = [] ∨ index + entries.length ≤ u32Max) ∧ tracks = clock.tracks sampleRate index entries := by
  induction entries generalizing index tracks with
  | nil => simp [chapterTracks, Clock.tracks, eq_comm]
  | cons e entries ih =>
    rw [List.forall_mem_cons] at hlt
    have hcount : (index + 1 ≤ u32Max ∧ (entries = [] ∨ index + 1 + entries.length ≤ u32Max)) ↔ index + (e :: entries).length ≤ u32Max := by
      cases entries with
      | nil => simp
      | cons f entries =>
        simp only [List.length_cons, reduceCtorEq, false_or]
        omega
    have hsamples : clock.readBack sampleRate e.endSample - clock.readBack sampleRate e.startSample ≠ 0 := (Nat.sub_pos_of_lt hlt.1).ne'
    rw [List.map_cons, List.map_cons]
    unfold chapterTracks Clock.range
    dsimp only
    rw [ensure_of hlt.1.le, ok_bind, ensure_of hsamples, ok_bind]
    simp only [bind_eq_ok, ensure_eq_ok, reduceCtorEq, false_or, ← hcount]
    constructor
    · rintro ⟨-, hindex, rest, hrest, heq⟩
      obtain ⟨hmore, rfl⟩ := (ih hlt.2 _).1 hrest
      cases heq
      refine ⟨⟨hindex, hmore⟩, ?_⟩
      cases entries <;> rfl
    · rintro ⟨⟨hindex, hmore⟩, rfl⟩
      refine ⟨(), hindex, _, (ih hlt.2 _).2 ⟨hmore, rfl⟩, ?_⟩
      cases entries <;> rfl

theorem SeamlessEntries.lt {start : ℕ} {entries : List ChapterWriteEntry} (h : SeamlessEntries start entries) :
    ∀ e ∈ entries, e.startSample < e.endSample := by
  induction entries generalizing start with
  | nil => exact fun e he => absurd he List.not_mem_nil
  | cons e entries ih => exact List.forall_mem_cons.2 ⟨h.2.1, ih h.2.2⟩

/-- The first entry starts at the first sample, and is read back there. -/
theorem Clock.Runs.readBack_zero (h : clock.Runs sampleRate) {entries : List ChapterWriteEntry} (hne : entries ≠ [])
    (hseamless : SeamlessEntries 0 entries) (hstores : ∀ e ∈ entries, clock.StoresChapter sampleRate e) :
    clock.readBack sampleRate 0 = 0 := by
  cases entries with
  | nil => exact absurd rfl hne
  | cons e entries =>
    have htick := nearest_zero (Nat.mul_pos h.rate.1 h.num.1) (hseamless.1 ▸ (hstores e List.mem_cons_self).start.1)
    rw [Clock.readBack, htick, TickRounding.readBack_zero h.den.1]

theorem normalize_readBack (h : clock.Runs sampleRate) {entries : List ChapterWriteEntry} (hne : entries ≠ [])
    (hseamless : SeamlessEntries 0 entries) (hstores : ∀ e ∈ entries, clock.StoresChapter sampleRate e)
    {tracks : List EmbeddedChapterTrack} :
    normalizeEmbeddedChapters (entries.map clock.readEmbeddedChapter) sampleRate = .ok tracks ↔
      (∀ e ∈ entries, clock.InRange sampleRate e.endSample) ∧ entries.length ≤ u32Max ∧ tracks = clock.tracks sampleRate 0 entries := by
  have hlt := fun e he => h.range_lt (hstores e he) (hseamless.lt e he)
  unfold normalizeEmbeddedChapters
  rw [if_neg (fun hnil => hne (List.map_eq_nil_iff.1 hnil)), bind_eq_ok]
  simp only [h.sampleRanges hstores hseamless.lt]
  cases entries with
  | nil => exact absurd rfl hne
  | cons e entries =>
    have hstart : clock.readBack sampleRate e.startSample = 0 := by rw [hseamless.1, h.readBack_zero hne hseamless hstores]
    have hrange : clock.range sampleRate e = (0, clock.readBack sampleRate e.endSample) := by rw [Clock.range, hstart]
    have hreconcile := hseamless.reconcile hlt 0
    rw [List.map_cons, hrange] at hreconcile
    have htracks : chapterTracks 0 _ _ = .ok tracks ↔ _ := chapterTracks_eq_ok hlt 0
    rw [List.map_cons (f := clock.range sampleRate), hrange] at htracks
    simp only [List.map_cons (f := clock.range sampleRate), hrange, and_assoc, exists_and_left, exists_eq_left,
      ensure_of (Nat.zero_le 1), ok_bind, hreconcile, htracks, reduceCtorEq, false_or, Nat.zero_add]

/-! ## The check -/

theorem verifyChapter_eq_ok (h : clock.Runs sampleRate) {entry : ChapterWriteEntry} (hstores : clock.StoresChapter sampleRate entry)
    (hlt : clock.readBack sampleRate entry.startSample < clock.readBack sampleRate entry.endSample)
    (hrange : clock.InRange sampleRate entry.endSample) (index ordinal : ℕ) (title : Option Str) (tail : Bool) {u : Unit} :
    verifyChapter sampleRate index (clock.readEmbeddedChapter entry)
      ⟨ordinal, title, ⟨clock.readBack sampleRate entry.startSample,
        clock.readBack sampleRate entry.endSample - clock.readBack sampleRate entry.startSample, tail⟩⟩ entry = .ok u ↔
      title = some entry.title := by
  have hend : clock.readBack sampleRate entry.startSample +
      (clock.readBack sampleRate entry.endSample - clock.readBack sampleRate entry.startSample) = clock.readBack sampleRate entry.endSample := by
    omega
  have hfits := h.inRange.1 hrange
  have hstart := readBack_near h.den.1 hstores.start.1
  have hstop := readBack_near h.den.1 hstores.stop.1
  have hnear : ¬ (TickRounding.tolerance (sampleRate * clock.timeBaseNum) clock.timeBaseDen <
        absDiff (clock.readBack sampleRate entry.startSample) entry.startSample ∨
      TickRounding.tolerance (sampleRate * clock.timeBaseNum) clock.timeBaseDen <
        absDiff (clock.readBack sampleRate entry.endSample) entry.endSample) := by
    unfold absDiff Clock.readBack
    omega
  unfold verifyChapter Clock.readEmbeddedChapter
  dsimp only
  rw [hend, if_pos hfits, orError, ok_bind, h.tolerance_eq, ensure_of hnear, ok_bind, ensure_eq_ok]

theorem verifyChapters_eq_ok (h : clock.Runs sampleRate) {entries : List ChapterWriteEntry}
    (hstores : ∀ e ∈ entries, clock.StoresChapter sampleRate e)
    (hlt : ∀ e ∈ entries, clock.readBack sampleRate e.startSample < clock.readBack sampleRate e.endSample)
    (hrange : ∀ e ∈ entries, clock.InRange sampleRate e.endSample) (index : ℕ) :
    verifyChapters sampleRate index (entries.map clock.readEmbeddedChapter) (clock.tracks sampleRate index entries) entries = .ok () ↔
      ∀ e ∈ entries, readTitle (ffmetadataUnescape (ffmetadataEscape e.title)) = some e.title := by
  induction entries generalizing index with
  | nil => simp [verifyChapters]
  | cons e entries ih =>
    rw [List.forall_mem_cons] at hstores hlt hrange ⊢
    rw [List.map_cons, Clock.tracks, verifyChapters, bind_eq_ok]
    simp only [verifyChapter_eq_ok h hstores.1 hlt.1 hrange.1, ih hstores.2 hlt.2 hrange.2]
    exact ⟨fun ⟨_, htitle, hmore⟩ => ⟨htitle, hmore⟩, fun ⟨htitle, hmore⟩ => ⟨(), htitle, hmore⟩⟩

end

end Chapters
