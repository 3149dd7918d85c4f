import Mathlib.Algebra.Order.Ring.Int
import Tonepoet.Text

/-!
# Embedded chapter structure (chapter_structure.rs)

Chapters as a container stores them, on its own clock, and the partition into samples they are normalized to.
-/

namespace Chapters

open Rust

def i64Max : ℕ := 2 ^ 63 - 1
def i32Max : ℕ := 2 ^ 31 - 1
def u32Max : ℕ := 2 ^ 32 - 1
def u64Max : ℕ := 2 ^ 64 - 1

structure RawEmbeddedChapter where
  title : Option Str
  start : ℤ
  stop : ℤ
  timeBaseNum : ℤ
  timeBaseDen : ℤ
  deriving DecidableEq

structure ProgramTrackBoundary where
  startSample : ℕ
  samples : ℕ
  isProgramTail : Bool
  deriving DecidableEq

structure EmbeddedChapterTrack where
  ordinal : ℕ
  title : Option Str
  boundary : ProgramTrackBoundary
  deriving DecidableEq

/-- `if !condition { return Err(message) }`. -/
def ensure (condition : Prop) [Decidable condition] (message : String) : Except String Unit :=
  if condition then .ok () else .error message

/-- `ok_or_else`. -/
def orError {α : Type} (message : String) : Option α → Except String α
  | some a => .ok a
  | none => .error message

/-- An `i128` result of a `checked_` operation. -/
def checkedI128 (n : ℤ) : Option ℤ := if -2 ^ 127 ≤ n ∧ n < 2 ^ 127 then some n else none

/-- `u64::try_from`. -/
def tryU64 (n : ℤ) : Option ℕ := if 0 ≤ n ∧ n ≤ u64Max then some n.toNat else none

/-- `timestamp_to_sample` (chapter_structure.rs:140). -/
def timestampToSample (timestamp timeBaseNum timeBaseDen : ℤ) (sampleRate : ℕ) : Except String ℕ := do
  ensure (0 ≤ timestamp) s!"negative chapter timestamp {timestamp}"
  ensure (0 < timeBaseNum ∧ 0 < timeBaseDen) s!"invalid chapter time base {timeBaseNum}/{timeBaseDen}"
  ensure (sampleRate ≠ 0) "chapter normalization requires a non-zero sample rate"
  let numerator ← orError "chapter timestamp overflow while converting to samples"
    ((checkedI128 (timestamp * timeBaseNum)).bind fun value => checkedI128 (value * sampleRate))
  let rounded ← orError "chapter timestamp overflow while rounding to samples" (checkedI128 (numerator + timeBaseDen / 2))
  orError "chapter timestamp exceeds u64 sample range" (tryU64 (rounded / timeBaseDen))

/-- The sample ranges of the chapters, from the one at an index on. -/
def sampleRanges (sampleRate : ℕ) : ℕ → List RawEmbeddedChapter → Except String (List (ℕ × ℕ))
  | _, [] => .ok []
  | index, chapter :: chapters => do
    let start ← timestampToSample chapter.start chapter.timeBaseNum chapter.timeBaseDen sampleRate
    let stop ← timestampToSample chapter.stop chapter.timeBaseNum chapter.timeBaseDen sampleRate
    let number := index + 1
    ensure (start < stop) s!"embedded chapter {number} has a non-positive duration ({start}..{stop} samples)"
    let ranges ← sampleRanges sampleRate (index + 1) chapters
    return (start, stop) :: ranges

/-- `u64::abs_diff`. -/
def absDiff (a b : ℕ) : ℕ := (a - b) + (b - a)

/-- A chapter ends where the next one starts, when the two differ by no more than a sample. -/
def reconcileSeams : ℕ → List (ℕ × ℕ) → Except String (List (ℕ × ℕ))
  | index, (start, stop) :: (next, nextStop) :: ranges => do
    let number := index + 1
    let nextNumber := index + 2
    ensure (start < next) s!"embedded chapter {nextNumber} does not start after chapter {number}"
    let seamError := absDiff stop next
    let relation := if stop < next then "gap" else "overlap"
    ensure (seamError ≤ 1) s!"embedded chapters {number} and {nextNumber} have a {relation} of {seamError} samples"
    let reconciled ← reconcileSeams (index + 1) ((next, nextStop) :: ranges)
    return (start, next) :: reconciled
  | _, ranges => .ok ranges

/-- The tracks of the ranges, with the titles of the chapters. -/
def chapterTracks : ℕ → List RawEmbeddedChapter → List (ℕ × ℕ) → Except String (List EmbeddedChapterTrack)
  | index, chapter :: chapters, (start, stop) :: ranges => do
    let number := index + 1
    ensure (start ≤ stop) s!"embedded chapter {number} sample range underflowed"
    let samples := stop - start
    ensure (samples ≠ 0) s!"embedded chapter {number} contains no samples"
    ensure (index + 1 ≤ u32Max) "embedded chapter count exceeds u32"
    let tracks ← chapterTracks (index + 1) chapters ranges
    return ⟨index + 1, chapter.title, ⟨start, samples, ranges.isEmpty⟩⟩ :: tracks
  | _, _, _ => .ok []

/-- `normalize_embedded_chapters` (chapter_structure.rs:180). -/
def normalizeEmbeddedChapters (chapters : List RawEmbeddedChapter) (sampleRate : ℕ) : Except String (List EmbeddedChapterTrack) :=
  if chapters = [] then .ok []
  else do
    match ← sampleRanges sampleRate 0 chapters with
    | [] => return []
    | (start, stop) :: ranges =>
      ensure (start ≤ 1) s!"embedded chapters leave {start} leading samples outside chapter structure"
      let reconciled ← reconcileSeams 0 ((0, stop) :: ranges)
      chapterTracks 0 chapters reconciled

end Chapters
