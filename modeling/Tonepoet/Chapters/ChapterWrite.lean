import Tonepoet.Chapters.Structure

/-!
# Writing chapters (pipeline/chapter_write.rs:318-374, 658-699, 921-1003)

What the metadata editor may write, the text FFmpeg is given, and the check of what is read back. Running FFmpeg and replacing the file are
left out.
-/

namespace Chapters

open Rust

structure ChapterWriteEntry where
  title : Str
  startSample : ℕ
  endSample : ℕ
  deriving DecidableEq

/-- The title an entry is written with. -/
def entryTitle (number : ℕ) (title : Str) : Str := if trim title = [] then "Chapter ".toList ++ formatNat number else title

/-- The checks of `rewrite_embedded_chapters_for_authoring` on the chapters, from an index on. -/
def admitChapters : ℕ → Option ℕ → List (Str × ℕ × ℕ) → Except String (List ChapterWriteEntry)
  | _, _, [] => .ok []
  | index, previousEnd, (title, startSample, endSample) :: chapters => do
    let number := index + 1
    ensure (startSample < endSample) s!"chapter {number} has a non-positive sample range {startSample}..{endSample}"
    ensure (¬ (index = 0 ∧ startSample ≠ 0)) s!"chapter 1 starts at sample {startSample}; embedded chapter structure must begin at 0"
    ensure (∀ stop ∈ previousEnd, stop = startSample) s!"chapter {number} does not begin at the previous chapter end"
    let entries ← admitChapters (index + 1) (some endSample) chapters
    return ⟨entryTitle number title, startSample, endSample⟩ :: entries

/-- `rewrite_embedded_chapters_for_authoring` (chapter_write.rs:328), up to the entries it writes. -/
def chapterWriteEntries (chapters : List (Str × ℕ × ℕ)) (sampleRate : ℕ) : Except String (List ChapterWriteEntry) := do
  ensure (sampleRate ≠ 0) "chapter write requires a non-zero sample rate"
  ensure (chapters ≠ []) "chapter write requires at least one chapter"
  admitChapters 0 none chapters

/-- `ffmetadata_escape`. -/
def ffmetadataEscape : Str → Str
  | [] => []
  | character :: value =>
    if character = '\\' ∨ character = '=' ∨ character = ';' ∨ character = '#' then '\\' :: character :: ffmetadataEscape value
    else if character = '\r' ∨ character = '\n' ∨ character = '\t' then ' ' :: ffmetadataEscape value
    else character :: ffmetadataEscape value

/-- `render_ffmetadata`. -/
def renderFfmetadata (entries : List ChapterWriteEntry) (sampleRate : ℕ) : Except String Str := do
  ensure (sampleRate ≠ 0) "cannot serialize chapters with a zero sample rate"
  let parts ← entries.mapM renderEntry
  return ";FFMETADATA1\n".toList ++ parts.flatten
where
  renderEntry (entry : ChapterWriteEntry) : Except String Str := do
    let startSample := entry.startSample
    let endSample := entry.endSample
    ensure (entry.startSample < entry.endSample) s!"cannot serialize empty chapter range {startSample}..{endSample}"
    return "[CHAPTER]\n".toList ++ s!"TIMEBASE=1/{sampleRate}\n".toList ++ s!"START={startSample}\n".toList ++ s!"END={endSample}\n".toList ++
      "title=".toList ++ ffmetadataEscape entry.title ++ ['\n']

/-- `chapter_clock_tolerance_samples`. -/
def chapterClockToleranceSamples (chapter : RawEmbeddedChapter) (sampleRate : ℕ) : ℕ :=
  if chapter.timeBaseNum ≤ 0 ∨ chapter.timeBaseDen ≤ 0 then 1
  else
    let u128Max := 2 ^ 128 - 1
    let numerator := min (sampleRate * chapter.timeBaseNum.toNat) u128Max
    let denominator := max (min (chapter.timeBaseDen.toNat * 2) u128Max) 1
    let halfTickCeil := min (numerator + (denominator - 1)) u128Max / denominator
    min (min halfTickCeil u64Max + 1) u64Max

/-- One chapter of `verify_written_chapters`. -/
def verifyChapter (sampleRate index : ℕ) (rawChapter : RawEmbeddedChapter) (actualChapter : EmbeddedChapterTrack)
    (expectedChapter : ChapterWriteEntry) : Except String Unit := do
  let actualStart := actualChapter.boundary.startSample
  let actualEnd ← orError "read-back chapter range overflowed u64"
    (if actualStart + actualChapter.boundary.samples ≤ u64Max then some (actualStart + actualChapter.boundary.samples) else none)
  let tolerance := chapterClockToleranceSamples rawChapter sampleRate
  let number := index + 1
  let expectedStart := expectedChapter.startSample
  let expectedEnd := expectedChapter.endSample
  ensure (¬ (tolerance < absDiff actualStart expectedStart ∨ tolerance < absDiff actualEnd expectedEnd))
    s!"chapter {number} boundary drifted beyond container clock tolerance: expected {expectedStart}..{expectedEnd}, read back {actualStart}..{actualEnd}, tolerance {tolerance} samples"
  ensure (actualChapter.title = some expectedChapter.title) s!"chapter {number} title mismatch"

def verifyChapters (sampleRate : ℕ) : ℕ → List RawEmbeddedChapter → List EmbeddedChapterTrack → List ChapterWriteEntry → Except String Unit
  | index, rawChapter :: raw, actualChapter :: actual, expectedChapter :: expected => do
    verifyChapter sampleRate index rawChapter actualChapter expectedChapter
    verifyChapters sampleRate (index + 1) raw actual expected
  | _, _, _, _ => .ok ()

/-- `verify_written_chapters` (chapter_write.rs:921) of the chapters that have been read back. The path and the
printed titles of its errors are left out. -/
def verifyWrittenChapters (raw : List RawEmbeddedChapter) (expected : List ChapterWriteEntry) (sampleRate : ℕ) : Except String Unit := do
  let found := raw.length
  let count := expected.length
  ensure (raw.length = expected.length) s!"contains {found} chapters, expected {count}"
  let actual ← (normalizeEmbeddedChapters raw sampleRate).mapError fun error => s!"contains unusable chapter geometry: {error}"
  verifyChapters sampleRate 0 raw actual expected

end Chapters
