import Mathlib.Data.Nat.Size
import Tonepoet.Dst.ArithmeticCoder

/-!
# Segment tables and their cursors (dst/decoder.rs:370-694)

A frame's bits are cut into segments, each with a table number; the lengths are stored in units of a
resolution, and the last segment of a channel fills the rest of the frame.
-/

namespace Dst

open Rust BitReader

def maxChannels : ℕ := 6
def maxElements : ℕ := 2 * maxChannels
def maxTableLen : ℕ := 128
def frameBytesPerChannel : ℕ := 4704
def frameBitsPerChannel : ℕ := frameBytesPerChannel * 8

def maxFilterSegments : ℕ := 4
def maxProbabilitySegments : ℕ := 8
def maxSegments : ℕ := maxProbabilitySegments
def minFilterSegmentBits : ℕ := 1024
def minProbabilitySegmentBits : ℕ := 32

section Log2

variable {m : Type → Type} [Monad m] [MonadExcept (Fault DstError) m]

def log2RoundUpLoop (x : ℕ) : ℕ → ℕ → m ℕ
  | 0, _ => throw .panic
  | fuel + 1, y => if 1 <<< y ≤ x then log2RoundUpLoop x fuel (y + 1) else return y

/-- `log2_round_up` (decoder.rs:1098) on a `u32`: `while x >= 1 << y { y += 1 }`, where a shift by 32 overflows. -/
def log2RoundUp (x : ℕ) : m ℕ := log2RoundUpLoop (x % 2 ^ 32) 32 0

theorem log2RoundUpLoop_eq {x : ℕ} : ∀ (fuel y : ℕ), y ≤ Nat.size x →
    (log2RoundUpLoop x fuel y : m ℕ) = if Nat.size x < y + fuel then pure (Nat.size x) else throw .panic
  | 0, y, h => by rw [log2RoundUpLoop, if_neg (by omega)]
  | fuel + 1, y, h => by
    rw [log2RoundUpLoop, Nat.one_shiftLeft]
    by_cases hy : 2 ^ y ≤ x
    · rw [if_pos hy, log2RoundUpLoop_eq fuel (y + 1) (Nat.lt_size.2 hy), Nat.add_right_comm, Nat.add_assoc]
    · have hsize : Nat.size x ≤ y := Nat.size_le.2 (by omega)
      rw [if_neg hy, if_pos (by omega), show y = Nat.size x by omega]

/-- It counts the bits of its argument. -/
theorem log2RoundUp_eq (x : ℕ) :
    (log2RoundUp x : m ℕ) = if Nat.size (x % 2 ^ 32) < 32 then pure (Nat.size (x % 2 ^ 32)) else throw .panic := by
  rw [log2RoundUp, log2RoundUpLoop_eq 32 0 (Nat.zero_le _), Nat.zero_add]

end Log2

structure SegmentData where
  resolution : ℕ
  segmentCount : List ℕ
  segmentLen : List (List ℕ)
  tableForSegment : List (List ℕ)

namespace SegmentData

def default : SegmentData where
  resolution := 1
  segmentCount := List.replicate maxChannels 1
  segmentLen := List.replicate maxChannels (List.replicate maxSegments 0)
  tableForSegment := List.replicate maxChannels (List.replicate maxSegments 0)

/-- The resolution is read before the first length of a channel (decoder.rs:474). -/
def readResolution (data : SegmentData) (frameBytes minSegmentBits : ℕ) : Parse SegmentData := do
  let maxResolution ← okOr (.invalidSegment "invalid segment resolution bound") (checkedSub frameBytes (minSegmentBits / 8))
  let resolution ← readBits (← log2RoundUp maxResolution)
  if resolution = 0 ∨ maxResolution < resolution then fail (.invalidSegment "invalid segment resolution")
  else return { data with resolution := resolution }

/-- The `loop` of `read_one_channel_segments` (decoder.rs:449). -/
def readOneChannelSegmentsLoop (ch frameBytes maxSegs minSegmentBits : ℕ) (data : SegmentData)
    (definedBits maxSegmentBytes segmentIndex : ℕ) (resolutionRead : Bool) : Parse SegmentData := do
  let endOfChannel ← readBit
  if endOfChannel then
    let count ← okOr (.invalidSegment "segment count overflow") (checkedAdd segmentIndex 1)
    let segmentCount ← assign data.segmentCount ch count
    let segmentLen ← assign2 data.segmentLen ch segmentIndex 0
    let resolution := if resolutionRead then data.resolution else 1
    return { data with segmentCount, segmentLen, resolution }
  else if _ : maxSegs ≤ segmentIndex + 1 then fail (.invalidSegment "too many DST segments")
  else
    let data ← if resolutionRead then pure data else data.readResolution frameBytes minSegmentBits
    let maxUnits ← okOr (.invalidSegment "invalid segment unit divisor")
      (if data.resolution = 0 then none else some (maxSegmentBytes / data.resolution))
    let lenUnits ← readBits (← log2RoundUp maxUnits)
    let lenBits ← okOr (.invalidSegment "segment length overflow")
      ((checkedMul data.resolution 8).bind fun n => checkedMul n lenUnits)
    let remainingAfter ← okOr (.invalidSegment "segment exceeds frame length")
      (((checkedMul frameBytes 8).bind fun n => checkedSub n definedBits).bind fun n => checkedSub n minSegmentBits)
    if lenBits < minSegmentBits ∨ remainingAfter < lenBits then fail (.invalidSegment "invalid segment length")
    else
      let segmentLen ← assign2 data.segmentLen ch segmentIndex lenUnits
      let definedBits ← okOr (.invalidSegment "defined segment bits overflow") (checkedAdd definedBits lenBits)
      let lenBytes ← okOr (.invalidSegment "segment byte length overflow") (checkedMul data.resolution lenUnits)
      let maxSegmentBytes ← okOr (.invalidSegment "segment byte budget underflow") (checkedSub maxSegmentBytes lenBytes)
      readOneChannelSegmentsLoop ch frameBytes maxSegs minSegmentBits { data with segmentLen } definedBits
        maxSegmentBytes (segmentIndex + 1) true
termination_by maxSegs - segmentIndex

/-- `read_one_channel_segments` (decoder.rs:435). -/
def readOneChannelSegments (data : SegmentData) (ch frameBytes maxSegs minSegmentBits : ℕ) : Parse SegmentData := do
  let maxSegmentBytes ← okOr (.invalidSegment "frame is shorter than minimum segment")
    (checkedSub frameBytes (minSegmentBits / 8))
  readOneChannelSegmentsLoop ch frameBytes maxSegs minSegmentBits data 0 maxSegmentBytes 0 false

/-- Channel `ch` gets channel 0's segments (decoder.rs:415). -/
def copyChannelZero (data : SegmentData) (ch : ℕ) : Parse SegmentData := do
  let count ← index data.segmentCount 0
  let segmentCount ← assign data.segmentCount ch count
  let segmentLen ← forRange 0 count data.segmentLen fun lens seg => do
    assign2 lens ch seg (← index2 lens 0 seg)
  return { data with segmentCount, segmentLen }

/-- `read` (decoder.rs:398). -/
def read (channels frameBytes maxSegs minSegmentBits : ℕ) : Parse (SegmentData × Bool) := do
  let sameSegmentAllChannels ← readBit
  if sameSegmentAllChannels then
    let data ← readOneChannelSegments default 0 frameBytes maxSegs minSegmentBits
    let data ← forRange 1 channels data fun data ch => data.copyChannelZero ch
    return (data, sameSegmentAllChannels)
  else
    let data ← forRange 0 channels default fun data ch =>
      data.readOneChannelSegments ch frameBytes maxSegs minSegmentBits
    return (data, sameSegmentAllChannels)

/-- A filter segment is long enough to be a probability segment. -/
def checkCopiedSegment (ch : ℕ) (probability : SegmentData) (seg : ℕ) : Outcome DstError SegmentData := do
  let lenUnits ← index2 probability.segmentLen ch seg
  if lenUnits ≠ 0 then
    let lenBits ← okOr (.invalidSegment "copied probability segment length overflow")
      ((checkedMul probability.resolution 8).bind fun n => checkedMul n lenUnits)
    if lenBits < minProbabilitySegmentBits then
      fail (.invalidSegment "copied filter segment is too short for probability map")
    else pure probability
  else pure probability

def checkCopiedChannel (probability : SegmentData) (ch : ℕ) : Outcome DstError SegmentData := do
  let count ← index probability.segmentCount ch
  forRange 0 count probability (checkCopiedSegment ch)

/-- `copy_from_filter_for_probability` (decoder.rs:518). -/
def copyFromFilterForProbability (filter : SegmentData) (channels : ℕ) : Outcome DstError SegmentData :=
  forRange 0 channels filter checkCopiedChannel

def copyMappingSegment (filter : SegmentData) (ch : ℕ) (data : SegmentData) (seg : ℕ) : Outcome DstError SegmentData := do
  let table ← index2 filter.tableForSegment ch seg
  return { data with tableForSegment := ← assign2 data.tableForSegment ch seg table }

def copyMappingChannel (filter data : SegmentData) (ch : ℕ) : Outcome DstError SegmentData := do
  let count ← index data.segmentCount ch
  let filterCount ← index filter.segmentCount ch
  if count ≠ filterCount then fail (.invalidMapping "probability and filter segment counts differ")
  else forRange 0 count data (copyMappingSegment filter ch)

/-- `copy_mapping_from_filter` (decoder.rs:541). -/
def copyMappingFromFilter (data filter : SegmentData) (channels : ℕ) : Outcome DstError SegmentData :=
  forRange 0 channels data (copyMappingChannel filter)

/-- `segment_len_bits` (decoder.rs:602). -/
def segmentLenBits (data : SegmentData) (ch seg : ℕ) : Outcome DstError ℕ := do
  let len ← index2 data.segmentLen ch seg
  okOr (.invalidSegment "expanded segment length overflow") ((checkedMul data.resolution 8).bind fun n => checkedMul n len)

/-- `segment_end_from_start` (decoder.rs:587). -/
def segmentEndFromStart (data : SegmentData) (ch seg segmentCount start bitsPerChannel : ℕ) : Outcome DstError ℕ := do
  if seg + 1 = segmentCount then return bitsPerChannel
  else
    let len ← data.segmentLenBits ch seg
    okOr (.invalidSegment "expanded segment boundary overflow") (checkedAdd start len)

end SegmentData

inductive SegmentKind where
  | filter
  | probability

def SegmentKind.undefinedTableMessage : SegmentKind → String
  | .filter => "filter segment references undefined table"
  | .probability => "probability segment references undefined table"

/-- One segment's check: its table exists and its end lies in the frame; returns the end. -/
def SegmentData.validateSegment (data : SegmentData) (ch count bitsPerChannel tableCount : ℕ) (kind : SegmentKind)
    (start seg : ℕ) : Outcome DstError ℕ := do
  let table ← index2 data.tableForSegment ch seg
  if tableCount ≤ table then fail (.invalidMapping kind.undefinedTableMessage)
  else
    let stop ← data.segmentEndFromStart ch seg count start bitsPerChannel
    if bitsPerChannel < stop ∨ stop < start then fail (.invalidSegment "segment boundary exceeds frame")
    else pure stop

def SegmentData.validateChannel (data : SegmentData) (bitsPerChannel tableCount : ℕ) (kind : SegmentKind) (ch : ℕ) :
    Outcome DstError Unit := do
  let count ← index data.segmentCount ch
  if count = 0 ∨ maxSegments < count then fail (.invalidSegment "invalid segment count")
  else
    let stop ← forRange 0 count 0 (data.validateSegment ch count bitsPerChannel tableCount kind)
    if stop ≠ bitsPerChannel then fail (.invalidSegment "segments do not cover frame") else pure ()

/-- `validate_decode_mapping` (decoder.rs:556). -/
def SegmentData.validateDecodeMapping (data : SegmentData) (channels bitsPerChannel tableCount : ℕ) (kind : SegmentKind) :
    Outcome DstError Unit :=
  forRange 0 channels () fun _ ch => data.validateChannel bitsPerChannel tableCount kind ch

structure SegmentCursor where
  segmentIndex : ℕ
  segmentStartBit : ℕ
  segmentEndBit : ℕ

abbrev SegmentCursorSet := List SegmentCursor

namespace SegmentCursorSet

/-- The cursor of a channel starts at its first segment. -/
def openChannel (segments : SegmentData) (bitsPerChannel : ℕ) (cursors : SegmentCursorSet) (ch : ℕ) :
    Outcome DstError SegmentCursorSet := do
  let count ← index segments.segmentCount ch
  let cursor ← index cursors ch
  let stop ← segments.segmentEndFromStart ch 0 count 0 bitsPerChannel
  assign cursors ch { cursor with segmentEndBit := stop }

/-- `SegmentCursorSet::new` (decoder.rs:638). -/
def new (segments : SegmentData) (channels bitsPerChannel tableCount : ℕ) (kind : SegmentKind) :
    Outcome DstError SegmentCursorSet := do
  segments.validateDecodeMapping channels bitsPerChannel tableCount kind
  forRange 0 channels (List.replicate maxChannels ⟨0, 0, 0⟩) (openChannel segments bitsPerChannel)

/-- The `while` of `table_for_bit`: move to the segment of `bitIndex`. -/
def seek (segments : SegmentData) (ch bitIndex bitsPerChannel count : ℕ) (cursor : SegmentCursor) :
    Outcome DstError SegmentCursor := do
  if _ : cursor.segmentEndBit ≤ bitIndex ∧ cursor.segmentIndex + 1 < count then
    let start := cursor.segmentEndBit
    let stop ← segments.segmentEndFromStart ch (cursor.segmentIndex + 1) count start bitsPerChannel
    seek segments ch bitIndex bitsPerChannel count ⟨cursor.segmentIndex + 1, start, stop⟩
  else return cursor
termination_by count - cursor.segmentIndex

/-- `table_for_bit` (decoder.rs:664). -/
def tableForBit (cursors : SegmentCursorSet) (segments : SegmentData) (ch bitIndex bitsPerChannel tableCount : ℕ)
    (kind : SegmentKind) : Outcome DstError (ℕ × SegmentCursorSet) := do
  let count ← index segments.segmentCount ch
  let cursor ← index cursors ch
  let cursor ← seek segments ch bitIndex bitsPerChannel count cursor
  let cursors ← assign cursors ch cursor
  if bitIndex < cursor.segmentStartBit ∨ cursor.segmentEndBit ≤ bitIndex then
    fail (.invalidSegment "segments do not cover frame")
  else
    let table ← index2 segments.tableForSegment ch cursor.segmentIndex
    if tableCount ≤ table then fail (.invalidMapping kind.undefinedTableMessage)
    else return (table, cursors)

end SegmentCursorSet
end Dst
