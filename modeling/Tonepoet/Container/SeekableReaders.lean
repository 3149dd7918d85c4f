import Tonepoet.Container.DecodedReader
import Tonepoet.Library.SeekableStream

/-!
# Readers that seek by frames (dsd_file/reader.rs:583-633, 772-799, 910-931, 1048-1060)

What every call leaves in the reader, also a call that fails: `next_dsd_frame` moves on the file and in the counters
before it has checked what it read.
-/

namespace Container

open Rust ByteFile SeekableStream

/-- A call on `&mut self`: what it returns, beside the reader as it is afterwards. -/
def mutating {α ρ : Type} (call : Except DsdReadError (α × ρ)) (leftByError : ρ) : Except DsdReadError α × ρ :=
  match call with
  | .ok (a, r) => (.ok a, r)
  | .error e => (.error e, leftByError)

/-- Where `read_exact` stops in a file that is too short. -/
def endOfFile (file : List UInt8) (position : ℕ) : ℕ := max position file.length

/-! ## DSF -/

namespace DsfStreamReader

/-- `total_frame_count` (reader.rs:584). -/
def totalFrameCount (self : DsfStreamReader) : Except DsdReadError ℕ := ceilDivU64 self.bytesPerChannelTotal self.blockSizePerChannel

/-- `seek_frame` (reader.rs:598). -/
def seekFrame (frameIndex : ℕ) (self : DsfStreamReader) : Except DsdReadError (Unit × DsfStreamReader) := do
  let total ← self.totalFrameCount
  ensure (frameIndex ≤ total) (.malformed self.info.dataOffset s!"DSF frame seek {frameIndex} is past frame_count {total}")
  let channels ← nonzeroChannelCount self.info
  let perChannel ← orError (.malformed self.info.dataOffset "DSF seek byte-count overflow") (checkedMul frameIndex self.blockSizePerChannel)
  let physicalSkip ← orError (.malformed self.info.dataOffset "DSF seek offset overflow")
    ((checkedMul frameIndex self.blockSizePerChannel).bind fun n => checkedMul n channels)
  let offset ← checkedAddAt self.info.dataOffset physicalSkip "DSF seek absolute offset overflow"
  return ((), { self with
    position := offset
    bytesPerChannelRead := min perChannel self.bytesPerChannelTotal
    frameIndex })

/-- Where the file stands after the blocks of the channels have been read as far as they can be. -/
def positionAfterBlocks (self : DsfStreamReader) (channels useful position ch : ℕ) : ℕ → ℕ
  | 0 => position
  | n + 1 =>
    match (readExact self.reader position self.blockSizePerChannel : Except DsdReadError (List UInt8)) with
    | .error _ => endOfFile self.reader position
    | .ok block =>
      match self.validateFinalPadding channels useful ch block with
      | .error _ => position + self.blockSizePerChannel
      | .ok () => self.positionAfterBlocks channels useful (position + self.blockSizePerChannel) (ch + 1) n

/-- What the next frame has of each channel. -/
def usefulPerChannel (self : DsfStreamReader) : ℕ := min (self.bytesPerChannelTotal - self.bytesPerChannelRead) self.blockSizePerChannel

/-- The blocks of the next frame. -/
def nextBlocks (self : DsfStreamReader) : Except DsdReadError (List (List UInt8)) :=
  self.readChannelBlocks self.info.channelCount self.usefulPerChannel self.position 0 self.info.channelCount

/-- The reader after a call of `next_dsd_frame` that fails. -/
def leftByError (self : DsfStreamReader) : DsfStreamReader :=
  if self.info.channelCount = 0 ∨ self.bytesPerChannelTotal < self.bytesPerChannelRead then self
  else
    let position := self.positionAfterBlocks self.info.channelCount self.usefulPerChannel self.position 0 self.info.channelCount
    match self.nextBlocks with
    | .error _ => { self with position }
    | .ok _ =>
      match checkedAdd self.bytesPerChannelRead self.usefulPerChannel with
      | none => { self with position }
      | some bytesPerChannelRead => { self with position, bytesPerChannelRead }

/-- A block of the next frame cannot be read, or its padding is not zero. -/
def Trips (self : DsfStreamReader) : Prop :=
  self.bytesPerChannelRead < self.bytesPerChannelTotal ∧ ∀ blocks, self.nextBlocks ≠ .ok blocks

def stream : Stream DsfStreamReader DsdFrame DsdReadError where
  next self := mutating self.nextDsdFrame self.leftByError
  seek frameIndex self := mutating (self.seekFrame frameIndex) self
  position self := self.frameIndex
  count self := self.totalFrameCount.toOption
  number frame := frame.frameIndex
  trips := Trips

end DsfStreamReader

/-! ## DSDIFF/DSD -/

namespace DsdDsdiffStreamReader

/-- `total_frame_count` (reader.rs:767). -/
def totalFrameCount (self : DsdDsdiffStreamReader) : Except DsdReadError ℕ := ceilDivU64 self.info.dataSize self.frameBytes

/-- `seek_frame` (reader.rs:781). -/
def seekFrame (frameIndex : ℕ) (self : DsdDsdiffStreamReader) : Except DsdReadError (Unit × DsdDsdiffStreamReader) := do
  let total ← self.totalFrameCount
  ensure (frameIndex ≤ total) (.malformed self.info.dataOffset s!"DSDIFF/DSD frame seek {frameIndex} is past frame_count {total}")
  let bytes ← orError (.malformed self.info.dataOffset "DSDIFF/DSD seek byte-count overflow") (checkedMul frameIndex self.frameBytes)
  let consumed := min bytes self.info.dataSize
  let offset ← checkedAddAt self.info.dataOffset consumed "DSDIFF/DSD seek absolute offset overflow"
  return ((), { self with
    position := offset
    remainingPayloadBytes := self.info.dataSize - consumed
    frameIndex })

/-- The reader after a call of `next_dsd_frame` that fails. -/
def leftByError (self : DsdDsdiffStreamReader) : DsdDsdiffStreamReader :=
  let n := min self.remainingPayloadBytes self.frameBytes
  match readAt self.reader self.position n with
  | none => { self with position := endOfFile self.reader self.position }
  | some _ => { self with position := self.position + n, remainingPayloadBytes := self.remainingPayloadBytes - n }

/-- The file fails to give the bytes, or the frames can no longer be counted. -/
def Trips (self : DsdDsdiffStreamReader) : Prop :=
  self.remainingPayloadBytes ≠ 0 ∧
    (readAt self.reader self.position (min self.remainingPayloadBytes self.frameBytes) = none ∨ usizeMax ≤ self.frameIndex)

def stream : Stream DsdDsdiffStreamReader DsdFrame DsdReadError where
  next self := mutating self.nextDsdFrame self.leftByError
  seek frameIndex self := mutating (self.seekFrame frameIndex) self
  position self := self.frameIndex
  count self := self.totalFrameCount.toOption
  number frame := frame.frameIndex
  trips := Trips

end DsdDsdiffStreamReader

/-! ## DSDIFF/DST -/

namespace DstDsdiffStreamReader

/-- `seek_frame` (reader.rs:919). -/
def seekFrame (frameIndex : ℕ) (self : DstDsdiffStreamReader) : Except DsdReadError (Unit × DstDsdiffStreamReader) := do
  let count := self.frames.length
  ensure (frameIndex ≤ count) (.malformed self.info.dataOffset s!"DSDIFF/DST frame seek {frameIndex} is past frame_count {count}")
  return ((), { self with nextIndex := frameIndex })

/-- `next_dst_frame` seeks before it reads, and counts after it has read. -/
def stream : Stream DstDsdiffStreamReader DstFrame DsdReadError where
  next self := mutating self.nextDstFrame self
  seek frameIndex self := mutating (self.seekFrame frameIndex) self
  position self := self.nextIndex
  count self := some self.frames.length
  number frame := frame.frameIndex
  trips _ := False

end DstDsdiffStreamReader

namespace DstToDsdAdapter

/-- `seek_frame` (reader.rs:1056). -/
def seekFrame (frameIndex : ℕ) (self : DstToDsdAdapter) : Except DsdReadError (Unit × DstToDsdAdapter) := do
  let (_, inner) ← self.inner.seekFrame frameIndex
  return ((), { self with inner, decodedFrameIndex := frameIndex })

/-- The adapter after a call of `next_dsd_frame` that fails. A decoder that fails leaves what it likes in the buffer. -/
def leftByError (scribble : List UInt8 → List UInt8 → List UInt8) (self : DstToDsdAdapter) : DstToDsdAdapter :=
  match self.inner.nextDstFrame with
  | .ok (some frame, inner) =>
    match self.decoder.decodeFrameInto frame.encoded self.decodeBuffer with
    | .error _ => { self with inner, decodeBuffer := (scribble frame.encoded self.decodeBuffer).takeD self.decodeBuffer.length 0 }
    | .ok (decodedLen, decodeBuffer) =>
      let crcStatus := DstCrcStatus.verify frame.dstc (decodeBuffer.take decodedLen)
      if decodedLen ≠ self.expectedDecodedLen ∨ crcFailed crcStatus then { self with inner, decodeBuffer }
      else { self with inner, decodeBuffer, lastCrcStatus := some crcStatus }
  | _ => self

/-- The next frame is read, but it is not decoded to the length and the checksum it should have. -/
def Trips (self : DstToDsdAdapter) : Prop :=
  ∃ frame inner, self.inner.nextDstFrame = .ok (some frame, inner) ∧ ∀ r, decodeNext { self with inner } frame ≠ .ok r

def stream (scribble : List UInt8 → List UInt8 → List UInt8) : Stream DstToDsdAdapter DsdFrame DsdReadError where
  next self := mutating self.nextDsdFrame (self.leftByError scribble)
  seek frameIndex self := mutating (self.seekFrame frameIndex) self
  position self := self.decodedFrameIndex
  count self := DstDsdiffStreamReader.stream.count self.inner
  number frame := frame.frameIndex
  trips := Trips

end DstToDsdAdapter

end Container
