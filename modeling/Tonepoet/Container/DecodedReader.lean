import Tonepoet.Container.DsfWriter
import Tonepoet.Container.InspectDsf
import Tonepoet.Container.Reader

/-!
# The streaming readers of uncompressed DSD (dsd_file/reader.rs:60-800, 934-1045)

DSF and DSDIFF/DSD directly, DSDIFF/DST through the decoder, and what `open_dsd_as_decoded_reader` makes of a file.
Seeking by frames, and what a failed call leaves behind, stand in SeekableReaders.
-/

namespace Container

open Rust ByteFile

structure DsdFrame where
  frameIndex : ℕ
  data : List UInt8
  channelCount : ℕ
  sampleRate : ℕ
  byteOrder : DsdByteOrder
  isFinal : Bool
  deriving DecidableEq

def defaultDsdiffDsdFrameBytesPerChannel : ℕ := 4704
def dsfCanonicalBlockSizePerChannel : ℕ := 4096

/-- `nonzero_channel_count`. -/
def nonzeroChannelCount (info : DsdContainerInfo) : Except DsdReadError ℕ :=
  if info.channelCount = 0 then .error (.malformed info.dataOffset "channel count is zero") else .ok info.channelCount

/-- `ceil_div_u64` (reader.rs:1426). -/
def ceilDivU64 (n d : ℕ) : Except DsdReadError ℕ := do
  ensure (d ≠ 0) (.malformed 0 "division by zero")
  let v ← orError (.malformed 0 "ceiling division overflow") (checkedAdd n (d - 1))
  return v / d

/-- `id3v2_total_size_at` (reader.rs:1481). -/
def id3v2TotalSizeAt (file : List UInt8) (offset fileLen : ℕ) : Except DsdReadError ℕ := id3v2TagSizeAt .malformed file offset fileLen

/-! ## DSF -/

structure DsfStreamReader where
  reader : List UInt8
  position : ℕ
  info : DsdContainerInfo
  blockSizePerChannel : ℕ
  bytesPerChannelTotal : ℕ
  bytesPerChannelRead : ℕ
  frameIndex : ℕ

namespace DsfStreamReader

/-- `DsfStreamReader::new` (reader.rs:435). -/
def new (file : List UInt8) : Except DsdReadError DsfStreamReader := do
  let info ← inspected (inspectDsf file)
  rejectErrorDiagnostics info.diagnostics
  ensure (info.compression = .dsd ∧ info.format = .dsf) (.unsupportedFormat "DSF reader requires uncompressed Sony DSF")
  let channels ← nonzeroChannelCount info
  let blockSizePerChannel := info.dsfBlockSizePerChannel.getD dsfCanonicalBlockSizePerChannel
  ensure (blockSizePerChannel ≠ 0) (.malformed info.dataOffset "DSF block size per channel is zero")
  ensure (blockSizePerChannel = dsfCanonicalBlockSizePerChannel) (.unsupportedFormat
    s!"DSF block size {blockSizePerChannel} is not supported by this streaming reader; expected {dsfCanonicalBlockSizePerChannel}")
  let sampleCount ← orError (.malformed info.dataOffset "DSF sample count is missing from inspected header") info.sampleCountPerChannel
  let bytesPerChannelTotal ← ceilDivU64 sampleCount 8
  let minimumPayload ← orError (.malformed info.dataOffset "DSF declared sample count overflows payload size")
    (checkedMul bytesPerChannelTotal channels)
  let dataSize := info.dataSize
  ensure (minimumPayload ≤ dataSize) (.malformed info.dataOffset
    s!"DSF data chunk ends before declared samples: payload {dataSize} bytes is smaller than required {minimumPayload} bytes")
  return {
    reader := file
    position := info.dataOffset
    info
    blockSizePerChannel
    bytesPerChannelTotal
    bytesPerChannelRead := 0
    frameIndex := 0 }

/-- `read_id3_footer` (reader.rs:490), which leaves the reader where it was. -/
def readId3Footer (self : DsfStreamReader) : Except DsdReadError (Option (List UInt8)) :=
  match self.info.metadataOffset with
  | none => .ok none
  | some offset => do
    let tagLen ← id3v2TotalSizeAt self.reader offset self.reader.length
    let bytes ← readExact self.reader offset tagLen
    return some bytes

/-- The padding of a block that is only filled in part. -/
def validateFinalPadding (self : DsfStreamReader) (channels useful ch : ℕ) (block : List UInt8) : Except DsdReadError Unit :=
  if useful < self.blockSizePerChannel then
    match (block.drop useful).findIdx? (· ≠ 0) with
    | some tail => do
      let blockGroupSize ← orError (.malformed self.info.dataOffset "DSF block-group size overflow")
        (checkedMul self.blockSizePerChannel channels)
      let groupOffset ← orError (.malformed self.info.dataOffset "DSF final-block offset overflow")
        (checkedMul self.frameIndex blockGroupSize)
      let channelOffset ← orError (.malformed self.info.dataOffset "DSF final-block channel offset overflow")
        (checkedMul ch self.blockSizePerChannel)
      let physicalOffset ← orError (.malformed self.info.dataOffset "DSF final-block padding offset overflow")
        ((((checkedAdd self.info.dataOffset groupOffset).bind fun n => checkedAdd n channelOffset).bind fun n => checkedAdd n useful).bind
          fun n => checkedAdd n tail)
      let inBlock := useful + tail
      .error (.malformed physicalOffset
        s!"DSF final block padding for channel {ch} is not zero at byte {inBlock} within the channel block")
    | none => .ok ()
  else .ok ()

/-- The blocks of the channels, from channel `ch` on. -/
def readChannelBlocks (self : DsfStreamReader) (channels useful position ch : ℕ) : ℕ → Except DsdReadError (List (List UInt8))
  | 0 => .ok []
  | n + 1 => do
    let block ← readExact self.reader position self.blockSizePerChannel
    self.validateFinalPadding channels useful ch block
    let blocks ← self.readChannelBlocks channels useful (position + self.blockSizePerChannel) (ch + 1) n
    return block :: blocks

/-- The bytes of the channels in turn, in canonical bit order. -/
def interleave (channels useful : ℕ) (blocks : List (List UInt8)) : List UInt8 :=
  (List.range useful).flatMap fun i => (List.range channels).map fun ch => bitReverse ((blocks.getD ch []).getD i 0)

/-- `next_dsd_frame` (reader.rs:517). -/
def nextDsdFrame (self : DsfStreamReader) : Except DsdReadError (Option DsdFrame × DsfStreamReader) :=
  if self.bytesPerChannelRead ≥ self.bytesPerChannelTotal then .ok (none, self)
  else do
    let channels ← nonzeroChannelCount self.info
    let remainingPerChannel ← orError (.malformed self.info.dataOffset "DSF per-channel read counter underflow")
      (checkedSub self.bytesPerChannelTotal self.bytesPerChannelRead)
    let usefulPerChannel := min remainingPerChannel self.blockSizePerChannel
    let blocks ← self.readChannelBlocks channels usefulPerChannel self.position 0 channels
    let data := interleave channels usefulPerChannel blocks
    let bytesPerChannelRead ← orError (.malformed self.info.dataOffset "DSF read counter overflow")
      (checkedAdd self.bytesPerChannelRead usefulPerChannel)
    let frame : DsdFrame := {
      frameIndex := self.frameIndex
      data
      channelCount := self.info.channelCount
      sampleRate := self.info.sampleRate
      byteOrder := .msbFirst
      isFinal := bytesPerChannelRead ≥ self.bytesPerChannelTotal }
    let frameIndex ← orError (.malformed self.info.dataOffset "DSF frame index overflow") (checkedAdd self.frameIndex 1)
    return (some frame, { self with
      position := self.position + channels * self.blockSizePerChannel
      bytesPerChannelRead
      frameIndex })

end DsfStreamReader

/-! ## DSDIFF/DSD -/

structure DsdDsdiffStreamReader where
  reader : List UInt8
  position : ℕ
  info : DsdContainerInfo
  remainingPayloadBytes : ℕ
  frameBytes : ℕ
  frameIndex : ℕ

namespace DsdDsdiffStreamReader

/-- `PROP/CMPR` must say that the data is not compressed. -/
def requireDsdCode : Option (List UInt8) → Except DsdReadError Unit
  | some code =>
    let text := fourccLossy code
    ensure (code = idDsf) (.unsupportedFormat s!"DSDIFF/DSD reader requires PROP/CMPR = DSD ; got {text}")
  | none => .error (.unsupportedFormat "DSDIFF/DSD reader requires an explicit PROP/CMPR = DSD ")

/-- `with_frame_bytes` (reader.rs:651). -/
def withFrameBytes (file : List UInt8) (frameBytes : ℕ) : Except DsdReadError DsdDsdiffStreamReader := do
  let info ← inspected (inspectDsdiff file)
  rejectErrorDiagnostics info.diagnostics
  ensure (info.compression = .dsd ∧ info.format = .dsdiff)
    (.unsupportedFormat "DSDIFF/DSD reader requires an uncompressed DSDIFF data chunk")
  requireDsdCode info.dsdiffCmprCode
  let channels ← nonzeroChannelCount info
  let dataSize := info.dataSize
  ensure (dataSize % channels = 0)
    (.malformed info.dataOffset s!"DSDIFF/DSD payload size {dataSize} is not divisible by channel count {channels}")
  let defaultFrameBytes ← orError (.malformed info.dataOffset "default DSDIFF frame size overflow")
    (checkedMul defaultDsdiffDsdFrameBytesPerChannel channels)
  let frameBytes := if frameBytes = 0 then defaultFrameBytes else frameBytes
  ensure (frameBytes ≠ 0) (.malformed info.dataOffset "DSDIFF/DSD frame size must be non-zero")
  ensure (frameBytes % channels = 0)
    (.malformed info.dataOffset s!"DSDIFF/DSD frame size {frameBytes} would split {channels}-channel byte-interleaved samples")
  return {
    reader := file
    position := info.dataOffset
    info
    remainingPayloadBytes := info.dataSize
    frameBytes
    frameIndex := 0 }

/-- `DsdDsdiffStreamReader::new` (reader.rs:645). -/
def new (file : List UInt8) : Except DsdReadError DsdDsdiffStreamReader := withFrameBytes file 0

/-- `next_dsd_frame` (reader.rs:742). -/
def nextDsdFrame (self : DsdDsdiffStreamReader) : Except DsdReadError (Option DsdFrame × DsdDsdiffStreamReader) :=
  if self.remainingPayloadBytes = 0 then .ok (none, self)
  else do
    let n := min self.remainingPayloadBytes self.frameBytes
    let data ← readExact self.reader self.position n
    let remainingPayloadBytes := self.remainingPayloadBytes - n
    let frame : DsdFrame := {
      frameIndex := self.frameIndex
      data
      channelCount := self.info.channelCount
      sampleRate := self.info.sampleRate
      byteOrder := .msbFirst
      isFinal := remainingPayloadBytes = 0 }
    let frameIndex ← orError (.malformed self.info.dataOffset "DSDIFF/DSD frame index overflow") (checkedAdd self.frameIndex 1)
    return (some frame, { self with
      position := self.position + n
      remainingPayloadBytes
      frameIndex })

end DsdDsdiffStreamReader

/-! ## DSDIFF/DST -/

/-- `checked_dst_channel_count` (reader.rs:1359). -/
def checkedDstChannelCount (info : DsdContainerInfo) : Except DsdReadError ℕ := do
  let channels ← nonzeroChannelCount info
  ensure (channels ≤ 255) (.unsupportedFormat s!"DST channel count {channels} exceeds u8")
  ensure (1 ≤ channels ∧ channels ≤ 6)
    (.unsupportedFormat s!"DST decode adapter supports legal channel counts 1 through 6; got {channels}")
  return channels

/-- `DstRate::from_sample_rate`. -/
def dstRateOf (sampleRate : ℕ) : Outcome Dst.DstError Dst.DstRate :=
  if sampleRate = 2822400 then pure .dsd64
  else if sampleRate = 5644800 then pure .dsd128
  else if sampleRate = 11289600 then pure .dsd256
  else fail (.unsupportedRate sampleRate)

/-- `map_err(DsdReadError::Dst)`. -/
def orDst {α : Type} (x : Outcome Dst.DstError α) : Except DsdReadError α := x.mapError .dst

/-- `dst_decoded_frame_len` (reader.rs:1381). -/
def dstDecodedFrameLen (channels : ℕ) (rate : Dst.DstRate) : Except DsdReadError ℕ :=
  orDst do
    let bytes ← rate.frameBytesPerChannel
    okOr (.arithmeticDecodeFailure "decoded DST frame byte count overflow") (checkedMul bytes channels)

structure DstToDsdAdapter where
  inner : DstDsdiffStreamReader
  decoder : Dst.DstDecoder
  decodeBuffer : List UInt8
  expectedDecodedLen : ℕ
  decodedFrameIndex : ℕ
  lastCrcStatus : Option DstCrcStatus

namespace DstToDsdAdapter

/-- `DstToDsdAdapter::new` (reader.rs:951). -/
def new (inner : DstDsdiffStreamReader) : Except DsdReadError DstToDsdAdapter := do
  let channels ← checkedDstChannelCount inner.info
  let rate ← orDst (dstRateOf inner.info.sampleRate)
  let expectedDecodedLen ← dstDecodedFrameLen channels rate
  let decoder ← orDst (Dst.DstDecoder.new channels rate)
  return ⟨inner, decoder, List.replicate expectedDecodedLen 0, expectedDecodedLen, 0, none⟩

/-- The checksum does not fit the decoded bytes. -/
def crcFailed : DstCrcStatus → Bool
  | .presentFailed _ _ => true
  | .malformed _ => true
  | _ => false

/-- The decoding of `next_dsd_frame_ref` (reader.rs:985). -/
def decodeNext (self : DstToDsdAdapter) (frame : DstFrame) : Except DsdReadError (Option DsdFrame × DstToDsdAdapter) := do
  let (decodedLen, decodeBuffer) ← orDst (self.decoder.decodeFrameInto frame.encoded self.decodeBuffer)
  let frameIndexText := frame.frameIndex
  let expected := self.expectedDecodedLen
  ensure (decodedLen = expected)
    (.malformed frame.payloadOffset s!"DST decoder returned {decodedLen} bytes for frame {frameIndexText}, expected {expected}")
  let data := decodeBuffer.take decodedLen
  let crcStatus := DstCrcStatus.verify frame.dstc data
  ensure (crcFailed crcStatus = false) (.dstCrc frame.payloadOffset (some frame.frameIndex) crcStatus)
  let decodedFrameIndex ← orError (.malformed frame.payloadOffset "decoded DST frame index overflow") (checkedAdd self.decodedFrameIndex 1)
  return (some {
      frameIndex := self.decodedFrameIndex
      data
      channelCount := self.inner.info.channelCount
      sampleRate := self.inner.info.sampleRate
      byteOrder := .msbFirst
      isFinal := frame.isFinal },
    { self with
      decodeBuffer
      decodedFrameIndex
      lastCrcStatus := some crcStatus })

/-- `next_dsd_frame` (reader.rs:1041). -/
def nextDsdFrame (self : DstToDsdAdapter) : Except DsdReadError (Option DsdFrame × DstToDsdAdapter) := do
  let (frame, inner) ← self.inner.nextDstFrame
  match frame with
  | some frame => decodeNext { self with inner } frame
  | none => return (none, { self with inner })

end DstToDsdAdapter

/-! ## Opening a file -/

/-- `DsdFileReader`. -/
inductive DsdFileReader where
  | dsf (reader : DsfStreamReader)
  | dsdiffDsd (reader : DsdDsdiffStreamReader)
  | dsdiffDst (reader : DstDsdiffStreamReader)

inductive DsdDecodedFileReader where
  | dsf (reader : DsfStreamReader)
  | dsdiffDsd (reader : DsdDsdiffStreamReader)
  | dsdiffDst (reader : DstToDsdAdapter)

namespace DsdDecodedFileReader

def info : DsdDecodedFileReader → DsdContainerInfo
  | dsf reader => reader.info
  | dsdiffDsd reader => reader.info
  | dsdiffDst reader => reader.inner.info

/-- `next_dsd_frame` (reader.rs:303). -/
def nextDsdFrame : DsdDecodedFileReader → Except DsdReadError (Option DsdFrame × DsdDecodedFileReader)
  | dsf reader => (fun (frame, reader) => (frame, dsf reader)) <$> reader.nextDsdFrame
  | dsdiffDsd reader => (fun (frame, reader) => (frame, dsdiffDsd reader)) <$> reader.nextDsdFrame
  | dsdiffDst reader => (fun (frame, reader) => (frame, dsdiffDst reader)) <$> reader.nextDsdFrame

end DsdDecodedFileReader

/-- `open_dsd_file` (reader.rs:394). -/
def openDsdFile (file : List UInt8) : Except DsdReadError DsdFileReader := do
  let info ← inspected (inspectDsdContainer file)
  match info.format, info.compression with
  | .dsf, .dsd => .dsf <$> DsfStreamReader.new file
  | .dsdiff, .dsd => .dsdiffDsd <$> DsdDsdiffStreamReader.new file
  | .dsdiff, .dst => .dsdiffDst <$> DstDsdiffStreamReader.new file
  | .dsf, .dst => .error (.unsupportedFormat "unsupported combination Dsf/Dst")
  | _, .unknown code =>
    let text := fourccLossy code
    .error (.unsupportedFormat s!"unknown DSD compression code {text}")

/-- `into_decoded_dsd_reader` (reader.rs:262). -/
def DsdFileReader.intoDecodedDsdReader : DsdFileReader → Except DsdReadError DsdDecodedFileReader
  | dsf reader => .ok (.dsf reader)
  | dsdiffDsd reader => .ok (.dsdiffDsd reader)
  | dsdiffDst reader => .dsdiffDst <$> DstToDsdAdapter.new reader

/-- `open_dsd_as_decoded_reader` (reader.rs:420). -/
def openDsdAsDecodedReader (file : List UInt8) : Except DsdReadError DsdDecodedFileReader := do
  let reader ← openDsdFile file
  reader.intoDecodedDsdReader

end Container
