import Tonepoet.Library.KeptState
import Tonepoet.Sacd.Sectors

/-!
# The frame reader (sacd-rs/frame.rs:252-1250)

Frames are put together from the audio packets of consecutive sectors. What the caller sets before it reads is a `FrameReader`; what changes
while it reads is a `Reading`, and a step that fails keeps what it has changed. Counters are natural numbers.
-/

namespace Sacd

open Rust

structure FrameTimeFilter where
  startFrame : ℕ
  endFrame : ℕ

/-- `FrameTimeFilter::new`, which saturates. -/
def FrameTimeFilter.new (startFrame durationFrames : ℕ) : FrameTimeFilter := ⟨startFrame, min (startFrame + durationFrames) (2 ^ 32 - 1)⟩

def FrameTimeFilter.includes (filter : FrameTimeFilter) (timecode : Timecode) : Bool :=
  filter.startFrame ≤ timecode.asFrameCount ∧ timecode.asFrameCount < filter.endFrame

def FrameTimeFilter.duration (filter : FrameTimeFilter) : ℕ := filter.endFrame - filter.startFrame

structure Frame where
  data : List UInt8
  timecode : Timecode
  channelCount : UInt8
  dstEncoded : Bool
  sectorCount : ℕ
  deriving DecidableEq

/-- A frame in progress has the fields of a frame. -/
abbrev PendingFrame := Frame

inductive RecoveryEventKind | malformedSector | ioError
  deriving DecidableEq

structure RecoveryEvent where
  lsn : ℕ
  kind : RecoveryEventKind
  error : String

structure DroppedFrameEvent where
  lsn : ℕ
  timecode : Timecode
  dstEncoded : Bool
  bytes : ℕ
  expectedBytes : Option ℕ
  reason : String

structure FrameReaderStats where
  sectorsRead : ℕ
  sectorsSkipped : ℕ
  malformedSectors : ℕ
  ioErrors : ℕ
  framesEmitted : ℕ
  framesFiltered : ℕ
  framesDroppedIncomplete : ℕ
  channelMismatches : ℕ
  frameFormatMismatches : ℕ
  invalidTimecodes : ℕ
  bytesEmitted : ℕ
  recoveryEvents : List RecoveryEvent
  droppedFrameEvents : List DroppedFrameEvent

def FrameReaderStats.default : FrameReaderStats := ⟨0, 0, 0, 0, 0, 0, 0, 0, 0, 0, 0, [], []⟩

/-- What is set before the first frame is read. -/
structure FrameReader where
  iso : IsoReader
  endLsn : ℕ
  expectedChannelCount : Option UInt8
  expectedFrameFormat : Option FrameFormat
  strictChannelCount : Bool
  timeFilter : Option FrameTimeFilter
  recoverSectorErrors : Bool

/-- What changes while frames are read. -/
structure Reading where
  curLsn : ℕ
  pending : Option PendingFrame
  ready : List Frame
  pastTimeFilterEnd : Bool
  stats : FrameReaderStats

/-- `FrameReader::new`. -/
def Reading.new (startLsn : ℕ) : Reading := ⟨startLsn, none, [], false, .default⟩

abbrev ReaderM := EStateM FrameError Reading

/-- `self.stats.… += …`. -/
def countStats (f : FrameReaderStats → FrameReaderStats) : ReaderM Unit := modify fun s => { s with stats := f s.stats }

/-- `self.stats.frames_filtered += 1`. -/
def countFiltered : ReaderM Unit := countStats fun stats => { stats with framesFiltered := stats.framesFiltered + 1 }

namespace FrameReader

variable (r : FrameReader)

/-! ## Whole frames -/

/-- The area's channel count, when it gives one. -/
def channels : Option UInt8 := r.expectedChannelCount.filter (0 < ·)

def expectedCompleteBytes (p : PendingFrame) : Option ℕ :=
  if p.dstEncoded then none else r.channels.map fun channels => frameSizeUncompressed * channels.toNat

def frameIsComplete (p : PendingFrame) : Bool :=
  if p.dstEncoded then p.sectorCount = 0 ∧ p.data ≠ []
  else
    match r.channels with
    | some channels => p.data.length = frameSizeUncompressed * channels.toNat
    | none => p.data ≠ [] ∧ p.data.length % frameSizeUncompressed = 0

/-! ## The time window -/

def timecodeSelected (s : Reading) (timecode : Timecode) : Bool :=
  if s.pastTimeFilterEnd then false
  else
    match r.timeFilter with
    | some filter => filter.includes timecode
    | none => true

def frameSelected (s : Reading) (frame : Frame) : Bool := r.timecodeSelected s frame.timecode

/-- The end has been passed, or as many frames are out as the window has. -/
def canSkipAfterSelectedTimeWindow (s : Reading) : Bool :=
  match r.timeFilter with
  | none => false
  | some filter => s.pastTimeFilterEnd ∨ (0 < filter.duration ∧ filter.duration ≤ s.stats.framesEmitted + s.ready.length)

def observeTimecodeForFilterEnd (timecode : Timecode) : ReaderM Unit :=
  match r.timeFilter with
  | some filter => if filter.endFrame ≤ timecode.asFrameCount then modify fun s => { s with pastTimeFilterEnd := true } else pure ()
  | none => pure ()

def pendingFrameOutsideTimeFilter (pending : PendingFrame) : ReaderM Bool :=
  match r.timeFilter with
  | none => pure false
  | some filter => do
    r.observeTimecodeForFilterEnd pending.timecode
    return !filter.includes pending.timecode

def pendingFrameReachesDynamicTimeTail (s : Reading) (pending : PendingFrame) : Bool :=
  match r.timeFilter with
  | none => false
  | some filter =>
    let emittedOrReady := s.stats.framesEmitted + s.ready.length
    emittedOrReady ≠ 0 ∧ min (filter.startFrame + emittedOrReady % 2 ^ 32) (2 ^ 32 - 1) ≤ pending.timecode.asFrameCount

def canSkipMalformedPacketAfterTimeWindow (frameInfos : List AudioFrameInfo) : ReaderM Bool := do
  let s ← get
  if r.canSkipAfterSelectedTimeWindow s then return true
  match r.timeFilter, frameInfos.head? with
  | some filter, some firstInfo =>
    if filter.endFrame ≤ firstInfo.timecode.asFrameCount then
      modify fun s => { s with pastTimeFilterEnd := true }
      return true
    else return false
  | _, _ => return false

/-! ## Finishing a frame -/

def recordDroppedFrame (lsn : ℕ) (pending : PendingFrame) (reason : String) : ReaderM Unit :=
  countStats fun stats =>
    { stats with
      framesDroppedIncomplete := stats.framesDroppedIncomplete + 1
      droppedFrameEvents := stats.droppedFrameEvents ++
        [⟨lsn, pending.timecode, pending.dstEncoded, pending.data.length, r.expectedCompleteBytes pending, reason⟩] }

/-- What happens to an incomplete frame at the end of the window. -/
def leaveWindow : ReaderM Unit := do
  countFiltered
  modify fun s => { s with pastTimeFilterEnd := true }

def handleIncompleteFrame (lsn : ℕ) (pending : PendingFrame) (reason : String) : ReaderM Unit := do
  let s ← get
  if r.canSkipAfterSelectedTimeWindow s then leaveWindow
  else
    let outside ← r.pendingFrameOutsideTimeFilter pending
    let s ← get
    if outside then leaveWindow
    else if r.pendingFrameReachesDynamicTimeTail s pending then leaveWindow
    else
      r.recordDroppedFrame lsn pending reason
      if r.recoverSectorErrors then pure ()
      else throw (.incompleteFrame lsn pending.timecode pending.dstEncoded pending.data.length (r.expectedCompleteBytes pending) reason)

def finishOrDrop (lsn : ℕ) (pending : PendingFrame) (reason : String) : ReaderM Unit := do
  if !r.frameIsComplete pending then r.handleIncompleteFrame lsn pending reason
  else
    let s ← get
    if r.frameSelected s pending then modify fun s => { s with ready := s.ready ++ [pending] }
    else countFiltered

/-! ## One packet -/

/-- The frame that a frame start opens. -/
def opened (dstEncoded : Bool) (info : AudioFrameInfo) : PendingFrame where
  data := []
  timecode := info.timecode
  channelCount := if dstEncoded then r.expectedChannelCount.getD info.derivedChannelCount else r.expectedChannelCount.getD 0
  dstEncoded := dstEncoded
  sectorCount := info.sectorCount

/-- Closes the frame in progress, if there is one. -/
def closePending (lsn : ℕ) : ReaderM Unit := do
  let s ← get
  match s.pending with
  | none => pure ()
  | some prev =>
    modify fun s => { s with pending := none }
    r.finishOrDrop lsn prev "new frame_start encountered before previous frame completed"

/-- The channel hint of a DST frame against the area's count. -/
def checkChannelCount (lsn : ℕ) (dstEncoded : Bool) (info : AudioFrameInfo) : ReaderM Unit := do
  if dstEncoded then
    match r.expectedChannelCount with
    | some expected =>
      if info.derivedChannelCount ≠ expected then
        countStats fun stats => { stats with channelMismatches := stats.channelMismatches + 1 }
        if r.strictChannelCount then throw (.channelCountMismatch lsn expected info.derivedChannelCount info.timecode)
        else pure ()
      else pure ()
    | none => pure ()
  else pure ()

/-- The timecode of a frame in the window; recovery counts one that is not normalised and goes on. -/
def checkTimecode (lsn : ℕ) (info : AudioFrameInfo) : ReaderM Unit := do
  if !info.timecode.isNormalized then
    countStats fun stats => { stats with invalidTimecodes := stats.invalidTimecodes + 1 }
    if r.recoverSectorErrors then pure () else throw (.invalidTimecode lsn info.timecode)
  else pure ()

/-- A frame start that has its frame info: whether its payload is wanted. -/
def startFrame (lsn : ℕ) (dstEncoded : Bool) (info : AudioFrameInfo) : ReaderM Bool := do
  let s ← get
  let selected := r.timecodeSelected s info.timecode
  r.observeTimecodeForFilterEnd info.timecode
  if !selected then
    countFiltered
    return false
  else
    let s ← get
    if !info.timecode.isNormalized && r.canSkipAfterSelectedTimeWindow s then
      countFiltered
      return false
    else
      r.checkTimecode lsn info
      r.checkChannelCount lsn dstEncoded info
      modify fun s => { s with pending := some (r.opened dstEncoded info) }
      return true

/-- `prepare_audio_packet`: whether the payload is wanted, and how many frame infos have been used. -/
def prepareAudioPacket (lsn : ℕ) (dstEncoded : Bool) (packet : AudioPacketInfo) (frameInfos : List AudioFrameInfo) (frameInfoIdx : ℕ) :
    ReaderM (Bool × ℕ) := do
  if !packet.frameStart then
    let s ← get
    return (s.pending.isSome, frameInfoIdx)
  else
    r.closePending lsn
    match frameInfos[frameInfoIdx]? with
    | none =>
      let s ← get
      if r.canSkipAfterSelectedTimeWindow s then
        countFiltered
        return (false, frameInfoIdx)
      else throw (.malformedSector lsn s!"audio frame_start without frame_info (idx {frameInfoIdx}, count {frameInfos.length})")
    | some info =>
      let wanted ← r.startFrame lsn dstEncoded info
      return (wanted, frameInfoIdx + 1)

/-- A frame in progress with one more payload. -/
def extended (p : PendingFrame) (packetData : List UInt8) : PendingFrame :=
  { p with data := p.data ++ packetData, sectorCount := if p.dstEncoded then p.sectorCount - 1 else p.sectorCount }

def appendAudioPacketPayload (lsn : ℕ) (packetData : List UInt8) : ReaderM Unit := do
  let s ← get
  match s.pending with
  | none => pure ()
  | some p =>
    let attempted := p.data.length + packetData.length
    if attempted > maxFrameSize then
      modify fun s => { s with pending := none }
      r.recordDroppedFrame lsn p "frame buffer overflow"
      throw (.bufferOverflow lsn attempted maxFrameSize)
    else if r.frameIsComplete (extended p packetData) then
      modify fun s => { s with pending := none }
      r.finishOrDrop lsn (extended p packetData) "frame completed"
    else modify fun s => { s with pending := some (extended p packetData) }

/-- An audio packet with its payload. -/
def audioPacket (lsn : ℕ) (sector : List UInt8) (parsed : ParsedSector) (packet : AudioPacketInfo) (payloadOffset frameInfoIdx : ℕ) :
    ReaderM ℕ := do
  let (needsPayload, frameInfoIdx) ← r.prepareAudioPacket lsn parsed.dstEncoded packet parsed.frameInfos frameInfoIdx
  if needsPayload then
    let packetData ← MonadExcept.ofExcept (readPacketPayload r.iso r.endLsn lsn sector payloadOffset packet.packetLength)
    r.appendAudioPacketPayload lsn packetData
    return frameInfoIdx
  else return frameInfoIdx

/-! ## One sector -/

/-- The loop of `process_sector_bytes` over the packets that are left. -/
def processPackets (lsn : ℕ) (sector : List UInt8) (parsed : ParsedSector) : List AudioPacketInfo → ℕ → ℕ → ReaderM Unit
  | [], _, _ => pure ()
  | packet :: packets, payloadOffset, frameInfoIdx => do
    if packet.packetLength > maxPacketSize then
      let skip ← r.canSkipMalformedPacketAfterTimeWindow parsed.frameInfos
      if skip then countFiltered
      else throw (.malformedSector lsn s!"packet length {packet.packetLength} exceeds {maxPacketSize}")
    else
      let packetEnd ← MonadExcept.ofExcept <| match checkedAdd payloadOffset packet.packetLength with
        | some packetEnd => Except.ok packetEnd
        | none => .error (.malformedSector lsn "packet offset overflow")
      if packet.dataType = dataTypeAudio then
        let frameInfoIdx ← r.audioPacket lsn sector parsed packet payloadOffset frameInfoIdx
        processPackets lsn sector parsed packets packetEnd frameInfoIdx
      else processPackets lsn sector parsed packets packetEnd frameInfoIdx

def processSectorBytes (lsn : ℕ) (sector : List UInt8) : ReaderM Unit := do
  let parsed ← MonadExcept.ofExcept (parseSectorHeader sector lsn r.expectedFrameFormat)
  r.processPackets lsn sector parsed parsed.packets parsed.payloadOffset 0

/-! ## The next frame -/

/-- The frame in progress goes, with an event. -/
def dropPending (s : Reading) : ReaderM Unit :=
  match s.pending with
  | some pending => do
    modify fun s => { s with pending := none }
    r.recordDroppedFrame (s.curLsn - 1) pending "sector recovery discarded the in-progress frame"
  | none => pure ()

def discardRecoveryState (s : Reading) : ReaderM Unit := do
  r.dropPending s
  modify fun s => { s with ready := [] }

/-- A sector that recovery skips. -/
def skipSector (lsn : ℕ) (kind : RecoveryEventKind) (error : String) : ReaderM Unit := do
  countStats fun stats =>
    { stats with sectorsSkipped := stats.sectorsSkipped + 1, recoveryEvents := stats.recoveryEvents ++ [⟨lsn, kind, error⟩] }
  let s ← get
  r.discardRecoveryState s

def countFormatMismatch : FrameError → ReaderM Unit
  | .frameFormatMismatch .. => countStats fun stats => { stats with frameFormatMismatches := stats.frameFormatMismatches + 1 }
  | _ => pure ()

/-- What recovery does about a sector that could not be processed. -/
def recoverFrom (lsn : ℕ) (err : FrameError) : ReaderM Unit :=
  if r.recoverSectorErrors then do
    countFormatMismatch err
    countStats fun stats => { stats with malformedSectors := stats.malformedSectors + 1 }
    r.skipSector lsn .malformedSector err.display
  else throw err

/-- One turn of `next_frame`'s loop: the sector at the current place. -/
def nextSector : ReaderM Unit := do
  let s ← get
  let lsn := s.curLsn
  modify fun s => { s with curLsn := lsn + 1 }
  match r.iso lsn with
  | .ok sector =>
    countStats fun stats => { stats with sectorsRead := stats.sectorsRead + 1 }
    tryCatch (r.processSectorBytes lsn sector) (r.recoverFrom lsn)
  | .error e =>
    if r.recoverSectorErrors then
      countStats fun stats => { stats with ioErrors := stats.ioErrors + 1 }
      r.skipSector lsn .ioError e
    else throw (.io e)

/-- `self.stats.frames_emitted += 1`, with the frame's bytes. -/
def emit (frame : Frame) : ReaderM (Option Frame) := do
  countStats fun stats => { stats with framesEmitted := stats.framesEmitted + 1, bytesEmitted := stats.bytesEmitted + frame.data.length }
  return some frame

/-- `flush` (frame.rs:631). -/
def flush : ReaderM (Option Frame) := do
  let s ← get
  match s.pending with
  | none => return none
  | some pending =>
    modify fun s => { s with pending := none }
    if !r.frameIsComplete pending then return none
    else if r.frameSelected s pending then emit pending
    else
      countFiltered
      return none

/-- The first frame that is ready, or else what the rest of the loop does. -/
def readyOr (rest : ReaderM (Option Frame)) : ReaderM (Option Frame) := do
  let s ← get
  match s.ready with
  | frame :: ready =>
    modify fun s => { s with ready := ready }
    emit frame
  | [] => rest

/-- The loop of `next_frame`, with the number of sectors that are left: every turn takes one. -/
def nextFrameFrom : ℕ → ReaderM (Option Frame)
  | 0 => readyOr r.flush
  | sectors + 1 => readyOr do
    r.nextSector
    nextFrameFrom sectors

/-- `next_frame` (frame.rs:650). -/
def nextFrame : ReaderM (Option Frame) := do
  let s ← get
  r.nextFrameFrom (r.endLsn - s.curLsn)

end FrameReader
end Sacd
