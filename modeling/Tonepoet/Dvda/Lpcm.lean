import Tonepoet.Dvda.ChannelLayout
import Tonepoet.Dvda.SubHeader
import Tonepoet.Library.ByteFile
import Tonepoet.Rust

/-!
# The DVD-Audio LPCM decoder (dvda_lpcm.rs:21-745)

A step of the stream is two sample instants of the first channel group, and in some steps two of the second group before
them. What is written is the bytes that a call returns; writing does not fail. Samples are the bits of an `i32`.
-/

namespace Dvda

open ByteFile

def u64Max : ℕ := 2 ^ 64 - 1

/-- `saturating_add` of a `u64`. -/
def saturatingAdd (a b : ℕ) : ℕ := min (a + b) u64Max

structure LpcmStreamExpectation where
  sampleRate : Option ℕ
  channelCount : Option ℕ
  bitDepth : Option ℕ
  group1SampleRate : Option ℕ
  group2SampleRate : Option ℕ
  group1BitDepth : Option ℕ
  group2BitDepth : Option ℕ
  group1ChannelCount : Option ℕ
  group2ChannelCount : Option ℕ
  channelAssignmentCode : Option UInt8
  deriving DecidableEq, Repr

structure LpcmParams where
  sampleRate : ℕ
  channelCount : ℕ
  bitDepth : ℕ
  blockSize : ℕ
  samplesPerBlockPerChannel : ℕ
  group1SampleRate : ℕ
  group2SampleRate : Option ℕ
  group1Channels : ℕ
  group2Channels : ℕ
  channelAssignmentCode : UInt8
  group1Bits : ℕ
  group2Bits : Option ℕ
  rawGroup1Size : ℕ
  rawGroup2Size : ℕ
  rawGroup2Factor : ℕ
  deriving DecidableEq, Repr

structure LpcmDecodeStats where
  packets : ℕ
  payloadBytes : ℕ
  bytesDecoded : ℕ
  samplesPerChannel : ℕ
  firstHeader : Option DvdaPcmSubHeader
  lastHeader : Option DvdaPcmSubHeader
  formatChangeCount : ℕ
  firstAudioFramePointer : Option UInt16
  group2BlocksRead : ℕ
  group2BlocksRepeated : ℕ
  channelOrderPolicy : DvdaChannelOrderPolicy
  deriving DecidableEq, Repr

inductive LpcmDecodeError where
  | missingSampleRate
  | missingChannelCount
  | missingBitDepth
  | unsupportedBitDepth (bits : ℕ)
  | unsupportedChannelCount (channels : ℕ)
  | unsupportedChannelAssignment (code : UInt8)
  | unsupportedGroupRateRatio (group1 group2 : ℕ)
  | unsupportedGroupBitDepthCombination (group1 group2 : ℕ)
  | headerMismatch (message : String)
  | trailingPartialBlock (bytes nextBlockSize : ℕ)
  deriving DecidableEq, Repr

structure DvdAudioLpcmDecoder where
  expectation : LpcmStreamExpectation
  params : Option LpcmParams
  pending : List UInt8
  stats : LpcmDecodeStats
  channelOrderPolicy : DvdaChannelOrderPolicy
  rawGroup2Index : ℕ
  group1Samples : List (BitVec 32)
  lastGroup2Samples : List (BitVec 32)
  outputChannelIndices : Option (List ℕ)
  deriving DecidableEq, Repr

inductive LpcmGroup where
  | group1
  | group2
  deriving DecidableEq, Repr

/-- `ok_or(error)?`. -/
def orError {α : Type} (error : LpcmDecodeError) : Option α → Except LpcmDecodeError α
  | some a => .ok a
  | none => .error error

/-! ## Samples -/

/-- `validate_bits` (dvda_lpcm.rs:601). -/
def validateBits (bits : ℕ) : Except LpcmDecodeError Unit :=
  if bits = 16 ∨ bits = 20 ∨ bits = 24 then .ok () else .error (.unsupportedBitDepth bits)

/-- `raw_group_size` (dvda_lpcm.rs:608). -/
def rawGroupSize (channels bits : ℕ) : Except LpcmDecodeError ℕ := do
  validateBits bits
  return channels * bits / 4

/-- `packed_nibble_offset_20bit` (dvda_lpcm.rs:620). -/
def packedNibbleOffset20bit (block : List UInt8) (channels : ℕ) : ℕ :=
  let compactOffset := 4 * channels
  let fooInputDvdaOffset := block.length - 2 * channels
  if compactOffset + 2 * channels ≤ block.length then fooInputDvdaOffset else compactOffset

/-- `i16::from_be_bytes(..) as i32`. -/
def i16FromBeBytes (high low : UInt8) : BitVec 32 := (BitVec.ofNat 16 (ofBe [high, low])).signExtend 32

/-- `i32::from_le_bytes`. -/
def i32FromLeBytes (b0 b1 b2 b3 : UInt8) : BitVec 32 := BitVec.ofNat 32 (ofLe [b0, b1, b2, b3])

/-- The sample at `i` of a packed group (dvda_lpcm.rs:663-693). -/
def groupSample (block : List UInt8) (channels bits : ℕ) (group : LpcmGroup) (i : ℕ) : BitVec 32 :=
  let high0 := block.getD (2 * i) 0
  let high1 := block.getD (2 * i + 1) 0
  if bits = 16 then i16FromBeBytes high0 high1 <<< 16
  else if bits = 20 then
    let packed := block.getD (packedNibbleOffset20bit block channels + i / 2) 0
    let byte1 := match group with
      | .group1 => if i % 2 = 0 then packed &&& 0xf0 else packed <<< 4
      | .group2 => if i % 2 = 0 then packed >>> 4 else packed &&& 0x0f
    i32FromLeBytes 0 byte1 high1 high0
  else i32FromLeBytes 0 (block.getD (4 * channels + i) 0) high1 high0

/-- `decode_group_samples_into` (dvda_lpcm.rs:647). The blocks it is given are as long as the group. -/
def decodeGroupSamplesInto (block : List UInt8) (channels bits : ℕ) (group : LpcmGroup) : Except LpcmDecodeError (List (BitVec 32)) := do
  validateBits bits
  let sampleCount := 2 * channels
  let count := if bits = 16 then min sampleCount (block.length / 2) else sampleCount
  if count ≠ sampleCount then .error (.headerMismatch s!"LPCM packed group decoded {count} samples, expected {sampleCount}")
  else return (List.range count).map (groupSample block channels bits group)

/-- `write_ordered_split_frame` (dvda_lpcm.rs:739). -/
def writeOrderedSplitFrame (group1Frame group2Frame : List (BitVec 32)) : List ℕ → Except LpcmDecodeError (List UInt8)
  | [] => .ok []
  | sourceIndex :: sourceToOutputIndices =>
    let totalChannels := group1Frame.length + group2Frame.length
    let sample := if sourceIndex < group1Frame.length then group1Frame[sourceIndex]? else group2Frame[sourceIndex - group1Frame.length]?
    match sample with
    | some sample => do
      let bytes ← writeOrderedSplitFrame group1Frame group2Frame sourceToOutputIndices
      return leBytes 4 sample.toNat ++ bytes
    | none => .error (.headerMismatch
        s!"LPCM channel reorder index {sourceIndex} is outside decoded source frame with {totalChannels} channels")

/-- `write_reference_interleave` (dvda_lpcm.rs:703). -/
def writeReferenceInterleave (group1 group2 : List (BitVec 32)) (params : LpcmParams) (sourceToOutputIndices : List ℕ) :
    Except LpcmDecodeError (List UInt8) := do
  let g1 := params.group1Channels
  let g2 := params.group2Channels
  if group1.length ≠ 2 * g1 ∨ group2.length ≠ 2 * g2 then
    let length1 := group1.length
    let length2 := group2.length
    .error (.headerMismatch s!"LPCM decoded frame geometry changed: group1={length1}/{2 * g1} group2={length2}/{2 * g2}")
  else
    let first ← writeOrderedSplitFrame (group1.take g1) (group2.take g2) sourceToOutputIndices
    let second ← writeOrderedSplitFrame (group1.drop g1) (group2.drop g2) sourceToOutputIndices
    return first ++ second

/-! ## Parameters -/

namespace LpcmParams

/-- The ratio of the rates of the groups (dvda_lpcm.rs:480-493). -/
def groupRateFactor (group1SampleRate : ℕ) (group2SampleRate : Option ℕ) (group2Channels : ℕ) : Except LpcmDecodeError ℕ :=
  if group2Channels = 0 then .ok 1
  else
    let group2Rate := group2SampleRate.getD group1SampleRate
    if group2Rate = 0 ∨ group1SampleRate < group2Rate ∨ group1SampleRate % group2Rate ≠ 0 then
      .error (.unsupportedGroupRateRatio group1SampleRate group2Rate)
    else .ok (group1SampleRate / group2Rate)

/-- The bytes of a block of the second group (dvda_lpcm.rs:495-499). -/
def secondGroupSize (group2Channels bits : ℕ) : Except LpcmDecodeError ℕ :=
  if group2Channels = 0 then .ok 0 else rawGroupSize group2Channels bits

/-- The bit depths of the groups (dvda_lpcm.rs:470-479). -/
def checkGroupBits (group1Bits : ℕ) (group2Bits : Option ℕ) : Except LpcmDecodeError Unit := do
  validateBits group1Bits
  match group2Bits with
  | some bits => do
    validateBits bits
    if group1Bits < bits then .error (.unsupportedGroupBitDepthCombination group1Bits bits) else .ok ()
  | none => .ok ()

/-- `LpcmParams::new` (dvda_lpcm.rs:446). -/
def new (channelAssignmentCode : UInt8) (group1SampleRate : ℕ) (group2SampleRate : Option ℕ) (group1Channels group2Channels group1Bits : ℕ)
    (group2Bits : Option ℕ) : Except LpcmDecodeError LpcmParams := do
  let layout ← orError (.unsupportedChannelAssignment channelAssignmentCode) (layoutForAssignmentCode channelAssignmentCode)
  if layout.group1ChannelCount ≠ group1Channels ∨ layout.group2ChannelCount ≠ group2Channels then
    let label := layout.groupLabel
    .error (.headerMismatch
      s!"LPCM channel-assignment layout {label} differs from resolved group counts {group1Channels}+{group2Channels}")
  else
    let channelCount := group1Channels + group2Channels
    if ¬ (1 ≤ channelCount ∧ channelCount ≤ 8) then .error (.unsupportedChannelCount channelCount)
    else
      checkGroupBits group1Bits group2Bits
      let rawGroup2Factor ← groupRateFactor group1SampleRate group2SampleRate group2Channels
      let rawGroup1Size ← rawGroupSize group1Channels group1Bits
      let rawGroup2Size ← secondGroupSize group2Channels (group2Bits.getD group1Bits)
      return {
        sampleRate := group1SampleRate, channelCount, bitDepth := max (group2Bits.getD group1Bits) group1Bits
        blockSize := rawGroup1Size + rawGroup2Size, samplesPerBlockPerChannel := 2, group1SampleRate, group2SampleRate, group1Channels
        group2Channels, channelAssignmentCode, group1Bits, group2Bits, rawGroup1Size, rawGroup2Size, rawGroup2Factor }

/-- `output_channel_indices` (dvda_lpcm.rs:539). -/
def outputChannelIndices (self : LpcmParams) (policy : DvdaChannelOrderPolicy) : List ℕ :=
  match layoutForAssignmentCode self.channelAssignmentCode with
  | some layout => layout.sourceToOutputIndices policy
  | none => List.range self.channelCount

/-- `next_raw_step_size` (dvda_lpcm.rs:544). -/
def nextRawStepSize (self : LpcmParams) (rawGroup2Index : ℕ) : ℕ :=
  self.rawGroup1Size + if self.group2Channels ≠ 0 ∧ rawGroup2Index = 0 then self.rawGroup2Size else 0

/-- What `comparable_params` (dvda_lpcm.rs:566) compares. -/
def comparable (self : LpcmParams) : UInt8 × ℕ × Option ℕ × ℕ × ℕ × ℕ × Option ℕ :=
  (self.channelAssignmentCode, self.group1SampleRate, self.group2SampleRate, self.group1Channels, self.group2Channels, self.group1Bits,
    self.group2Bits)

def debugOption : Option ℕ → String
  | some n => s!"Some({n})"
  | none => "None"

/-- `{:?}` of `comparable_params`. -/
def debugComparable (self : LpcmParams) : String :=
  let code := self.channelAssignmentCode
  let group1Rate := self.group1SampleRate
  let group2Rate := debugOption self.group2SampleRate
  let group1Channels := self.group1Channels
  let group2Channels := self.group2Channels
  let group1Bits := self.group1Bits
  let group2Bits := debugOption self.group2Bits
  s!"({code}, {group1Rate}, {group2Rate}, {group1Channels}, {group2Channels}, {group1Bits}, {group2Bits})"

end LpcmParams

/-- What `comparable_header` (dvda_lpcm.rs:556) compares. -/
def DvdaPcmSubHeader.comparable (self : DvdaPcmSubHeader) : UInt8 × UInt8 × UInt8 × UInt8 × UInt8 :=
  (self.group1BitsCode, self.group2BitsCode, self.group1SampleRateCode, self.group2SampleRateCode, self.channelAssignment)

/-- `choose_u32` (dvda_lpcm.rs:583). -/
def chooseU32 (expected packet : Option ℕ) (expectedLabel packetLabel : String) : Except LpcmDecodeError (Option ℕ) :=
  match expected, packet with
  | some lhs, some rhs =>
    if lhs ≠ rhs then .error (.headerMismatch s!"{expectedLabel} {lhs} differs from {packetLabel} {rhs}") else .ok (some lhs)
  | some value, none => .ok (some value)
  | none, some value => .ok (some value)
  | none, none => .ok none

/-! ## The decoder -/

namespace DvdAudioLpcmDecoder

def new (expectation : LpcmStreamExpectation) : DvdAudioLpcmDecoder :=
  ⟨expectation, none, [], ⟨0, 0, 0, 0, none, none, 0, none, 0, 0, .preserveDvdAudio⟩, .preserveDvdAudio, 0, [], [], none⟩

def withChannelOrderPolicy (self : DvdAudioLpcmDecoder) (policy : DvdaChannelOrderPolicy) : DvdAudioLpcmDecoder :=
  { self with channelOrderPolicy := policy, stats := { self.stats with channelOrderPolicy := policy } }

/-- The rate of the second group (dvda_lpcm.rs:345-358), and its bit depth (369-382). -/
def chooseGroup2 (group2Channels : ℕ) (expected packet : Option ℕ) (group1 : ℕ) (expectedLabel packetLabel : String) :
    Except LpcmDecodeError (Option ℕ) :=
  if group2Channels = 0 then .ok none
  else (fun chosen => some (chosen.getD group1)) <$> chooseU32 expected packet expectedLabel packetLabel

/-- The layout of the first packet against the expected one (dvda_lpcm.rs:295-309). -/
def resolveLayout (expectation : LpcmStreamExpectation) (header : DvdaPcmSubHeader) : Except LpcmDecodeError DvdaChannelLayout := do
  let layout ← orError (.unsupportedChannelAssignment header.channelAssignment) (layoutForAssignmentCode header.channelAssignment)
  match expectation.channelAssignmentCode with
  | some expectedAssignment => do
    let expectedLayout ← orError (.unsupportedChannelAssignment expectedAssignment) (layoutForAssignmentCode expectedAssignment)
    if expectedLayout.orderLabel ≠ layout.orderLabel then
      let expectedLabel := expectedLayout.groupLabel
      let label := layout.groupLabel
      .error (.headerMismatch s!"IFO channel layout {expectedLabel} differs from LPCM packet layout {label}")
    else return layout
  | none => return layout

/-- The channel counts of the groups (dvda_lpcm.rs:310-333). -/
def resolveChannels (expectation : LpcmStreamExpectation) (layout : DvdaChannelLayout) : Except LpcmDecodeError (ℕ × ℕ) := do
  let chosen1 ← chooseU32 expectation.group1ChannelCount (some layout.group1ChannelCount) "IFO group 1 channel count"
    "LPCM packet channel-assignment group 1 channel count"
  let group1Channels ← orError .missingChannelCount chosen1
  let chosen2 ← chooseU32 expectation.group2ChannelCount (some layout.group2ChannelCount) "IFO group 2 channel count"
    "LPCM packet channel-assignment group 2 channel count"
  let group2Channels := chosen2.getD 0
  let channelCount := group1Channels + group2Channels
  let expectedChannels := expectation.channelCount.getD 0
  if channelCount = 0 then .error .missingChannelCount
  else if expectation.channelCount.any (fun expected => expected ≠ channelCount) then
    .error (.headerMismatch
      s!"IFO channel count {expectedChannels} differs from LPCM packet channel-assignment channel count {channelCount}")
  else return (group1Channels, group2Channels)

/-- The expected bit depth (dvda_lpcm.rs:383-390). -/
def checkBitDepth (expectation : LpcmStreamExpectation) (group1Bits : ℕ) (group2Bits : Option ℕ) : Except LpcmDecodeError Unit :=
  let maxBits := max (group2Bits.getD group1Bits) group1Bits
  let expectedBits := expectation.bitDepth.getD 0
  if expectation.bitDepth.any (fun expected => expected ≠ maxBits) && group2Bits.all (fun bits => bits = group1Bits) then
    .error (.headerMismatch s!"IFO bit depth {expectedBits} differs from LPCM packet bit depth {maxBits}")
  else .ok ()

/-- The parameters that `resolve_params` finds for the first packet (dvda_lpcm.rs:295-402). -/
def firstParams (expectation : LpcmStreamExpectation) (header : DvdaPcmSubHeader) : Except LpcmDecodeError LpcmParams := do
  let layout ← resolveLayout expectation header
  let (group1Channels, group2Channels) ← resolveChannels expectation layout
  let rate1 := header.group1SampleRate.map UInt32.toNat
  let rate2 := header.group2SampleRate.map UInt32.toNat
  let bits1 := header.group1Bits.map UInt32.toNat
  let bits2 := header.group2Bits.map UInt32.toNat
  let chosenRate ← chooseU32 (expectation.group1SampleRate <|> expectation.sampleRate) rate1 "IFO group 1 sample rate"
    "LPCM packet group 1 sample rate"
  let group1Rate ← orError .missingSampleRate (chosenRate <|> rate2)
  let group2Rate ← chooseGroup2 group2Channels expectation.group2SampleRate rate2 group1Rate "IFO group 2 sample rate"
    "LPCM packet group 2 sample rate"
  let chosenBits ← chooseU32 (expectation.group1BitDepth <|> expectation.bitDepth) bits1 "IFO group 1 bit depth"
    "LPCM packet group 1 bit depth"
  let group1Bits ← orError .missingBitDepth (chosenBits <|> bits2)
  let group2Bits ← chooseGroup2 group2Channels expectation.group2BitDepth bits2 group1Bits "IFO group 2 bit depth"
    "LPCM packet group 2 bit depth"
  checkBitDepth expectation group1Bits group2Bits
  LpcmParams.new header.channelAssignment group1Rate group2Rate group1Channels group2Channels group1Bits group2Bits

/-- `resolve_params` (dvda_lpcm.rs:290). -/
def resolveParams (self : DvdAudioLpcmDecoder) (header : DvdaPcmSubHeader) : Except LpcmDecodeError (DvdAudioLpcmDecoder × LpcmParams) :=
  match self.params with
  | some params => .ok (self, params)
  | none => do
    let params ← firstParams self.expectation header
    let self := { self with
      lastGroup2Samples := List.replicate (2 * params.group2Channels) 0
      outputChannelIndices := some (params.outputChannelIndices self.channelOrderPolicy)
      params := some params }
    return (self, params)

/-- `validate_packet_header` (dvda_lpcm.rs:409). -/
def validatePacketHeader (header : DvdaPcmSubHeader) (params : LpcmParams) : Except LpcmDecodeError Unit := do
  let layout ← orError (.unsupportedChannelAssignment header.channelAssignment) (layoutForAssignmentCode header.channelAssignment)
  let current ← LpcmParams.new header.channelAssignment ((header.group1SampleRate.map UInt32.toNat).getD params.group1SampleRate)
    (if params.group2Channels = 0 then none else header.group2SampleRate.map UInt32.toNat <|> params.group2SampleRate)
    layout.group1ChannelCount layout.group2ChannelCount ((header.group1Bits.map UInt32.toNat).getD params.group1Bits)
    (if params.group2Channels = 0 then none else header.group2Bits.map UInt32.toNat <|> params.group2Bits)
  if current.comparable ≠ params.comparable then
    let before := params.debugComparable
    let after := current.debugComparable
    .error (.headerMismatch s!"LPCM packet format changed from {before} to {after}")
  else .ok ()

/-- The second group of a step (dvda_lpcm.rs:237-258): the rest of the step, and the decoder with the group's samples and its place in
the cadence. -/
def stepGroup2 (self : DvdAudioLpcmDecoder) (step : List UInt8) (params : LpcmParams) :
    Except LpcmDecodeError (DvdAudioLpcmDecoder × List UInt8) :=
  if params.group2Channels = 0 then .ok (self, step)
  else do
    let (self, rest) ← if self.rawGroup2Index = 0 then do
        let lastGroup2Samples ← decodeGroupSamplesInto (step.take params.rawGroup2Size) params.group2Channels
          (params.group2Bits.getD params.group1Bits) .group2
        let stats := { self.stats with group2BlocksRead := saturatingAdd self.stats.group2BlocksRead 1 }
        pure ({ self with lastGroup2Samples, stats }, step.drop params.rawGroup2Size)
      else
        let stats := { self.stats with group2BlocksRepeated := saturatingAdd self.stats.group2BlocksRepeated 1 }
        pure ({ self with stats }, step)
    let next := self.rawGroup2Index + 1
    return ({ self with rawGroup2Index := if next = params.rawGroup2Factor then 0 else next }, rest)

/-- `decode_reference_step` (dvda_lpcm.rs:230). -/
def decodeReferenceStep (self : DvdAudioLpcmDecoder) (step : List UInt8) (params : LpcmParams) :
    Except LpcmDecodeError (DvdAudioLpcmDecoder × List UInt8) := do
  let (self, rest) ← self.stepGroup2 step params
  let group1Samples ← decodeGroupSamplesInto (rest.take params.rawGroup1Size) params.group1Channels params.group1Bits .group1
  let self := { self with group1Samples }
  let reorder ← orError (.headerMismatch "LPCM output channel map was not initialized with the validated parameters")
    self.outputChannelIndices
  let bytes ← writeReferenceInterleave self.group1Samples self.lastGroup2Samples params reorder
  return (self, bytes)

/-- `decode_available` (dvda_lpcm.rs:208), on what is left of the data. -/
def decodeAvailable (self : DvdAudioLpcmDecoder) (data : List UInt8) (params : LpcmParams) :
    Except LpcmDecodeError (DvdAudioLpcmDecoder × List UInt8) :=
  if data.isEmpty then .ok (self, [])
  else
    let needed := params.nextRawStepSize self.rawGroup2Index
    if data.length < needed then .ok ({ self with pending := self.pending ++ data }, [])
    -- the loop would not go on, but the parameters of `LpcmParams::new` have no steps of zero bytes
    else if needed = 0 then .ok (self, [])
    else do
      let (self, bytes) ← self.decodeReferenceStep (data.take needed) params
      let stats := { self.stats with
        bytesDecoded := saturatingAdd self.stats.bytesDecoded needed
        samplesPerChannel := saturatingAdd self.stats.samplesPerChannel 2 }
      let (self, rest) ← decodeAvailable { self with stats } (data.drop needed) params
      return (self, bytes ++ rest)
termination_by data.length
decreasing_by
  rw [List.length_drop]
  omega

/-- The statistics of a packet, before it is decoded (dvda_lpcm.rs:179-191). -/
def countPacket (stats : LpcmDecodeStats) (header : DvdaPcmSubHeader) (payload : List UInt8) : LpcmDecodeStats :=
  let stats := if stats.firstHeader.isNone then
      { stats with firstHeader := some header, firstAudioFramePointer := some header.firstAudioFrame }
    else stats
  let stats := if stats.lastHeader.any (fun previous => previous.comparable ≠ header.comparable) then
      { stats with formatChangeCount := saturatingAdd stats.formatChangeCount 1 }
    else stats
  { stats with
    lastHeader := some header
    packets := saturatingAdd stats.packets 1
    payloadBytes := saturatingAdd stats.payloadBytes payload.length }

/-- `decode_packet` (dvda_lpcm.rs:170). -/
def decodePacket (self : DvdAudioLpcmDecoder) (header : DvdaPcmSubHeader) (payload : List UInt8) :
    Except LpcmDecodeError (DvdAudioLpcmDecoder × List UInt8) := do
  let (self, params) ← self.resolveParams header
  validatePacketHeader header params
  let self := { self with stats := countPacket self.stats header payload }
  { self with pending := [] }.decodeAvailable (self.pending ++ payload) params

/-- Packet after packet. -/
def decodePackets (self : DvdAudioLpcmDecoder) : List (DvdaPcmSubHeader × List UInt8) → Except LpcmDecodeError (DvdAudioLpcmDecoder × List UInt8)
  | [] => .ok (self, [])
  | (header, payload) :: packets => do
    let (self, bytes) ← self.decodePacket header payload
    let (self, rest) ← self.decodePackets packets
    return (self, bytes ++ rest)

/-- `finish` (dvda_lpcm.rs:194). -/
def finish (self : DvdAudioLpcmDecoder) : Except LpcmDecodeError LpcmDecodeStats :=
  if self.pending.isEmpty then .ok self.stats
  else
    .error (.trailingPartialBlock self.pending.length
      (match self.params with
        | some params => params.nextRawStepSize self.rawGroup2Index
        | none => 1))

end DvdAudioLpcmDecoder

end Dvda
