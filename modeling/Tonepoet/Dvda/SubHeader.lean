import Mathlib.Data.Nat.Notation

/-!
# DVD-Audio packet headers (dvda_demux.rs:13-118)
-/

namespace Dvda

def pcmStreamId : UInt8 := 0xA0
def mlpStreamId : UInt8 := 0xA1
def mlpFirstAccessUnitPointerPayloadBias : ℕ := 5

inductive DvdaSubstreamKind where
  | pcm
  | mlp
  | unknown (streamId : UInt8)
  deriving DecidableEq, Repr

def DvdaSubstreamKind.fromStreamId (streamId : UInt8) : DvdaSubstreamKind :=
  if streamId = pcmStreamId then .pcm else if streamId = mlpStreamId then .mlp else .unknown streamId

structure DvdaPcmSubHeader where
  firstAudioFrame : UInt16
  group1BitsCode : UInt8
  group2BitsCode : UInt8
  group1SampleRateCode : UInt8
  group2SampleRateCode : UInt8
  group1Bits : Option UInt32
  group2Bits : Option UInt32
  group1SampleRate : Option UInt32
  group2SampleRate : Option UInt32
  channelCount : Option UInt8
  channelAssignment : UInt8
  cci : UInt8
  deriving DecidableEq, Repr

structure DvdaSubHeader where
  streamId : UInt8
  cyclic : UInt8
  extraHeaderLength : UInt8
  totalHeaderLength : ℕ
  firstAccessUnitPointer : Option UInt16
  cci : Option UInt8
  pcm : Option DvdaPcmSubHeader
  deriving DecidableEq, Repr

def DvdaSubHeader.kind (self : DvdaSubHeader) : DvdaSubstreamKind :=
  if self.pcm.isSome then .pcm else .fromStreamId self.streamId

/-- `mlp_first_access_unit_payload_offset` (dvda_demux.rs:111). -/
def DvdaSubHeader.mlpFirstAccessUnitPayloadOffset (self : DvdaSubHeader) : Option ℕ :=
  if self.kind = .mlp then
    match self.firstAccessUnitPointer with
    | none => none
    | some pointer =>
      if mlpFirstAccessUnitPointerPayloadBias ≤ pointer.toNat then some (pointer.toNat - mlpFirstAccessUnitPointerPayloadBias) else none
  else none

end Dvda
