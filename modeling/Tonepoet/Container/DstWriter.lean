import Tonepoet.Container.DsdiffLayout

/-!
# The DSDIFF/DST writer (dff_dst_writer.rs:739-1180)

The sizes, the frame count and the index are only known at the end, so `new` leaves placeholders that `finish`
patches. The statistics of the writer are left out.
-/

namespace Container

open Rust ByteFile Dst

namespace DffDstWriter

def dsdiffVersion : ℕ := 0x01050000
def frameRate : ℕ := 75
def cmprName : List UInt8 := ascii ['D', 'S', 'T', ' ', 'e', 'n', 'c', 'o', 'd', 'e', 'd']

end DffDstWriter

/-- One step of `dst_frame_crc`: the generator is `x^32 + x^31 + x^4 + 1`. -/
def crcBit (crc input : UInt32) : UInt32 :=
  let feedback := (crc >>> 31) ^^^ input
  (crc <<< 1) ^^^ if feedback ≠ 0 then 0x80000011 else 0

/-- `dst_frame_crc` (dff_dst_writer.rs:1110). -/
def dstFrameCrc (interleavedDsd : List UInt8) : UInt32 :=
  interleavedDsd.foldl (fun crc byte =>
    ([7, 6, 5, 4, 3, 2, 1, 0] : List UInt32).foldl (fun crc bit => crcBit crc ((byte.toUInt32 >>> bit) &&& 1)) crc) 0

/-- `checked_chunk_total` of the writer. -/
def checkedChunkTotal (dataLen : ℕ) : Except IoError ℕ :=
  orError (.invalidInput "DSDIFF chunk size overflow")
    ((checkedAdd dataLen (dataLen % 2)).bind fun n => checkedAdd n chunkHeaderSize)

/-- `append_chunk`. -/
def appendChunk (id data : List UInt8) : List UInt8 :=
  id ++ beBytes 8 data.length ++ data ++ if data.length % 2 ≠ 0 then [0] else []

/-- `write_chunk`: the output file and the size of the chunk. -/
def writeChunk (writer : OutputFile) (id data : List UInt8) : Except IoError (OutputFile × ℕ) := do
  let writer ← writer.writeAll id
  let writer ← writer.writeAll (beBytes 8 data.length)
  let writer ← writer.writeAll data
  let writer ← if data.length % 2 ≠ 0 then writer.writeAll [0] else .ok writer
  let total ← checkedChunkTotal data.length
  return (writer, total)

/-- `dst_rate_from_sample_rate`. -/
def dstRateFromSampleRate (sampleRate : ℕ) : Except IoError DstRate :=
  if sampleRate = 2822400 then .ok .dsd64
  else if sampleRate = 5644800 then .ok .dsd128
  else if sampleRate = 11289600 then .ok .dsd256
  else .error (.invalidDst (.err (.unsupportedRate sampleRate)))

/-- `map_err(invalid_input)`. -/
def orInvalidDst {α : Type} (x : Outcome DstEncodeError α) : Except IoError α := x.mapError .invalidDst

structure DffDstWriter where
  writer : OutputFile
  channelCount : ℕ
  rate : DstRate
  frm8SizeOffset : ℕ
  dstSizeOffset : ℕ
  frteFrameCountOffset : ℕ
  dstPayloadBytes : ℕ
  framesWritten : ℕ
  frameIndex : List (ℕ × ℕ)
  footerBytes : Option (List UInt8)

namespace DffDstWriter

/-- `serialize_prop_payload` (dff_dst_writer.rs:1124). -/
def serializePropPayload (channelCount sampleRate : ℕ) : List UInt8 :=
  fourcc 'S' 'N' 'D' ' ' ++
    appendChunk (fourcc 'F' 'S' ' ' ' ') (beBytes 4 sampleRate) ++
    appendChunk (fourcc 'C' 'H' 'N' 'L') (beBytes 2 channelCount ++ (channelIds channelCount).flatten) ++
    appendChunk (fourcc 'C' 'M' 'P' 'R') (fourcc 'D' 'S' 'T' ' ' ++ [UInt8.ofNat cmprName.length] ++ cmprName) ++
    appendChunk (fourcc 'L' 'S' 'C' 'O') (beBytes 2 (loudspeakerConfig channelCount))

/-- `DffDstWriter::new` (dff_dst_writer.rs:763) on an empty stream. -/
def new (channelCount sampleRate : ℕ) : Except IoError DffDstWriter := do
  let rate ← dstRateFromSampleRate sampleRate
  let _ ← orInvalidDst (validateDstPolicy .container rate channelCount)
  let writer ← OutputFile.empty.writeAll (fourcc 'F' 'R' 'M' '8')
  let frm8SizeOffset := writer.position
  let writer ← writer.writeAll (beBytes 8 0)
  let writer ← writer.writeAll (fourcc 'D' 'S' 'D' ' ')
  let (writer, _) ← writeChunk writer (fourcc 'F' 'V' 'E' 'R') (beBytes 4 dsdiffVersion)
  let (writer, _) ← writeChunk writer (fourcc 'P' 'R' 'O' 'P') (serializePropPayload channelCount sampleRate)
  let writer ← writer.writeAll (fourcc 'D' 'S' 'T' ' ')
  let dstSizeOffset := writer.position
  let writer ← writer.writeAll (beBytes 8 0)
  let writer ← writer.writeAll (fourcc 'F' 'R' 'T' 'E')
  let writer ← writer.writeAll (beBytes 8 6)
  let frteFrameCountOffset := writer.position
  let writer ← writer.writeAll (beBytes 4 0)
  let writer ← writer.writeAll (beBytes 2 frameRate)
  return {
    writer
    channelCount
    rate
    frm8SizeOffset
    dstSizeOffset
    frteFrameCountOffset
    dstPayloadBytes := chunkHeaderSize + 6
    framesWritten := 0
    frameIndex := []
    footerBytes := none }

def setFooterBytes (self : DffDstWriter) (bytes : List UInt8) : DffDstWriter := { self with footerBytes := some bytes }

def withFooter (self : DffDstWriter) : Option (List UInt8) → DffDstWriter
  | some bytes => self.setFooterBytes bytes
  | none => self

/-- `write_encoded_frame_payload` (dff_dst_writer.rs:996). -/
def writeEncodedFramePayload (self : DffDstWriter) (encodedDstFrame interleavedDsdForCrc : List UInt8) : Except IoError DffDstWriter := do
  let expected ← orInvalidDst (dstInterleavedFrameLenForRate self.rate self.channelCount)
  let got := interleavedDsdForCrc.length
  ensure (got = expected) (.invalidInput s!"DST CRC source has {got} bytes; expected {expected}")
  ensure (encodedDstFrame ≠ []) (.invalidInput "encoded DST frame must not be empty")
  let dstfTotal ← checkedChunkTotal encodedDstFrame.length
  ensure (dstfTotal < 2 ^ 32) (.invalidInput s!"DSTF chunk total {dstfTotal} exceeds DSTI u32 field")
  let frameIndex := self.frameIndex ++ [(self.dstPayloadBytes, dstfTotal)]
  let (writer, writtenDstf) ← writeChunk self.writer (fourcc 'D' 'S' 'T' 'F') encodedDstFrame
  let (writer, writtenDstc) ← writeChunk writer (fourcc 'D' 'S' 'T' 'C') (beBytes 4 (dstFrameCrc interleavedDsdForCrc).toNat)
  let dstPayloadBytes ← orError (.invalidInput "DST chunk size overflow")
    ((checkedAdd self.dstPayloadBytes writtenDstf).bind fun n => checkedAdd n writtenDstc)
  let framesWritten ← orError (.invalidInput "DST frame count overflow") (checkedAdd self.framesWritten 1)
  return { self with writer, frameIndex, dstPayloadBytes, framesWritten }

/-- The payload of `DSTI`: an offset into the `DST ` chunk and a size for each frame. -/
def indexBytes (frameIndex : List (ℕ × ℕ)) : List UInt8 := frameIndex.flatMap fun entry => beBytes 8 entry.1 ++ beBytes 4 entry.2

/-- `finish` (dff_dst_writer.rs:1062): the bytes of the file. -/
def finish (self : DffDstWriter) : Except IoError (List UInt8) := do
  let frames := self.framesWritten
  ensure (frames < 2 ^ 32) (.invalidInput s!"{frames} DST frames exceed FRTE u32 frame-count field")
  let _ ← orError (.invalidInput "DSTI capacity overflow") (checkedMul self.frameIndex.length 12)
  let (writer, _) ← writeChunk self.writer (fourcc 'D' 'S' 'T' 'I') (indexBytes self.frameIndex)
  let writer ← writer.writeFooter self.footerBytes
  let endPos := writer.position
  let frm8Size ← orError (.invalidInput "FRM8 size underflow") (checkedSub endPos chunkHeaderSize)
  let writer ← (writer.seek self.frm8SizeOffset).writeAll (beBytes 8 frm8Size)
  let writer ← (writer.seek self.dstSizeOffset).writeAll (beBytes 8 self.dstPayloadBytes)
  let writer ← (writer.seek self.frteFrameCountOffset).writeAll (beBytes 4 frames)
  return (writer.seek endPos).bytes

/-- `write_encoded_frame_payload` for each frame with its decoded bytes. -/
def writeFrames (self : DffDstWriter) : List (List UInt8 × List UInt8) → Except IoError DffDstWriter
  | [] => .ok self
  | frame :: frames => do
    let self ← self.writeEncodedFramePayload frame.1 frame.2
    self.writeFrames frames

/-- The file of a list of frames, with footer bytes or without. -/
def writeFile (channelCount sampleRate : ℕ) (frames : List (List UInt8 × List UInt8)) (footer : Option (List UInt8)) :
    Except IoError (List UInt8) := do
  let writer ← new channelCount sampleRate
  let writer ← writer.writeFrames frames
  (writer.withFooter footer).finish

end DffDstWriter

end Container
