import Tonepoet.Container.Stream

/-!
# The DSF writer (dsf_writer.rs:40-357)

The bytes of an interleaved stream go to the buffers of their channels, bit by bit in the other order. Full buffers are
written one after the other, and `finish` fills up the last ones, appends the tag and writes the header. The counters
are `u64`s and an addition that overflows would come after a file that is too large.
-/

namespace Container

open Rust ByteFile

def blockSizePerChannel : ℕ := 4096

/-- The entries of `BIT_REVERSE` (dsf_writer.rs:103). -/
def bitReverse (byte : UInt8) : UInt8 :=
  ((List.range 8).foldl (fun (r, b) _ => ((r <<< 1) ||| (b &&& 1), b >>> 1)) ((0 : UInt8), byte)).1

inductive ChannelType where
  | mono
  | stereo
  | threeChannel
  | quad
  | fourChannel
  | surround5
  | surround51
  deriving DecidableEq

namespace ChannelType

/-- `as u32`. -/
def code : ChannelType → ℕ
  | mono => 1
  | stereo => 2
  | threeChannel => 3
  | quad => 4
  | fourChannel => 5
  | surround5 => 6
  | surround51 => 7

/-- `try_from_channel_count`. -/
def tryFromChannelCount (n : ℕ) : Option ChannelType :=
  match n with
  | 1 => some mono
  | 2 => some stereo
  | 3 => some threeChannel
  | 4 => some quad
  | 5 => some surround5
  | 6 => some surround51
  | _ => none

end ChannelType

structure DsfWriter where
  writer : OutputFile
  channelCount : ℕ
  sampleRate : ℕ
  channelType : ChannelType
  channelBuffers : List (List UInt8)
  audioDataSize : ℕ
  realBytesTotal : ℕ
  id3Footer : Option (List UInt8)

namespace DsfWriter

def dsdChunkSize : ℕ := 28
def fmtChunkSize : ℕ := 52
def dataChunkHeaderSize : ℕ := 12
def headerTotalSize : ℕ := dsdChunkSize + fmtChunkSize + dataChunkHeaderSize

/-- `serialize_header_with_metadata` (dsf_writer.rs:321). -/
def serializeHeaderWithMetadata (channelType : ChannelType)
    (channelCount sampleRate sampleCountPerChannel audioDataSize totalFileSize metadataOffset : ℕ) : List UInt8 :=
  fourcc 'D' 'S' 'D' ' ' ++ leBytes 8 dsdChunkSize ++ leBytes 8 totalFileSize ++ leBytes 8 metadataOffset ++
    fourcc 'f' 'm' 't' ' ' ++ leBytes 8 fmtChunkSize ++ leBytes 4 1 ++ leBytes 4 0 ++ leBytes 4 channelType.code ++ leBytes 4 channelCount ++
    leBytes 4 sampleRate ++ leBytes 4 1 ++ leBytes 8 sampleCountPerChannel ++ leBytes 4 blockSizePerChannel ++ leBytes 4 0 ++
    fourcc 'd' 'a' 't' 'a' ++ leBytes 8 (dataChunkHeaderSize + audioDataSize)

/-- `DsfWriter::new` (dsf_writer.rs:162). -/
def new (channelCount sampleRate : ℕ) : Except IoError DsfWriter := do
  ensure (channelCount ≠ 0) (.invalidInput "channel_count must be > 0")
  let channelType ← orError
    (.invalidInput s!"unsupported DSF channel_count {channelCount}; supported counts are 1 through 6")
    (ChannelType.tryFromChannelCount channelCount)
  let writer ← (OutputFile.empty.seek 0).writeAll (List.replicate headerTotalSize 0)
  return {
    writer
    channelCount
    sampleRate
    channelType
    channelBuffers := List.replicate channelCount []
    audioDataSize := 0
    realBytesTotal := 0
    id3Footer := none }

def setId3Footer (self : DsfWriter) (bytes : List UInt8) : DsfWriter := { self with id3Footer := some bytes }

def withFooter (self : DsfWriter) : Option (List UInt8) → DsfWriter
  | some bytes => self.setId3Footer bytes
  | none => self

def writeBuffers (writer : OutputFile) : List (List UInt8) → Except IoError OutputFile
  | [] => .ok writer
  | buf :: bufs => do
    let writer ← writer.writeAll buf
    writeBuffers writer bufs

/-- `flush_block` (dsf_writer.rs:235). -/
def flushBlock (self : DsfWriter) : Except IoError DsfWriter := do
  let writer ← writeBuffers self.writer self.channelBuffers
  return { self with
    writer
    channelBuffers := self.channelBuffers.map fun _ => []
    audioDataSize := self.audioDataSize + blockSizePerChannel * self.channelCount }

/-- One byte of `write_interleaved`, for channel `ch`. -/
def pushByte (self : DsfWriter) (ch : ℕ) (byte : UInt8) : DsfWriter :=
  { self with
    channelBuffers := self.channelBuffers.modify ch (· ++ [bitReverse byte])
    realBytesTotal := self.realBytesTotal + 1 }

/-- The buffers fill at the same rate, so the first one stands for all, after the last channel of a cycle. -/
def flushWhenFull (self : DsfWriter) (ch : ℕ) : Except IoError DsfWriter :=
  if ch = self.channelCount - 1 ∧ (self.channelBuffers.headD []).length = blockSizePerChannel then self.flushBlock else .ok self

/-- The loop of `write_interleaved`, from an index on. -/
def writeFrom (self : DsfWriter) (idx : ℕ) : List UInt8 → Except IoError DsfWriter
  | [] => .ok self
  | byte :: data => do
    let ch := idx % self.channelCount
    let self ← (self.pushByte ch byte).flushWhenFull ch
    self.writeFrom (idx + 1) data

/-- `write_interleaved` (dsf_writer.rs:214). -/
def writeInterleaved (self : DsfWriter) (data : List UInt8) : Except IoError DsfWriter := self.writeFrom 0 data

/-- `buf.resize(BLOCK_SIZE_PER_CHANNEL, 0)`. -/
def resizeBuffer (buf : List UInt8) : List UInt8 := buf.take blockSizePerChannel ++ List.replicate (blockSizePerChannel - buf.length) 0

/-- The padding of `finish`. -/
def flushLastBlock (self : DsfWriter) : Except IoError DsfWriter :=
  if (self.channelBuffers.headD []).length > 0 then { self with channelBuffers := self.channelBuffers.map resizeBuffer }.flushBlock
  else .ok self

/-- `finish` (dsf_writer.rs:249): the bytes of the file. -/
def finish (self : DsfWriter) : Except IoError (List UInt8) := do
  let self ← self.flushLastBlock
  let footerSize := (self.id3Footer.getD []).length
  let writer ← self.writer.writeFooter self.id3Footer
  let realBytesPerChannel := self.realBytesTotal / self.channelCount
  let sampleCountPerChannel ← orError .overflow (checkedMul realBytesPerChannel 8)
  let totalFileSize := headerTotalSize + self.audioDataSize + footerSize
  let metadataOffset := if footerSize > 0 then headerTotalSize + self.audioDataSize else 0
  let writer ← (writer.seek 0).writeAll (serializeHeaderWithMetadata self.channelType self.channelCount self.sampleRate
    sampleCountPerChannel self.audioDataSize totalFileSize metadataOffset)
  return writer.bytes

def writeCalls (self : DsfWriter) : List (List UInt8) → Except IoError DsfWriter
  | [] => .ok self
  | data :: calls => do
    let self ← self.writeInterleaved data
    self.writeCalls calls

/-- The file of a stream that comes in several calls, with a tag or without. -/
def writeFile (channelCount sampleRate : ℕ) (calls : List (List UInt8)) (footer : Option (List UInt8)) : Except IoError (List UInt8) := do
  let writer ← new channelCount sampleRate
  let writer ← writer.writeCalls calls
  (writer.withFooter footer).finish

end DsfWriter

end Container
