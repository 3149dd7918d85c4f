import Tonepoet.Container.DsdiffLayout

/-!
# The DSDIFF writer for uncompressed DSD (dff_writer.rs:45-300)

The bytes are written as they come. A size counts the zero byte after an odd number of bytes, as the original
writer counts it.
-/

namespace Container

open Rust ByteFile

structure DffWriter where
  writer : OutputFile
  channelCount : ℕ
  sampleRate : ℕ
  audioDataSize : ℕ
  footerBytes : Option (List UInt8)

namespace DffWriter

def cmprName : List UInt8 := ascii ['n', 'o', 't', ' ', 'c', 'o', 'm', 'p', 'r', 'e', 's', 's', 'e', 'd']
def cmprNameLen : UInt8 := 14

/-- `header_size`. -/
def headerSize (channelCount : ℕ) : ℕ := 136 + 4 * channelCount

/-- `serialize_header_with_footer` (dff_writer.rs:196). -/
def serializeHeaderWithFooter (channelCount sampleRate audioDataSize footerSize : ℕ) : List UInt8 :=
  let totalHeader := headerSize channelCount
  let frm8Size := totalHeader + audioDataSize + footerSize - chunkHeaderSize
  let chnlPayload := 2 + 4 * channelCount
  let chnlTotal := chunkHeaderSize + chnlPayload
  let propDataSize := 4 + 16 + chnlTotal + 32 + 14
  fourcc 'F' 'R' 'M' '8' ++ beBytes 8 frm8Size ++ fourcc 'D' 'S' 'D' ' ' ++
    fourcc 'F' 'V' 'E' 'R' ++ beBytes 8 4 ++ beBytes 4 0x01050000 ++
    fourcc 'P' 'R' 'O' 'P' ++ beBytes 8 propDataSize ++ fourcc 'S' 'N' 'D' ' ' ++
    fourcc 'F' 'S' ' ' ' ' ++ beBytes 8 4 ++ beBytes 4 sampleRate ++
    fourcc 'C' 'H' 'N' 'L' ++ beBytes 8 chnlPayload ++ beBytes 2 channelCount ++ (channelIds channelCount).flatten ++
    -- the size of 20 counts the zero byte
    fourcc 'C' 'M' 'P' 'R' ++ beBytes 8 20 ++ fourcc 'D' 'S' 'D' ' ' ++ [cmprNameLen] ++ cmprName ++ [0] ++
    fourcc 'L' 'S' 'C' 'O' ++ beBytes 8 2 ++ beBytes 2 (loudspeakerConfig channelCount) ++
    fourcc 'D' 'S' 'D' ' ' ++ beBytes 8 audioDataSize

def serializeHeader (channelCount sampleRate audioDataSize : ℕ) : List UInt8 :=
  serializeHeaderWithFooter channelCount sampleRate audioDataSize 0

/-- `DffWriter::new` (dff_writer.rs:115). -/
def new (channelCount sampleRate : ℕ) : Except IoError DffWriter := do
  ensure (channelCount ≠ 0) (.invalidInput "channel_count must be > 0")
  let header := serializeHeader channelCount sampleRate 0
  let writer ← (OutputFile.empty.seek 0).writeAll header
  return ⟨writer, channelCount, sampleRate, 0, none⟩

def setFooterBytes (self : DffWriter) (bytes : List UInt8) : DffWriter := { self with footerBytes := some bytes }

def withFooter (self : DffWriter) : Option (List UInt8) → DffWriter
  | some bytes => self.setFooterBytes bytes
  | none => self

/-- `write_frame` (dff_writer.rs:151). -/
def writeFrame (self : DffWriter) (data : List UInt8) : Except IoError DffWriter := do
  let writer ← self.writer.writeAll data
  return { self with writer, audioDataSize := self.audioDataSize + data.length }

/-- The zero byte of `finish`, which the size counts. -/
def padAudio (self : DffWriter) : Except IoError DffWriter :=
  if self.audioDataSize % 2 = 1 then do
    let writer ← self.writer.writeAll [0]
    return { self with writer, audioDataSize := self.audioDataSize + 1 }
  else .ok self

/-- `finish` (dff_writer.rs:160): the bytes of the file. -/
def finish (self : DffWriter) : Except IoError (List UInt8) := do
  let self ← self.padAudio
  let footerSize := (self.footerBytes.getD []).length
  let writer ← self.writer.writeFooter self.footerBytes
  let header := serializeHeaderWithFooter self.channelCount self.sampleRate self.audioDataSize footerSize
  let writer ← (writer.seek 0).writeAll header
  return writer.bytes

def writeCalls (self : DffWriter) : List (List UInt8) → Except IoError DffWriter
  | [] => .ok self
  | data :: calls => do
    let self ← self.writeFrame data
    self.writeCalls calls

/-- The file of a stream that comes in several calls, with a footer or without. -/
def writeFile (channelCount sampleRate : ℕ) (calls : List (List UInt8)) (footer : Option (List UInt8)) : Except IoError (List UInt8) := do
  let writer ← new channelCount sampleRate
  let writer ← writer.writeCalls calls
  (writer.withFooter footer).finish

end DffWriter

end Container
