import Tonepoet.Rust

/-!
# Audio sectors of an SACD image (sacd-rs/frame.rs:14-250, 1126-1230)

A sector starts with tables: how its packets are laid out, and the timecode of every frame that starts in it. The payloads follow; the last
one may run on into the sectors after it.
-/

namespace Sacd

open Rust

def sectorSize : ℕ := 2048
def frameSizeUncompressed : ℕ := 4704
def maxPacketSize : ℕ := 2045
def maxFrameSize : ℕ := 64 * 1024
def dataTypeAudio : UInt8 := 2

inductive FrameFormat
  | dst | reserved | dsd3In14 | dsd3In16 | dsd4 | dsd5 | dsd6 | dsd7
  | unknown (n : UInt8)
  deriving DecidableEq

/-- `Display` of a frame format. -/
def FrameFormat.display : FrameFormat → String
  | .dst => "DST"
  | .reserved => "reserved"
  | .dsd3In14 => "DSD-3-in-14"
  | .dsd3In16 => "DSD-3-in-16"
  | .dsd4 => "DSD-format-4"
  | .dsd5 => "DSD-format-5"
  | .dsd6 => "DSD-format-6"
  | .dsd7 => "DSD-format-7"
  | .unknown n => s!"unknown({n.toNat})"

structure Timecode where
  minutes : UInt8
  seconds : UInt8
  frames : UInt8
  deriving DecidableEq

/-- `Timecode::as_frame_count`: 75 frames a second. -/
def Timecode.asFrameCount (t : Timecode) : ℕ := t.minutes.toNat * 60 * 75 + t.seconds.toNat * 75 + t.frames.toNat

def Timecode.isNormalized (t : Timecode) : Bool := t.frames < 75

structure AudioFrameHeader where
  dstEncoded : Bool
  frameInfoCount : ℕ
  packetInfoCount : ℕ

def AudioFrameHeader.fromByte (byte : UInt8) : AudioFrameHeader where
  dstEncoded := byte &&& 0x01 ≠ 0
  frameInfoCount := ((byte >>> 2) &&& 0x07).toNat
  packetInfoCount := ((byte >>> 5) &&& 0x07).toNat

structure AudioPacketInfo where
  frameStart : Bool
  dataType : UInt8
  packetLength : ℕ
  deriving DecidableEq

def AudioPacketInfo.fromBytes : List UInt8 → Option AudioPacketInfo
  | b0 :: b1 :: _ => some ⟨b0 &&& 0x80 ≠ 0, (b0 >>> 3) &&& 0x07, (b0 &&& 0x07).toNat * 256 + b1.toNat⟩
  | _ => none

structure AudioFrameInfo where
  timecode : Timecode
  sectorCount : ℕ
  channelBits : UInt8

/-- `AudioFrameInfo::from_bytes`: a fourth byte in DST sectors. -/
def AudioFrameInfo.fromBytes (bytes : List UInt8) (dstEncoded : Bool) : Option AudioFrameInfo :=
  match bytes, dstEncoded with
  | b0 :: b1 :: b2 :: b3 :: _, true => some ⟨⟨b0, b1, b2⟩, ((b3 >>> 2) &&& 0x1f).toNat, b3 &&& 0x83⟩
  | b0 :: b1 :: b2 :: _, false => some ⟨⟨b0, b1, b2⟩, 0, 0⟩
  | _, _ => none

/-- `AudioFrameInfo::derived_channel_count`. -/
def AudioFrameInfo.derivedChannelCount (info : AudioFrameInfo) : UInt8 :=
  match (info.channelBits >>> 1) &&& 0x01, info.channelBits &&& 0x01 with
  | 1, 0 => 6
  | 0, 1 => 5
  | _, _ => 2

/-! ## Errors -/

inductive FrameError
  | io (error : String)
  | malformedSector (lsn : ℕ) (reason : String)
  | bufferOverflow (lsn attempted limit : ℕ)
  | incompleteFrame (lsn : ℕ) (timecode : Timecode) (dstEncoded : Bool) (bytes : ℕ) (expectedBytes : Option ℕ) (reason : String)
  | channelCountMismatch (lsn : ℕ) (expected derived : UInt8) (timecode : Timecode)
  | invalidTimecode (lsn : ℕ) (timecode : Timecode)
  | frameFormatMismatch (lsn : ℕ) (areaFormat : FrameFormat) (sectorDstEncoded : Bool)
  | unsupportedFrameFormat (lsn : ℕ) (areaFormat : FrameFormat)

/-- `{:02}:{:02}:{:02}`. -/
def Timecode.display (t : Timecode) : String :=
  twoDigits t.minutes ++ ":" ++ twoDigits t.seconds ++ ":" ++ twoDigits t.frames
where
  twoDigits (n : UInt8) : String := if n < 10 then "0" ++ toString n.toNat else toString n.toNat

/-- `Display` of an error. -/
def FrameError.display : FrameError → String
  | .io e => s!"io: {e}"
  | .malformedSector lsn reason => s!"malformed audio sector at LSN {lsn}: {reason}"
  | .bufferOverflow lsn attempted limit => s!"frame buffer overflow at LSN {lsn}: attempted {attempted} bytes, limit {limit} bytes"
  | .incompleteFrame lsn timecode dstEncoded bytes expectedBytes reason =>
    let kind := if dstEncoded then "DST" else "DSD"
    let time := timecode.display
    match expectedBytes with
    | some expected => s!"incomplete {kind} frame at LSN {lsn} timecode {time}: {bytes} bytes, expected {expected}; {reason}"
    | none => s!"incomplete {kind} frame at LSN {lsn} timecode {time}: {bytes} bytes; {reason}"
  | .channelCountMismatch lsn expected derived timecode =>
    let time := timecode.display
    s!"channel-count mismatch at LSN {lsn} timecode {time}: area TOC={expected.toNat}, frame hint={derived.toNat}"
  | .invalidTimecode lsn timecode =>
    let time := timecode.display
    s!"invalid SACD timecode at LSN {lsn}: {time} (seconds must be < 60 and frames < 75)"
  | .frameFormatMismatch lsn areaFormat sectorDstEncoded =>
    let area := areaFormat.display
    let sector := if sectorDstEncoded then "DST" else "plain DSD"
    s!"frame-format mismatch at LSN {lsn}: area TOC declares {area}, sector header declares {sector}"
  | .unsupportedFrameFormat lsn areaFormat =>
    let area := areaFormat.display
    s!"unsupported area TOC frame format at LSN {lsn}: {area}"

/-! ## The tables -/

structure ParsedSector where
  dstEncoded : Bool
  packets : List AudioPacketInfo
  frameInfos : List AudioFrameInfo
  payloadOffset : ℕ

/-- `frame_dst_routing`: the area decides when it says anything. -/
def frameDstRouting (lsn : ℕ) (expectedFrameFormat : Option FrameFormat) (sectorDstEncoded : Bool) : Except FrameError Bool :=
  match expectedFrameFormat with
  | none => .ok sectorDstEncoded
  | some .dst => .ok true
  | some .reserved => .error (.unsupportedFrameFormat lsn .reserved)
  | some (.unknown n) => .error (.unsupportedFrameFormat lsn (.unknown n))
  | some _ => .ok false

/-- `count` entries of `size` bytes each. -/
def readTable {α : Type} (error : FrameError) (read : List UInt8 → Option α) (size : ℕ) (sector : List UInt8) :
    ℕ → ℕ → Except FrameError (List α)
  | 0, _ => .ok []
  | count + 1, offset =>
    match read ((sector.drop offset).take size) with
    | none => .error error
    | some entry => do
      let rest ← readTable error read size sector count (offset + size)
      return entry :: rest

/-- `parse_sector_header` (frame.rs:1126). -/
def parseSectorHeader (sector : List UInt8) (lsn : ℕ) (expectedFrameFormat : Option FrameFormat) : Except FrameError ParsedSector := do
  if sector.length < sectorSize then throw (.malformedSector lsn s!"sector too short: {sector.length} bytes")
  let header := AudioFrameHeader.fromByte (sector.headD 0)
  let dstEncoded ← frameDstRouting lsn expectedFrameFormat header.dstEncoded
  if 1 + header.packetInfoCount * 2 > sector.length then throw (.malformedSector lsn "packet_info table extends beyond sector")
  let packets ← readTable (.malformedSector lsn "short packet_info") AudioPacketInfo.fromBytes 2 sector header.packetInfoCount 1
  let offset := 1 + header.packetInfoCount * 2
  -- The width of an entry is the sector's own matter.
  let frameInfoSize := if header.dstEncoded then 4 else 3
  if offset + header.frameInfoCount * frameInfoSize > sector.length then
    throw (.malformedSector lsn "frame_info table extends beyond sector")
  let frameInfos ← readTable (.malformedSector lsn "short frame_info") (AudioFrameInfo.fromBytes · header.dstEncoded) frameInfoSize sector
    header.frameInfoCount offset
  return ⟨dstEncoded, packets, frameInfos, offset + header.frameInfoCount * frameInfoSize⟩

/-! ## Payloads -/

/-- What `IsoReader::read_sector` gives for a sector. -/
abbrev IsoReader := ℕ → Except String (List UInt8)

/-- The loop of `read_packet_payload` (frame.rs:771); every turn takes a byte or more, so `remaining` turns are enough. -/
def readPacketPayloadFrom (iso : IsoReader) (endLsn lsn : ℕ) (sector : List UInt8) :
    ℕ → ℕ → ℕ → List UInt8 → Except FrameError (List UInt8)
  | 0, _, _, payload => .ok payload
  | turns + 1, absoluteOffset, remaining, payload =>
    if remaining = 0 then .ok payload
    else do
      let sectorDelta := absoluteOffset / sectorSize
      let offset := absoluteOffset % sectorSize
      let take := min remaining (sectorSize - offset)
      let sectorLsn ← match checkedAdd lsn sectorDelta with
        | some sectorLsn => pure sectorLsn
        | none => throw (.malformedSector lsn "packet lookahead LSN overflow")
      if sectorLsn ≥ endLsn then
        throw (.malformedSector lsn s!"packet payload extends past extraction range: end LSN {endLsn}")
      let bytes ←
        if sectorDelta = 0 then
          if offset + take > sector.length then throw (.malformedSector lsn "packet payload starts beyond current sector")
          else pure ((sector.drop offset).take take)
        else do
          let lookahead ← (iso sectorLsn).mapError .io
          pure ((lookahead.drop offset).take take)
      readPacketPayloadFrom iso endLsn lsn sector turns (absoluteOffset + take) (remaining - take) (payload ++ bytes)

/-- `read_packet_payload`. -/
def readPacketPayload (iso : IsoReader) (endLsn lsn : ℕ) (sector : List UInt8) (payloadOffset packetLen : ℕ) :
    Except FrameError (List UInt8) :=
  readPacketPayloadFrom iso endLsn lsn sector packetLen payloadOffset packetLen []

end Sacd
