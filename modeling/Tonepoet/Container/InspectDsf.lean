import Tonepoet.Container.Inspect

/-!
# Inspection of a DSF file, and of either container (dsd_file/inspect.rs:219-439, 1063-1183)
-/

namespace Container

open Rust ByteFile

def dsfDsdChunkSize : ℕ := 28
def dsfFmtChunkSize : ℕ := 52
def dsfDataHeaderSize : ℕ := 12

/-- `le_u32_at`. -/
def leU32At (buf : List UInt8) (off : ℕ) : ℕ := ofLe ((buf.drop off).take 4)

/-- `le_u64_at`. -/
def leU64At (buf : List UInt8) (off : ℕ) : ℕ := ofLe ((buf.drop off).take 8)

/-- `is_supported_dsf_sample_rate` (inspect.rs:1063): DSD64 to DSD1024. -/
def isSupportedDsfSampleRate (rate : ℕ) : Bool := (List.range 5).any fun i => rate = 2822400 * 2 ^ i

/-- `expected_dsf_audio_payload_size` (inspect.rs:1079). -/
def expectedDsfAudioPayloadSize (sampleCountPerChannel blockSizePerChannel channelCount : ℕ) : Option ℕ :=
  if blockSizePerChannel = 0 ∨ channelCount = 0 then none
  else do
    let samples ← checkedAdd sampleCountPerChannel 7
    let bytesPerChannel := samples / 8
    let paddedPerChannel ←
      if bytesPerChannel = 0 then some 0
      else (checkedAdd bytesPerChannel (blockSizePerChannel - 1)).bind fun n => checkedMul (n / blockSizePerChannel) blockSizePerChannel
    checkedMul paddedPerChannel channelCount

/-- `dsf_channel_type_matches` (inspect.rs:1100). -/
def dsfChannelTypeMatches (channelType channelCount : ℕ) : Bool :=
  (channelType, channelCount) ∈ [(1, 1), (2, 2), (3, 3), (4, 4), (5, 4), (6, 5), (7, 6)]

/-! ## The tag -/

/-- `parse_id3v2_synchsafe_size` (inspect.rs:1172). The bytes have seven bits each, so their disjunction is a sum. -/
def parseId3v2SynchsafeSize (bytes : List UInt8) : Option ℕ :=
  match bytes with
  | [a, b, c, d] =>
    if bytes.any fun byte => byte &&& 0x80 ≠ 0 then none
    else some (a.toNat * 2 ^ 21 + b.toNat * 2 ^ 14 + c.toNat * 2 ^ 7 + d.toNat)
  | _ => none

/-- The size of the tag at an offset, which must reach to the end of the file; the inspection and the reader have the same checks. -/
def id3v2TagSizeAt {ε : Type} [FromIo ε] (malformed : ℕ → String → ε) (file : List UInt8) (offset fileLen : ℕ) : Except ε ℕ := do
  ensure (offset < fileLen) (malformed offset s!"metadata_offset {offset} is beyond file length {fileLen}")
  ensure (10 ≤ fileLen - offset) (malformed offset s!"metadata_offset {offset} leaves fewer than 10 bytes for an ID3v2 header")
  let header ← readExact file offset 10
  ensure (header.take 3 = ascii ['I', 'D', '3']) (malformed offset s!"metadata_offset {offset} does not point to an ID3v2 tag")
  ensure (header.getD 3 0 ≠ 0xff ∧ header.getD 4 0 ≠ 0xff) (malformed (offset + 3) "ID3v2 version bytes are invalid")
  let size ← orError (malformed (offset + 6) "ID3v2 tag size is not synchsafe") (parseId3v2SynchsafeSize ((header.drop 6).take 4))
  let total ← orError (malformed (offset + 6) "ID3v2 total tag size overflow") (checkedAdd 10 size)
  let tagEnd ← orError (malformed (offset + 6) "ID3v2 tag end offset overflow") (checkedAdd offset total)
  ensure (tagEnd ≤ fileLen) (malformed (offset + 6)
    s!"ID3v2 tag at metadata_offset {offset} declares end {tagEnd}, beyond file length {fileLen}")
  ensure (tagEnd = fileLen) (malformed (offset + 6)
    s!"ID3v2 tag at metadata_offset {offset} ends at {tagEnd}, but file length is {fileLen}; trailing metadata bytes are not accepted")
  return total

/-- `validate_id3v2_tag_at` (inspect.rs:1117). -/
def validateId3v2TagAt (file : List UInt8) (offset fileLen : ℕ) : Except DsdContainerError ℕ := id3v2TagSizeAt .malformed file offset fileLen

/-- `Display`. The only I/O error behind it is that of a `read_exact`. -/
def DsdContainerError.display : DsdContainerError → String
  | io _ => "I/O error while inspecting DSD container: failed to fill whole buffer"
  | notDsdContainer magic =>
    let text := fourccLossy magic
    s!"not a DSF/DSDIFF container: first four bytes are {text}"
  | malformed offset reason => s!"malformed DSD container at byte {offset}: {reason}"

/-! ## DSF -/

/-- What `fmt ` says. -/
structure DsfFmt where
  version : ℕ
  formatId : ℕ
  channelType : ℕ
  channelCount : ℕ
  sampleRate : ℕ
  bitsPerSample : ℕ
  sampleCountPerChannel : ℕ
  blockSize : ℕ
  reserved : ℕ
  deriving DecidableEq

def DsfFmt.read (payload : List UInt8) : DsfFmt where
  version := leU32At payload 0
  formatId := leU32At payload 4
  channelType := leU32At payload 8
  channelCount := leU32At payload 12
  sampleRate := leU32At payload 16
  bitsPerSample := leU32At payload 20
  sampleCountPerChannel := leU64At payload 24
  blockSize := leU32At payload 32
  reserved := leU32At payload 36

def sampleRateDiagnostics (fmtOffset sampleRate : ℕ) : List DsdContainerDiagnostic :=
  if sampleRate = 0 then [.error (fmtOffset + 28) "sample_frequency is zero"]
  else diagnose (isSupportedDsfSampleRate sampleRate = true) (.error (fmtOffset + 28)
    s!"unsupported DSF sample_frequency {sampleRate}; expected a 44.1 kHz-family DSD rate from DSD64 through DSD1024")

def blockSizeDiagnostics (fmtOffset blockSize : ℕ) : List DsdContainerDiagnostic :=
  if blockSize = 0 then [.error (fmtOffset + 44) "block_size_per_channel is zero"]
  else diagnose (blockSize = 4096)
    (.error (fmtOffset + 44) s!"unsupported block_size_per_channel {blockSize}; expected exactly 4096")

/-- The checks of the fields of `fmt `. -/
def fmtDiagnostics (fmtOffset : ℕ) (fmt : DsfFmt) : List DsdContainerDiagnostic :=
  let version := fmt.version
  let formatId := fmt.formatId
  let channelType := fmt.channelType
  let channelCount := fmt.channelCount
  let bitsPerSample := fmt.bitsPerSample
  let reserved := fmt.reserved
  let sampleCount := fmt.sampleCountPerChannel
  diagnose (version = 1) (.warning (fmtOffset + 12) s!"DSF version is {version}, expected 1") ++
    diagnose (formatId = 0) (.error (fmtOffset + 16) s!"DSF format_id is {formatId}, expected 0 for DSD") ++
    diagnose (dsfChannelTypeMatches channelType channelCount = true)
      (.error (fmtOffset + 20) s!"channel_type {channelType} is inconsistent with {channelCount} channels") ++
    sampleRateDiagnostics fmtOffset fmt.sampleRate ++
    diagnose (bitsPerSample = 1) (.error (fmtOffset + 32) s!"bits_per_sample is {bitsPerSample}, expected 1 for DSF LSB-first DSD") ++
    blockSizeDiagnostics fmtOffset fmt.blockSize ++
    diagnose (reserved = 0) (.warning (fmtOffset + 48) s!"reserved fmt field is {reserved}") ++
    diagnose (sampleCount % 8 = 0) (.error (fmtOffset + 36)
      s!"sample_count_per_channel {sampleCount} is not byte-aligned; this reader exposes byte-granular DSD frames")

/-- The end of the audio, zero when it overflows. -/
def dsfAudioEnd (dataOffset audioOffset audioSize fileLen : ℕ) : ℕ × List DsdContainerDiagnostic :=
  match checkedAdd audioOffset audioSize with
  | some audioEnd =>
    (audioEnd, diagnose (audioEnd ≤ fileLen) (.error (dataOffset + 4) s!"data chunk ends at {audioEnd}, beyond file length {fileLen}"))
  | none => (0, [.error (dataOffset + 4) "data chunk end offset overflow"])

/-- The checks of the tag's place. -/
def metadataPlaceDiagnostics (metaOffset audioEnd : ℕ) : List DsdContainerDiagnostic :=
  let gap := metaOffset - audioEnd
  if audioEnd = 0 then []
  else if metaOffset < audioEnd then
    [.error 20 s!"metadata_offset {metaOffset} points inside the DSF audio data chunk ending at {audioEnd}"]
  else diagnose (metaOffset = audioEnd)
    (.error 20 s!"metadata_offset {metaOffset} leaves {gap} byte(s) between audio payload end and metadata")

/-- The checks of the tag itself. -/
def tagDiagnostics (file : List UInt8) (metaOffset : ℕ) : List DsdContainerDiagnostic :=
  if metaOffset < file.length then
    match validateId3v2TagAt file metaOffset file.length with
    | .ok _ => []
    | .error e => [.error 20 e.display]
  else []

def metadataDiagnostics (file : List UInt8) (audioEnd : ℕ) : Option ℕ → List DsdContainerDiagnostic
  | some metaOffset => metadataPlaceDiagnostics metaOffset audioEnd ++ tagDiagnostics file metaOffset
  | none => []

/-- The size of the audio against the sample count. -/
def payloadSizeDiagnostics (fmtOffset dataOffset audioSize : ℕ) (fmt : DsfFmt) : List DsdContainerDiagnostic :=
  let sampleCount := fmt.sampleCountPerChannel
  let blockSize := fmt.blockSize
  let channelCount := fmt.channelCount
  match expectedDsfAudioPayloadSize sampleCount blockSize channelCount with
  | some expected => diagnose (audioSize = expected) (.error (dataOffset + 4)
      s!"data payload {audioSize} bytes does not match expected padded DSF payload {expected} bytes for sample_count {sampleCount}, block_size {blockSize}, and {channelCount} channels")
  | none => [.error (fmtOffset + 36) "sample_count × block_size × channel_count overflow while validating DSF data size"]

/-- The offset of the tag, when there is one. -/
def metadataOffsetOf (raw : ℕ) : Option ℕ := if raw = 0 then none else some raw

/-- `inspect_dsf` (inspect.rs:232). -/
def inspectDsf (file : List UInt8) : Except DsdContainerError DsdContainerInfo := do
  let fileLen := file.length
  let dsdId ← readFourcc file 0
  let dsdIdText := fourccLossy dsdId
  ensure (dsdId = idDsf) (.malformed 0 s!"expected DSF magic 'DSD ', got {dsdIdText}")
  let dsdChunkSize ← readU64Le file 4
  ensure (dsfDsdChunkSize ≤ dsdChunkSize) (.malformed 4 s!"DSD chunk too small: {dsdChunkSize} bytes")
  let totalFileSize ← readU64Le file 12
  let metadataOffsetRaw ← readU64Le file 20
  ensure (dsdChunkSize = dsfDsdChunkSize) (.malformed 4 s!"DSF DSD chunk size is {dsdChunkSize}; expected exactly {dsfDsdChunkSize}")
  let totalDiagnostics := diagnose (totalFileSize = 0 ∨ totalFileSize = fileLen)
    (.error 12 s!"DSF total_file_size declares {totalFileSize}, actual file length is {fileLen}")
  let metadataOffset := metadataOffsetOf metadataOffsetRaw
  let beyondDiagnostics := diagnose (metadataOffsetRaw = 0 ∨ metadataOffsetRaw < fileLen)
    (.error 20 s!"metadata_offset {metadataOffsetRaw} is beyond file length {fileLen}")
  let fmtOffset := dsdChunkSize
  let fmtId ← readFourcc file fmtOffset
  let fmtIdText := fourccLossy fmtId
  ensure (fmtId = idFmt) (.malformed fmtOffset s!"expected DSF fmt chunk, got {fmtIdText}")
  let fmtChunkSize ← readU64Le file (fmtOffset + 4)
  ensure (fmtChunkSize = dsfFmtChunkSize)
    (.malformed (fmtOffset + 4) s!"DSF fmt chunk size is {fmtChunkSize}; expected exactly {dsfFmtChunkSize}")
  let fmtPayload ← readExact file (fmtOffset + 12) (fmtChunkSize - 12)
  let fmt := DsfFmt.read fmtPayload
  let channelCount := fmt.channelCount
  ensure (channelCount ≠ 0 ∧ channelCount ≤ 65535) (.malformed (fmtOffset + 24) s!"invalid channel_count {channelCount}")
  let dataOffset ← orError (.malformed (fmtOffset + 4) "fmt chunk end offset overflow") (checkedAdd fmtOffset fmtChunkSize)
  let dataId ← readFourcc file dataOffset
  let dataIdText := fourccLossy dataId
  ensure (dataId = idData) (.malformed dataOffset s!"expected DSF data chunk, got {dataIdText}")
  let dataChunkSize ← readU64Le file (dataOffset + 4)
  ensure (dsfDataHeaderSize ≤ dataChunkSize) (.malformed (dataOffset + 4) s!"data chunk too small: {dataChunkSize}")
  let audioOffset ← orError (.malformed dataOffset "DSF data payload offset overflow") (checkedAdd dataOffset dsfDataHeaderSize)
  let audioSize := dataChunkSize - dsfDataHeaderSize
  let (audioEnd, audioDiagnostics) := dsfAudioEnd dataOffset audioOffset audioSize fileLen
  return {
    format := .dsf
    compression := .dsd
    byteOrder := .lsbFirst
    channelCount
    sampleRate := fmt.sampleRate
    sampleCountPerChannel := some fmt.sampleCountPerChannel
    dataOffset := audioOffset
    dataSize := audioSize
    metadataOffset
    channelIds := []
    dsfBlockSizePerChannel := some fmt.blockSize
    dsdiffCmprCode := none
    dsdiffFrm8Size := none
    dsdiffFrm8End := none
    diagnostics := totalDiagnostics ++ beyondDiagnostics ++ fmtDiagnostics fmtOffset fmt ++ audioDiagnostics ++
      metadataDiagnostics file audioEnd metadataOffset ++ payloadSizeDiagnostics fmtOffset dataOffset audioSize fmt }

/-- `inspect_dsd_container` (inspect.rs:219). -/
def inspectDsdContainer (file : List UInt8) : Except DsdContainerError DsdContainerInfo := do
  let magic ← readFourcc file 0
  if magic = idDsf then inspectDsf file
  else if magic = idFrm8 then inspectDsdiff file
  else .error (.notDsdContainer magic)

end Container
