import Tonepoet.Container.Stream

/-!
# Container inspection (dsd_file/inspect.rs:59-1140)

What a DSF or DSDIFF file says about itself. A structural fault that the header survives is a diagnostic, one
that it does not is an error.
-/

namespace Container

open Rust ByteFile ChunkFile

def idDsf : List UInt8 := fourcc 'D' 'S' 'D' ' '
def idFmt : List UInt8 := fourcc 'f' 'm' 't' ' '
def idData : List UInt8 := fourcc 'd' 'a' 't' 'a'
def idFrm8 : List UInt8 := fourcc 'F' 'R' 'M' '8'
def idFver : List UInt8 := fourcc 'F' 'V' 'E' 'R'
def idProp : List UInt8 := fourcc 'P' 'R' 'O' 'P'
def idSnd : List UInt8 := fourcc 'S' 'N' 'D' ' '
def idFs : List UInt8 := fourcc 'F' 'S' ' ' ' '
def idChnl : List UInt8 := fourcc 'C' 'H' 'N' 'L'
def idCmpr : List UInt8 := fourcc 'C' 'M' 'P' 'R'
def idDst : List UInt8 := fourcc 'D' 'S' 'T' ' '
def idFrte : List UInt8 := fourcc 'F' 'R' 'T' 'E'

def dstFrameRate : ℕ := 75

inductive DsdContainerFormat where
  | dsf
  | dsdiff
  deriving DecidableEq

inductive DsdCompression where
  | dsd
  | dst
  | unknown (code : List UInt8)
  deriving DecidableEq

namespace DsdCompression

def fromDsdiffCode (code : List UInt8) : DsdCompression :=
  if code = idDsf then .dsd else if code = idDst then .dst else .unknown code

def display : DsdCompression → String
  | dsd => "DSD"
  | dst => "DST"
  | unknown code =>
    let code := fourccLossy code
    s!"unknown({code})"

end DsdCompression

inductive DsdByteOrder where
  | lsbFirst
  | msbFirst
  deriving DecidableEq

inductive DsdContainerDiagnosticSeverity where
  | warning
  | error
  deriving DecidableEq

structure DsdContainerDiagnostic where
  severity : DsdContainerDiagnosticSeverity
  offset : ℕ
  message : String
  deriving DecidableEq

namespace DsdContainerDiagnostic

def warning (offset : ℕ) (message : String) : DsdContainerDiagnostic := ⟨.warning, offset, message⟩
def error (offset : ℕ) (message : String) : DsdContainerDiagnostic := ⟨.error, offset, message⟩

end DsdContainerDiagnostic

structure DsdContainerInfo where
  format : DsdContainerFormat
  compression : DsdCompression
  byteOrder : DsdByteOrder
  channelCount : ℕ
  sampleRate : ℕ
  sampleCountPerChannel : Option ℕ
  dataOffset : ℕ
  dataSize : ℕ
  metadataOffset : Option ℕ
  channelIds : List (List UInt8)
  dsfBlockSizePerChannel : Option ℕ
  dsdiffCmprCode : Option (List UInt8)
  dsdiffFrm8Size : Option ℕ
  dsdiffFrm8End : Option ℕ
  diagnostics : List DsdContainerDiagnostic
  deriving DecidableEq

inductive DsdContainerError where
  | io (e : IoError)
  | notDsdContainer (magic : List UInt8)
  | malformed (offset : ℕ) (reason : String)
  deriving DecidableEq

instance : FromIo DsdContainerError := ⟨.io⟩

/-- One diagnostic when the condition fails. -/
def diagnose (condition : Prop) [Decidable condition] (d : DsdContainerDiagnostic) : List DsdContainerDiagnostic :=
  if condition then [] else [d]

/-! ## DSDIFF -/

/-- What the scan of the top-level chunks has found. -/
structure DsdiffScan where
  sampleRate : Option ℕ
  channelCount : Option ℕ
  channelIds : List (List UInt8)
  cmpr : Option (List UInt8)
  dataChunk : Option (List UInt8 × ℕ × ℕ)
  sampleCountPerChannel : Option ℕ
  fverCount : ℕ
  propCount : ℕ
  audioChunkCount : ℕ
  diagnostics : List DsdContainerDiagnostic

namespace DsdiffScan

def init (diagnostics : List DsdContainerDiagnostic) : DsdiffScan := ⟨none, none, [], none, none, none, 0, 0, 0, diagnostics⟩

def push (s : DsdiffScan) (ds : List DsdContainerDiagnostic) : DsdiffScan := { s with diagnostics := s.diagnostics ++ ds }

end DsdiffScan

/-- The start of the three scanning loops: the header at the offset, and where the chunk ends. -/
def readChunkHeader (file : List UInt8) (dataOverflow : String) (endOverflow payloadOverflow : String → String) (pos : ℕ) :
    Except DsdContainerError (Header pos) := do
  let id ← readFourcc file pos
  let size ← readU64Be file (pos + 4)
  match hdata : checkedAdd pos chunkHeaderSize with
  | none => .error (.malformed pos dataOverflow)
  | some dataOffset =>
    match hnext : paddedChunkEnd dataOffset size with
    | none => .error (.malformed (pos + 4) (endOverflow (fourccLossy id)))
    | some next =>
      match checkedAdd dataOffset size with
      | none => .error (.malformed (pos + 4) (payloadOverflow (fourccLossy id)))
      | some payloadEnd => .ok ⟨id, size, payloadEnd, next, lt_paddedChunkEnd hdata hnext⟩

/-- `validate_zero_pad_byte` (inspect.rs:776): the diagnostics it adds. -/
def validateZeroPadByte (file : List UInt8) (payloadEnd size enclosingEnd chunkOffset : ℕ) :
    Except DsdContainerError (List DsdContainerDiagnostic) :=
  if size % 2 = 0 then .ok []
  else if payloadEnd ≥ enclosingEnd then
    .ok [.error chunkOffset "odd-sized DSDIFF chunk has no room for required pad byte"]
  else do
    let b ← readExact file payloadEnd 1
    let pad := formatHexByte (b.headD 0)
    return diagnose (b.headD 0 = 0) (.error payloadEnd s!"DSDIFF odd-chunk pad byte is 0x{pad}, expected 0x00")
where
  /-- `{:02x}`. -/
  formatHexByte (b : UInt8) : String :=
    let digits := Nat.toDigits 16 b.toNat
    String.ofList (List.replicate (2 - digits.length) '0' ++ digits)

/-- The counters of `parse_prop_chunk` and what it fills in. -/
structure PropScan where
  found : DsdiffScan
  fsCount : ℕ
  chnlCount : ℕ
  cmprCount : ℕ

/-- The identifiers of a `CHNL` chunk. -/
def readChannelIds (file : List UInt8) (offset : ℕ) : ℕ → Except DsdContainerError (List (List UInt8))
  | 0 => .ok []
  | n + 1 => do
    let id ← readFourcc file offset
    let ids ← readChannelIds file (offset + 4) n
    return id :: ids

def visitFs (file : List UInt8) (pos dataOffset size : ℕ) (s : PropScan) : Except DsdContainerError PropScan := do
  let found := s.found.push (diagnose (s.fsCount = 0) (.error pos "duplicate PROP/FS chunk"))
  if size ≠ 4 then
    return { s with
      fsCount := s.fsCount + 1
      found := found.push [.error dataOffset s!"FS chunk size is {size}, expected exactly 4"] }
  else do
    let sampleRate ← readU32Be file dataOffset
    return { s with fsCount := s.fsCount + 1, found := { found with sampleRate := some sampleRate } }

def visitChnl (file : List UInt8) (pos dataOffset size : ℕ) (s : PropScan) : Except DsdContainerError PropScan := do
  let found := s.found.push (diagnose (s.chnlCount = 0) (.error pos "duplicate PROP/CHNL chunk"))
  if size < 2 then
    return { s with
      chnlCount := s.chnlCount + 1
      found := found.push [.error dataOffset "CHNL chunk shorter than channel-count field"] }
  else do
    let n ← readU16Be file dataOffset
    let availableIds := (size - 2) / 4
    let channelIds ← readChannelIds file (dataOffset + 2) (min availableIds 65535)
    let expectedSize := 2 + 4 * n
    return { s with
      chnlCount := s.chnlCount + 1
      found := { found with
          channelCount := some n
          channelIds }.push
        (diagnose (availableIds = n) (.error dataOffset s!"CHNL count is {n}, but payload contains {availableIds} channel IDs") ++
          diagnose (size = expectedSize)
            (.error dataOffset s!"CHNL chunk size is {size}, expected exactly {expectedSize} for {n} channel IDs")) }

def visitCmpr (file : List UInt8) (pos dataOffset size : ℕ) (s : PropScan) : Except DsdContainerError PropScan := do
  let found := s.found.push (diagnose (s.cmprCount = 0) (.error pos "duplicate PROP/CMPR chunk"))
  if size < 4 then
    return { s with
      cmprCount := s.cmprCount + 1
      found := found.push [.error dataOffset "CMPR chunk shorter than compression code"] }
  else do
    let code ← readFourcc file dataOffset
    return { s with cmprCount := s.cmprCount + 1, found := { found with cmpr := some code } }

/-- One property chunk of `parse_prop_chunk`. -/
def visitProperty (file : List UInt8) (propEnd pos : ℕ) (chunk : Header pos) (s : PropScan) :
    Except DsdContainerError (Step PropScan) :=
  if chunk.payloadEnd > propEnd then
    let id := fourccLossy chunk.id
    .ok (.stop { s with found := s.found.push [.error (pos + 4) s!"{id} property payload exceeds PROP end"] })
  else do
    let ds ← validateZeroPadByte file chunk.payloadEnd chunk.size propEnd pos
    let s := { s with found := s.found.push ds }
    let dataOffset := pos + chunkHeaderSize
    .next <$>
      if chunk.id = idFs then visitFs file pos dataOffset chunk.size s
      else if chunk.id = idChnl then visitChnl file pos dataOffset chunk.size s
      else if chunk.id = idCmpr then visitCmpr file pos dataOffset chunk.size s
      else .ok s

/-- `parse_prop_chunk` (inspect.rs:646). -/
def parsePropChunk (file : List UInt8) (propOffset propSize : ℕ) (found : DsdiffScan) : Except DsdContainerError DsdiffScan := do
  ensure (4 ≤ propSize) (.malformed propOffset "PROP chunk shorter than property type")
  let propType ← readFourcc file propOffset
  let propTypeText := fourccLossy propType
  let found := found.push
    (diagnose (propType = idSnd) (.error propOffset s!"PROP property type is {propTypeText}, expected SND"))
  let propEnd ← orError (.malformed propOffset "PROP end offset overflow") (checkedAdd propOffset propSize)
  let first ← orError (.malformed propOffset "PROP first subchunk offset overflow") (checkedAdd propOffset 4)
  let (s, pos) ← scan (readChunkHeader file "DSDIFF property data offset overflow"
      (fun id => s!"{id} property chunk end offset overflow") (fun id => s!"{id} property payload end overflow"))
    (visitProperty file propEnd) propEnd first ⟨found, 0, 0, 0⟩
  let trailing := propEnd - pos
  return s.found.push
    (diagnose (pos = propEnd) (.error pos s!"PROP chunk has {trailing} trailing byte(s) after complete property chunks"))

/-- `derive_dst_sample_count_from_frte` (inspect.rs:910). -/
def deriveDstSampleCountFromFrte (frames sampleRate frameRate frtePayloadOffset : ℕ) : Option ℕ × List DsdContainerDiagnostic :=
  if frameRate = 0 then (none, [.error (frtePayloadOffset + 4) "DST FRTE frame rate is zero"])
  else
    let ds := diagnose (sampleRate % frameRate = 0) (.warning (frtePayloadOffset + 4)
      s!"sample rate {sampleRate} is not an integer multiple of DST frame rate {frameRate}")
    let samplesPerFrame := sampleRate / frameRate
    match checkedMul frames samplesPerFrame with
    | some samples => (some samples, ds)
    | none => (none, ds ++ [.error frtePayloadOffset
        s!"DST FRTE sample count overflow: {frames} frame(s) × {samplesPerFrame} samples/frame exceeds u64"])

/-- What `parse_dst_frame_count` returns as soon as it knows. -/
abbrev FrameCount := Option (Option ℕ × List DsdContainerDiagnostic)

/-- One subchunk of `parse_dst_frame_count`. -/
def visitFrameCount (file : List UInt8) (dstEnd : ℕ) (sampleRate : Option ℕ) (pos : ℕ) (chunk : Header pos) (_ : FrameCount) :
    Except DsdContainerError (Step FrameCount) :=
  let id := fourccLossy chunk.id
  let dataOffset := pos + chunkHeaderSize
  if chunk.payloadEnd > dstEnd then
    .ok (.stop (some (none, [.error (pos + 4) s!"DST subchunk {id} exceeds enclosing DST chunk"])))
  else if chunk.id = idFrte then
    if chunk.size < 6 then .ok (.stop (some (none, [.error dataOffset "FRTE chunk shorter than frame-count/rate fields"])))
    else do
      let frames ← readU32Be file dataOffset
      let frameRate ← readU16Be file (dataOffset + 4)
      let ds := diagnose (frameRate = dstFrameRate)
        (.warning (dataOffset + 4) s!"DST FRTE frame rate is {frameRate}, expected {dstFrameRate}")
      match sampleRate with
      | none => .ok (.stop (some (none, ds)))
      | some rate =>
        let (samples, more) := deriveDstSampleCountFromFrte frames rate frameRate dataOffset
        .ok (.stop (some (samples, ds ++ more)))
  else .ok (.next none)

/-- `parse_dst_frame_count` (inspect.rs:951). -/
def parseDstFrameCount (file : List UInt8) (dstOffset dstSize : ℕ) (sampleRate : Option ℕ) :
    Except DsdContainerError (Option ℕ × List DsdContainerDiagnostic) := do
  let dstEnd ← orError (.malformed dstOffset "DST chunk end offset overflow") (checkedAdd dstOffset dstSize)
  let (result, _) ← scan (readChunkHeader file "DST subchunk data offset overflow"
      (fun _ => "DST subchunk end offset overflow") (fun _ => "DST subchunk payload end offset overflow"))
    (visitFrameCount file dstEnd sampleRate) dstEnd dstOffset none
  return result.getD (none, [.warning dstOffset "DST chunk has no FRTE frame-count header"])

def visitFver (file : List UInt8) (pos dataOffset size : ℕ) (s : DsdiffScan) : Except DsdContainerError DsdiffScan := do
  let s := { s with fverCount := s.fverCount + 1 }.push
    (diagnose (s.fverCount = 0) (.error pos "duplicate DSDIFF FVER chunk"))
  if size ≥ 4 then do
    let version ← readU32Be file dataOffset
    let text := formatHexWord version
    return s.push (diagnose (version = 0x01050000) (.warning dataOffset s!"DSDIFF FVER is 0x{text}, expected 0x01050000"))
  else return s.push [.warning dataOffset "FVER chunk shorter than 4 bytes"]
where
  /-- `{:08x}`. -/
  formatHexWord (n : ℕ) : String :=
    let digits := Nat.toDigits 16 n
    String.ofList (List.replicate (8 - digits.length) '0' ++ digits)

def visitAudio (file : List UInt8) (id : List UInt8) (pos dataOffset size : ℕ) (s : DsdiffScan) :
    Except DsdContainerError DsdiffScan := do
  let s := { s with audioChunkCount := s.audioChunkCount + 1, dataChunk := some (id, dataOffset, size) }.push
    (diagnose (s.audioChunkCount = 0) (.error pos "multiple DSDIFF audio data chunks"))
  if id = idDst then do
    let (samples, ds) ← parseDstFrameCount file dataOffset size s.sampleRate
    return { s with sampleCountPerChannel := samples }.push ds
  else return s

/-- One top-level chunk of `inspect_dsdiff`. -/
def visitTopLevel (file : List UInt8) (scanEnd pos : ℕ) (chunk : Header pos) (s : DsdiffScan) :
    Except DsdContainerError (Step DsdiffScan) :=
  if chunk.payloadEnd > scanEnd then
    let id := fourccLossy chunk.id
    let payloadEnd := chunk.payloadEnd
    .ok (.stop (s.push [.error (pos + 4) s!"{id} chunk payload ends at {payloadEnd}, beyond FRM8/file end {scanEnd}"]))
  else do
    let ds ← validateZeroPadByte file chunk.payloadEnd chunk.size scanEnd pos
    let s := s.push ds
    let dataOffset := pos + chunkHeaderSize
    .next <$>
      if chunk.id = idFver then visitFver file pos dataOffset chunk.size s
      else if chunk.id = idProp then
        parsePropChunk file dataOffset chunk.size ({ s with propCount := s.propCount + 1 }.push
          (diagnose (s.propCount = 0) (.error pos "duplicate DSDIFF PROP chunk")))
      else if chunk.id = idDsf ∨ chunk.id = idDst then visitAudio file chunk.id pos dataOffset chunk.size s
      else .ok s

/-- `generic_channel_id` (inspect.rs:901). -/
def genericChannelId (index : ℕ) : List UInt8 :=
  [67, UInt8.ofNat (48 + index / 100 % 10), UInt8.ofNat (48 + index / 10 % 10), UInt8.ofNat (48 + index % 10)]

def stereoIds : List (List UInt8) := [fourcc 'S' 'L' 'F' 'T', fourcc 'S' 'R' 'G' 'T']

def fiveIds : List (List UInt8) :=
  [fourcc 'M' 'L' 'F' 'T', fourcc 'M' 'R' 'G' 'T', fourcc 'C' ' ' ' ' ' ', fourcc 'L' 'S' ' ' ' ', fourcc 'R' 'S' ' ' ' ']

def sixIds : List (List UInt8) :=
  [fourcc 'M' 'L' 'F' 'T', fourcc 'M' 'R' 'G' 'T', fourcc 'C' ' ' ' ' ' ', fourcc 'L' 'F' 'E' ' ', fourcc 'L' 'S' ' ' ' ',
    fourcc 'R' 'S' ' ' ' ']

/-- The identifiers a layout is known to have. -/
def standardIds (channelCount : ℕ) : Option (List (List UInt8)) :=
  if channelCount = 2 then some stereoIds
  else if channelCount = 5 then some fiveIds
  else if channelCount = 6 then some sixIds
  else none

def channelIdBytesDiagnostics (index : ℕ) (id : List UInt8) : List DsdContainerDiagnostic :=
  let text := debugBytes id
  diagnose (¬ id.all (· == 0)) (.error 0 s!"CHNL channel ID {index} is all NUL bytes") ++
    diagnose (id.all fun b => 0x20 ≤ b && b ≤ 0x7e)
      (.error 0 s!"CHNL channel ID {index} contains non-printable bytes: {text}")

def duplicateIdDiagnostics (ids : List (List UInt8)) : List DsdContainerDiagnostic :=
  (List.range ids.length).flatMap fun i => (List.range' (i + 1) (ids.length - (i + 1))).flatMap fun j =>
    let text := fourccLossy (ids.getD i [])
    diagnose (ids.getD i [] ≠ ids.getD j []) (.error 0 s!"CHNL channel IDs {i} and {j} are both {text}")

def genericIdDiagnostics (index : ℕ) (id : List UInt8) : List DsdContainerDiagnostic :=
  let text := fourccLossy id
  let expected := fourccLossy (genericChannelId index)
  diagnose (id = genericChannelId index) (.error 0 s!"generic CHNL ID {index} is {text}, expected {expected}")

/-- `validate_dsdiff_channel_ids` (inspect.rs:811). -/
def validateDsdiffChannelIds (channelCount : ℕ) (channelIds : List (List UInt8)) : List DsdContainerDiagnostic :=
  let parsed := channelIds.length
  if channelCount = 0 then [.error 0 "CHNL channel count is zero"]
  else if parsed ≠ channelCount then
    [.error 0 s!"CHNL advertised {channelCount} channels but {parsed} channel IDs were parsed"]
  else
    (channelIds.zipIdx.flatMap fun (id, index) => channelIdBytesDiagnostics index id) ++ duplicateIdDiagnostics channelIds ++
      match standardIds channelCount with
      | some expected =>
        let text := debugIds channelIds
        let expectedText := debugIds expected
        diagnose (channelIds = expected) (.error 0 s!"CHNL IDs for {channelCount} channels are {text}, expected {expectedText}")
      | none =>
        if channelCount > 1000 then [.error 0 s!"generic CHNL validation supports at most 1000 channels, got {channelCount}"]
        else channelIds.zipIdx.flatMap fun (id, index) => genericIdDiagnostics index id

/-- What the file's length says about `FRM8`. -/
def frm8Diagnostics (frm8End fileLen : ℕ) : List DsdContainerDiagnostic :=
  let trailing := fileLen - frm8End
  if frm8End > fileLen then [.error 4 s!"FRM8 declares end {frm8End}, beyond file length {fileLen}"]
  else diagnose (frm8End = fileLen) (.error 4 s!"{trailing} byte(s) trail after declared FRM8 end")

/-- What `CMPR` says about the data chunk. -/
def cmprDiagnostics (dataCompression : DsdCompression) : Option (List UInt8) → List DsdContainerDiagnostic
  | some code =>
    let compression := DsdCompression.fromDsdiffCode code
    let text := compression.display
    let dataText := dataCompression.display
    let codeText := fourccLossy code
    diagnose (compression = dataCompression) (.error 0 s!"CMPR declares {text}, but data chunk is {dataText}") ++
      diagnose (compression ≠ .unknown code) (.error 0 s!"unrecognized DSDIFF compression code {codeText}")
  | none => [.error 0 "DSDIFF PROP/CMPR compression code missing"]

/-- The sample count of an uncompressed file follows from the size of its data. -/
def dsdSampleCount (channelCount dataOffset dataSize : ℕ) (declared : Option ℕ) : Option ℕ × List DsdContainerDiagnostic :=
  if channelCount = 0 then (declared, [.error dataOffset "DSDIFF/DSD channel count is zero"])
  else if dataSize % channelCount ≠ 0 then
    (declared, [.error dataOffset s!"DSDIFF/DSD payload size {dataSize} is not divisible by channel count {channelCount}"])
  else
    let bytesPerChannel := dataSize / channelCount
    match checkedMul bytesPerChannel 8 with
    | some samples => (some samples, [])
    | none => (declared, [.error dataOffset
        s!"DSDIFF/DSD sample-count derivation overflow: {bytesPerChannel} bytes/channel × 8"])

/-- `inspect_dsdiff` (inspect.rs:441). -/
def inspectDsdiff (file : List UInt8) : Except DsdContainerError DsdContainerInfo := do
  let frm8Id ← readFourcc file 0
  let frm8IdText := fourccLossy frm8Id
  ensure (frm8Id = idFrm8) (.malformed 0 s!"expected DSDIFF FRM8 chunk, got {frm8IdText}")
  let frm8Size ← readU64Be file 4
  ensure (4 ≤ frm8Size) (.malformed 4 s!"FRM8 chunk size is {frm8Size}, but must include the 4-byte form type")
  let formType ← readFourcc file 12
  let formTypeText := fourccLossy formType
  ensure (formType = idDsf) (.malformed 12 s!"expected DSDIFF form type 'DSD ', got {formTypeText}")
  let frm8End ← orError (.malformed 4 "FRM8 end offset overflow") (checkedAdd 12 frm8Size)
  let scanEnd := min frm8End file.length
  let (s, pos) ← scan (readChunkHeader file "DSDIFF chunk data offset overflow"
      (fun id => s!"{id} chunk end offset overflow") (fun id => s!"{id} chunk payload end overflow"))
    (visitTopLevel file scanEnd) scanEnd 16 (.init (frm8Diagnostics frm8End file.length))
  let trailing := scanEnd - pos
  let s := s.push
    (diagnose (pos = scanEnd) (.error pos s!"FRM8 has {trailing} trailing byte(s) after complete top-level chunks"))
  let channelCount ← orError (.malformed 0 "DSDIFF PROP/CHNL channel count missing") s.channelCount
  let sampleRate ← orError (.malformed 0 "DSDIFF PROP/FS sample rate missing") s.sampleRate
  let (dataId, dataOffset, dataSize) ← orError (.malformed 0 "DSDIFF DSD/DST data chunk missing") s.dataChunk
  let compression := DsdCompression.fromDsdiffCode dataId
  let (sampleCountPerChannel, sampleDiagnostics) :=
    if compression = .dsd then dsdSampleCount channelCount dataOffset dataSize s.sampleCountPerChannel
    else (s.sampleCountPerChannel, [])
  return {
    format := .dsdiff
    compression
    byteOrder := .msbFirst
    channelCount
    sampleRate
    sampleCountPerChannel
    dataOffset
    dataSize
    metadataOffset := none
    channelIds := s.channelIds
    dsfBlockSizePerChannel := none
    dsdiffCmprCode := s.cmpr
    dsdiffFrm8Size := some frm8Size
    dsdiffFrm8End := some frm8End
    diagnostics := s.diagnostics ++ cmprDiagnostics compression s.cmpr ++ sampleDiagnostics ++
      validateDsdiffChannelIds channelCount s.channelIds ++ diagnose (sampleRate ≠ 0) (.error 0 "DSDIFF sample rate is zero") }

end Container
