import Tonepoet.Container.DstWriter
import Tonepoet.Container.Inspect

/-!
# The streaming readers: DSDIFF/DST (dsd_file/reader.rs:801-1345)

The scan reads the headers and the checksums, the payloads are read when they are asked for.
-/

namespace Container

open Rust ByteFile ChunkFile

def idDstf : List UInt8 := fourcc 'D' 'S' 'T' 'F'
def idDstc : List UInt8 := fourcc 'D' 'S' 'T' 'C'
def idDsti : List UInt8 := fourcc 'D' 'S' 'T' 'I'

inductive DstCrcStatus where
  | noCrc
  | presentUnchecked (expected : ℕ)
  | presentPassed (expected actual : ℕ)
  | presentFailed (expected actual : ℕ)
  | malformed (reason : String)
  deriving DecidableEq

def DstCrcStatus.fromOptionalDstc : Option ℕ → DstCrcStatus
  | some expected => .presentUnchecked expected
  | none => .noCrc

/-- `DstCrcStatus::verify`. -/
def DstCrcStatus.verify (dstc : Option ℕ) (decodedInterleavedDsd : List UInt8) : DstCrcStatus :=
  match dstc with
  | some expected =>
    let actual := (dstFrameCrc decodedInterleavedDsd).toNat
    if actual = expected then .presentPassed expected actual else .presentFailed expected actual
  | none => .noCrc

inductive DsdReadError where
  | io (e : IoError)
  | container (e : DsdContainerError)
  | dst (e : Fault Dst.DstError)
  | dstCrc (offset : ℕ) (frameIndex : Option ℕ) (status : DstCrcStatus)
  | unsupportedFormat (reason : String)
  | malformed (offset : ℕ) (reason : String)

instance : FromIo DsdReadError := ⟨.io⟩

/-- `?` on an inspection. -/
def inspected {α : Type} (x : Except DsdContainerError α) : Except DsdReadError α := x.mapError .container

/-- `checked_add` of the readers. -/
def checkedAddAt (lhs rhs : ℕ) (reason : String) : Except DsdReadError ℕ := orError (.malformed lhs reason) (checkedAdd lhs rhs)

/-- `reject_error_diagnostics` (reader.rs:1350). -/
def rejectErrorDiagnostics (diagnostics : List DsdContainerDiagnostic) : Except DsdReadError Unit :=
  match diagnostics.find? fun d => d.severity = .error with
  | some d => .error (.malformed d.offset d.message)
  | none => .ok ()

/-- The start of the scanning loops of this file. -/
def readSubchunkHeader (file : List UInt8) (dataOverflow : String) (payloadOverflow : ℕ → ℕ → DsdReadError) (endOverflow : String)
    (pos : ℕ) : Except DsdReadError (Header pos) := do
  let id ← readFourcc file pos
  let size ← readU64Be file (pos + 4)
  match hdata : checkedAdd pos chunkHeaderSize with
  | none => .error (.malformed pos dataOverflow)
  | some payloadOffset =>
    match checkedAdd payloadOffset size with
    | none => .error (payloadOverflow pos payloadOffset)
    | some payloadEnd =>
      match hnext : paddedChunkEnd payloadOffset size with
      | none => .error (.malformed pos endOverflow)
      | some next => .ok ⟨id, size, payloadEnd, next, lt_paddedChunkEnd hdata hnext⟩

/-- `validate_stream_zero_pad_byte` (reader.rs:1315). -/
def validateStreamZeroPadByte (file : List UInt8) (payloadEnd size enclosingEnd chunkOffset : ℕ) (context : String) :
    Except DsdReadError Unit :=
  if size % 2 = 0 then .ok ()
  else if payloadEnd ≥ enclosingEnd then .error (.malformed chunkOffset s!"odd-sized {context} has no room for required pad byte")
  else do
    let b ← readExact file payloadEnd 1
    let pad := validateZeroPadByte.formatHexByte (b.headD 0)
    ensure (b.headD 0 = 0) (.malformed payloadEnd s!"{context} odd-chunk pad byte is 0x{pad}, expected 0x00")

/-- `checked_chunk_total` of the readers. -/
def chunkTotal (dataLen : ℕ) : Except DsdReadError ℕ :=
  orError (.malformed 0 "DSDIFF chunk total-size overflow")
    ((checkedAdd dataLen (dataLen % 2)).bind fun n => checkedAdd n chunkHeaderSize)

structure DstFrameDescriptor where
  chunkOffset : ℕ
  payloadOffset : ℕ
  payloadSize : ℕ
  physicalChunkSize : ℕ
  dstc : Option ℕ
  deriving DecidableEq

/-- The state of `scan_dsdiff_dst_frames`. -/
structure DstScan where
  descriptors : List DstFrameDescriptor
  pendingDstf : Option DstFrameDescriptor
  sawFrte : Bool

/-- The subchunk belongs to the frames: `FRTE`, `DSTF` or `DSTC`. -/
def visitFrameChunk (file : List UInt8) (pos : ℕ) (chunk : Header pos) (s : DstScan) : Except DsdReadError DstScan :=
  let payloadOffset := pos + chunkHeaderSize
  let size := chunk.size
  if chunk.id = idFrte then do
    ensure (s.descriptors = [] ∧ s.pendingDstf = none) (.malformed pos "FRTE appeared after DST frame data")
    ensure (6 ≤ size) (.malformed pos "FRTE chunk shorter than mandatory 6 bytes")
    return { s with sawFrte := true }
  else if chunk.id = idDstf then do
    ensure (s.sawFrte = true) (.malformed pos "DSTF appeared before FRTE")
    let total ← chunkTotal size
    ensure (total < 2 ^ 32) (.malformed pos s!"DSTF physical size {total} exceeds u32 DSTI field")
    return { s with
      descriptors := s.descriptors ++ s.pendingDstf.toList
      pendingDstf := some ⟨pos, payloadOffset, size, total, none⟩ }
  else if chunk.id = idDstc then do
    let desc ← orError (.malformed pos "DSTC appeared before matching DSTF") s.pendingDstf
    let dstc ← readU32Be file payloadOffset
    return { s with descriptors := s.descriptors ++ [{ desc with dstc := some dstc }], pendingDstf := none }
  else
    let id := fourccLossy chunk.id
    .error (.malformed pos s!"unexpected subchunk {id} inside DSDIFF DST chunk")

/-- One subchunk of `scan_dsdiff_dst_frames`. -/
def visitDstSubchunk (file : List UInt8) (dstPayloadEnd pos : ℕ) (chunk : Header pos) (s : DstScan) :
    Except DsdReadError (Step DstScan) := do
  let id := fourccLossy chunk.id
  let size := chunk.size
  ensure (chunk.payloadEnd ≤ dstPayloadEnd ∧ chunk.next ≤ dstPayloadEnd)
    (.malformed pos s!"DST subchunk {id} exceeds enclosing DST chunk")
  ensure (¬ (chunk.id = idDstc ∧ size ≠ 4))
    (.dstCrc pos (some s.descriptors.length) (.malformed s!"DSTC chunk size is {size}, expected 4"))
  validateStreamZeroPadByte file chunk.payloadEnd size dstPayloadEnd pos "DST subchunk"
  .next <$> visitFrameChunk file pos chunk s

/-- `parse_frte_frame_count` (reader.rs:1199). -/
def parseFrteFrameCount (file : List UInt8) (start stop : ℕ) : Except DsdReadError ℕ := do
  let (count, _) ← scan (readSubchunkHeader file "FRTE payload offset overflow"
      (fun pos _ => .malformed pos "DST subchunk padded end overflow") "DST subchunk padded end overflow") visit stop start none
  orError (.malformed start "DST chunk missing FRTE") count
where
  visit (pos : ℕ) (chunk : Header pos) (_ : Option ℕ) : Except DsdReadError (Step (Option ℕ)) :=
    if chunk.id = idFrte then do
      ensure (6 ≤ chunk.size) (.malformed pos "FRTE chunk shorter than mandatory 6 bytes")
      let count ← readU32Be file (pos + chunkHeaderSize)
      return .stop (some count)
    else return .next none

/-- One entry of the index against the frame it is for. -/
def validateDstiEntry (file : List UInt8) (dataOffset payloadOffset idx : ℕ) (frame : DstFrameDescriptor) : Except DsdReadError Unit := do
  let entry ← orError (.malformed payloadOffset "DSTI entry offset overflow") (checkedMul idx 12)
  let entryOffset ← checkedAddAt payloadOffset entry "DSTI entry offset overflow"
  let offsetInDst ← readU64Be file entryOffset
  let physicalSize ← readU32Be file (entryOffset + 8)
  let actualOffsetInDst ← orError (.malformed frame.chunkOffset "DSTF chunk offset precedes DST payload")
    (checkedSub frame.chunkOffset dataOffset)
  ensure (offsetInDst = actualOffsetInDst)
    (.malformed entryOffset s!"DSTI frame {idx} offset is {offsetInDst}, actual DSTF offset is {actualOffsetInDst}")
  let indexedChunkOffset ← checkedAddAt dataOffset offsetInDst "DSTI absolute DSTF offset overflow"
  let indexedId ← readFourcc file indexedChunkOffset
  let indexedIdText := fourccLossy indexedId
  ensure (indexedId = idDstf) (.malformed indexedChunkOffset s!"DSTI frame {idx} offset lands on {indexedIdText}, expected DSTF")
  let indexedPayloadSize ← readU64Be file (indexedChunkOffset + 4)
  let indexedPhysicalSize ← chunkTotal indexedPayloadSize
  ensure (indexedPhysicalSize = physicalSize) (.malformed (entryOffset + 8)
    s!"DSTI frame {idx} physical size is {physicalSize}, but chunk at indexed offset has physical size {indexedPhysicalSize}")
  let actualSize := frame.physicalChunkSize
  ensure (physicalSize = actualSize)
    (.malformed (entryOffset + 8) s!"DSTI frame {idx} physical size is {physicalSize}, actual DSTF size is {actualSize}")

def validateDstiEntries (file : List UInt8) (dataOffset payloadOffset : ℕ) : ℕ → List DstFrameDescriptor → Except DsdReadError Unit
  | _, [] => .ok ()
  | idx, frame :: frames => do
    validateDstiEntry file dataOffset payloadOffset idx frame
    validateDstiEntries file dataOffset payloadOffset (idx + 1) frames

/-- `validate_dsti_if_present` (reader.rs:1221). -/
def validateDstiIfPresent (file : List UInt8) (info : DsdContainerInfo) (frames : List DstFrameDescriptor) : Except DsdReadError Bool := do
  let dstPayloadEnd ← checkedAddAt info.dataOffset info.dataSize "DST payload end overflow"
  let start ← orError (.malformed info.dataOffset "DST chunk padded end overflow") (paddedChunkEnd info.dataOffset info.dataSize)
  let (found, _) ← scan (readSubchunkHeader file "top-level payload offset overflow"
      (fun _ payloadOffset => .malformed payloadOffset "top-level payload end overflow") "top-level chunk padded end overflow")
    (visit dstPayloadEnd) file.length start false
  return found
where
  visit (dstPayloadEnd pos : ℕ) (chunk : Header pos) (_ : Bool) : Except DsdReadError (Step Bool) := do
    let payloadOffset := pos + chunkHeaderSize
    let size := chunk.size
    ensure (chunk.payloadEnd ≤ file.length ∧ chunk.next ≤ file.length) (.malformed pos "top-level chunk exceeds file length")
    validateStreamZeroPadByte file chunk.payloadEnd size file.length pos "top-level chunk"
    if chunk.id = idDsti then do
      let count := frames.length
      let expected ← orError (.malformed pos "DSTI expected-size overflow") (checkedMul count 12)
      ensure (size = expected) (.malformed pos s!"DSTI size is {size}, expected {expected} for {count} frame(s)")
      validateDstiEntries file info.dataOffset payloadOffset 0 frames
      return .stop true
    else do
      ensure (dstPayloadEnd ≤ chunk.next) (.malformed chunk.next "internal DSTI scan position moved inside DST payload")
      return .next false

structure DstFrameScan where
  frames : List DstFrameDescriptor
  hasDsti : Bool

/-- `scan_dsdiff_dst_frames` (reader.rs:1062). -/
def scanDsdiffDstFrames (file : List UInt8) (info : DsdContainerInfo) : Except DsdReadError DstFrameScan := do
  let dstPayloadStart := info.dataOffset
  let streamLen := file.length
  let dstPayloadEnd ← checkedAddAt dstPayloadStart info.dataSize "DST chunk end overflow"
  ensure (dstPayloadEnd ≤ streamLen)
    (.malformed dstPayloadStart s!"DST chunk ends at {dstPayloadEnd}, beyond file length {streamLen}")
  let (s, pos) ← scan (readSubchunkHeader file "DST subchunk payload offset overflow"
      (fun _ payloadOffset => .malformed payloadOffset "DST subchunk payload end overflow") "DST subchunk padded end overflow")
    (visitDstSubchunk file dstPayloadEnd) dstPayloadEnd dstPayloadStart ⟨[], none, false⟩
  let trailing := dstPayloadEnd - pos
  ensure (pos = dstPayloadEnd) (.malformed pos s!"{trailing} trailing byte(s) inside DST payload after complete subchunks")
  let descriptors := s.descriptors ++ s.pendingDstf.toList
  ensure (s.sawFrte = true) (.malformed dstPayloadStart "DST chunk missing FRTE")
  let declared ← parseFrteFrameCount file dstPayloadStart dstPayloadEnd
  let found := descriptors.length
  ensure (declared = found % 2 ^ 32)
    (.malformed dstPayloadStart s!"FRTE declares {declared} frame(s), but {found} DSTF frame(s) were found")
  let hasDsti ← validateDstiIfPresent file info descriptors
  return ⟨descriptors, hasDsti⟩

structure DstFrame where
  frameIndex : ℕ
  chunkOffset : ℕ
  payloadOffset : ℕ
  encoded : List UInt8
  dstc : Option ℕ
  crcStatus : DstCrcStatus
  physicalChunkSize : ℕ
  sampleRate : ℕ
  channelCount : ℕ
  isFinal : Bool
  deriving DecidableEq

structure DstDsdiffStreamReader where
  reader : List UInt8
  info : DsdContainerInfo
  frames : List DstFrameDescriptor
  hasDsti : Bool
  nextIndex : ℕ

namespace DstDsdiffStreamReader

/-- `DstDsdiffStreamReader::new` (reader.rs:826). -/
def new (file : List UInt8) : Except DsdReadError DstDsdiffStreamReader := do
  let info ← inspected (inspectDsdiff file)
  rejectErrorDiagnostics info.diagnostics
  ensure (info.compression = .dst ∧ info.format = .dsdiff)
    (.unsupportedFormat "DSDIFF/DST reader requires a DST-compressed DSDIFF stream")
  let frameScan ← scanDsdiffDstFrames file info
  return ⟨file, info, frameScan.frames, frameScan.hasDsti, 0⟩

/-- `next_dst_frame` (reader.rs:880). -/
def nextDstFrame (self : DstDsdiffStreamReader) : Except DsdReadError (Option DstFrame × DstDsdiffStreamReader) :=
  match self.frames[self.nextIndex]? with
  | none => .ok (none, self)
  | some desc => do
    let encoded ← readExact self.reader desc.payloadOffset desc.payloadSize
    let nextIndex := self.nextIndex + 1
    return (some {
      frameIndex := self.nextIndex
      chunkOffset := desc.chunkOffset
      payloadOffset := desc.payloadOffset
      encoded
      dstc := desc.dstc
      crcStatus := .fromOptionalDstc desc.dstc
      physicalChunkSize := desc.physicalChunkSize
      sampleRate := self.info.sampleRate
      channelCount := self.info.channelCount
      isFinal := self.frames.length ≤ nextIndex }, { self with nextIndex })

end DstDsdiffStreamReader

/-- The calls of a reader until it has no more: what they return. -/
inductive Yields {ρ α : Type} (next : ρ → Except DsdReadError (Option α × ρ)) : ρ → List α → Prop where
  | done {r r' : ρ} : next r = .ok (none, r') → Yields next r []
  | more {r r' : ρ} {a : α} {as : List α} : next r = .ok (some a, r') → Yields next r' as → Yields next r (a :: as)

end Container
