import Tonepoet.Library.ByteFile
import Tonepoet.Rust

/-!
# The Wave64 validator (tonepoet-pipeline w64.rs:11-733)

A file is its bytes; `seek` and `read_exact` are a read at an offset. Numbers read from the file are natural numbers
below the bound of their width, an expectation has the widths of the source.
-/

namespace Wave64

open Rust ByteFile

/-- `b"...."` of a GUID: its first four characters, and the rest. -/
def guid (a b c d : Char) (rest : List UInt8) : List UInt8 := ([a, b, c, d].map fun x => UInt8.ofNat x.toNat) ++ rest

def waveTail : List UInt8 := [0xf3, 0xac, 0xd3, 0x11, 0x8c, 0xd1, 0x00, 0xc0, 0x4f, 0x8e, 0xdb, 0x8a]

def w64RiffGuid : List UInt8 := guid 'r' 'i' 'f' 'f' [0x2e, 0x91, 0xcf, 0x11, 0xa5, 0xd6, 0x28, 0xdb, 0x04, 0xc1, 0x00, 0x00]
def w64WaveGuid : List UInt8 := guid 'w' 'a' 'v' 'e' waveTail
def w64FmtGuid : List UInt8 := guid 'f' 'm' 't' ' ' waveTail
def w64FactGuid : List UInt8 := guid 'f' 'a' 'c' 't' waveTail
def w64DataGuid : List UInt8 := guid 'd' 'a' 't' 'a' waveTail
def ksTail : List UInt8 := [0x00, 0x00, 0x00, 0x00, 0x00, 0x10, 0x00, 0x80, 0x00, 0x00, 0xaa, 0x00, 0x38, 0x9b, 0x71]
def ksdataformatSubtypePcm : List UInt8 := 0x01 :: ksTail
def ksdataformatSubtypeIeeeFloat : List UInt8 := 0x03 :: ksTail
def rootHeaderBytes : ℕ := 40
def chunkHeaderBytes : ℕ := 24

inductive W64SampleEncoding where
  | signedInteger
  | floatingPoint
  deriving DecidableEq, Repr

def W64SampleEncoding.key : W64SampleEncoding → String
  | .signedInteger => "signed_integer"
  | .floatingPoint => "floating_point"

structure W64PcmFormatExpectation where
  sampleRateHz : UInt32
  channels : UInt16
  bitsPerSample : UInt16
  encoding : W64SampleEncoding
  deriving DecidableEq, Repr

structure W64PcmExpectation extends W64PcmFormatExpectation where
  sampleFrames : UInt64
  deriving DecidableEq, Repr

structure W64ExactStructure where
  physicalFileBytes : ℕ
  declaredFileBytes : ℕ
  chunkCount : ℕ
  formatChunkOffset : ℕ
  factChunkOffset : Option ℕ
  dataChunkOffset : ℕ
  declaredDataBytes : ℕ
  sampleFrames : ℕ
  alignmentPaddingBytes : ℕ
  deriving DecidableEq, Repr

def W64ExactStructure.dataPayloadOffset (self : W64ExactStructure) : ℕ := self.dataChunkOffset + chunkHeaderBytes

inductive W64ValidationError where
  /-- A read beyond the end. -/
  | io
  | invalid (message : String)
  deriving DecidableEq, Repr

structure ParsedFormat where
  encoding : W64SampleEncoding
  channels : ℕ
  sampleRateHz : ℕ
  byteRate : ℕ
  blockAlign : ℕ
  bitsPerSample : ℕ
  validBitsPerSample : ℕ
  channelMask : Option ℕ
  deriving DecidableEq, Repr

/-- A guard: without the condition the validator returns the message. -/
def require (condition : Prop) [Decidable condition] (message : String) : Except W64ValidationError Unit :=
  if condition then .ok () else .error (.invalid message)

/-- `ok_or_else(|| invalid(message))?`. -/
def orInvalid {α : Type} (message : String) : Option α → Except W64ValidationError α
  | some a => .ok a
  | none => .error (.invalid message)

def readExactAt (file : List UInt8) (offset n : ℕ) : Except W64ValidationError (List UInt8) :=
  match readAt file offset n with
  | some bytes => .ok bytes
  | none => .error .io

def allZero (bytes : List UInt8) : Bool := bytes.all fun byte => byte == 0

/-- `range_is_all_zero` (w64.rs:178), which reads its buffer over and over. -/
def rangeIsAllZero (file : List UInt8) (offset length : ℕ) : Except W64ValidationError Bool := allZero <$> readExactAt file offset length

def checkedAdd (left right : ℕ) (description : String) : Except W64ValidationError ℕ :=
  orInvalid s!"{description} overflowed u64" (Rust.checkedAdd left right)

def alignUp8 (value : ℕ) : Except W64ValidationError ℕ := (fun n => n / 8 * 8) <$> checkedAdd value 7 "8-byte alignment"

/-- `count_ones` of a `u32`. -/
def countOnes (n : ℕ) : ℕ := (List.range 32).countP n.testBit

/-- `{:0width$x}`. -/
def lowerHex (width n : ℕ) : String :=
  let digits := Nat.toDigits 16 n
  String.ofList (List.replicate (width - digits.length) '0' ++ digits)

/-- The number in a field of `bytes`. -/
def field (bytes : List UInt8) (offset width : ℕ) : ℕ := ofLe ((bytes.drop offset).take width)

/-! ## The format chunk -/

/-- The extension of a format (w64.rs:256-300): its encoding, valid bits and channel mask. -/
def parseExtensible (bytes : List UInt8) (payloadBytes channels bitsPerSample : ℕ) :
    Except W64ValidationError (W64SampleEncoding × ℕ × Option ℕ) := do
  require (payloadBytes = 40 ∧ 40 ≤ bytes.length) s!"WAVEFORMATEXTENSIBLE payload is {payloadBytes} bytes; exactly 40 are required"
  let extensionBytes := field bytes 16 2
  require (extensionBytes = 22) s!"WAVEFORMATEXTENSIBLE cbSize is {extensionBytes}; exactly 22 are required"
  let validBitsPerSample := field bytes 18 2
  require (validBitsPerSample ≠ 0 ∧ validBitsPerSample ≤ bitsPerSample)
    s!"WAVEFORMATEXTENSIBLE valid bits are {validBitsPerSample}, incompatible with {bitsPerSample} stored bits"
  let channelMask := field bytes 20 4
  let speakers := countOnes channelMask
  let mask := lowerHex 8 channelMask
  require (channelMask = 0 ∨ speakers = channels) s!"WAVEFORMATEXTENSIBLE channel mask 0x{mask} has {speakers} speakers for {channels} channels"
  let subformat := (bytes.drop 24).take 16
  if subformat = ksdataformatSubtypePcm then return (.signedInteger, validBitsPerSample, some channelMask)
  else if subformat = ksdataformatSubtypeIeeeFloat then return (.floatingPoint, validBitsPerSample, some channelMask)
  else
    let shown := String.intercalate ", " (subformat.map fun b => lowerHex 2 b.toNat)
    .error (.invalid ("unsupported WAVEFORMATEXTENSIBLE subformat GUID [" ++ shown ++ "]"))

/-- The encoding, valid bits and channel mask, by the format tag (w64.rs:244-306). -/
def parseEncoding (bytes : List UInt8) (payloadBytes formatTag channels bitsPerSample : ℕ) :
    Except W64ValidationError (W64SampleEncoding × ℕ × Option ℕ) :=
  if formatTag = 0x0001 then do
    require (payloadBytes = 16) s!"PCM format chunk payload is {payloadBytes} bytes; exactly 16 are required"
    return (.signedInteger, bitsPerSample, none)
  else if formatTag = 0x0003 then do
    require (payloadBytes = 16) s!"IEEE-float format chunk payload is {payloadBytes} bytes; exactly 16 are required"
    return (.floatingPoint, bitsPerSample, none)
  else if formatTag = 0xfffe then parseExtensible bytes payloadBytes channels bitsPerSample
  else
    let tag := lowerHex 4 formatTag
    .error (.invalid s!"unsupported WAVE format tag 0x{tag}")

/-- What the fields of a format chunk say, of at most its first 40 bytes. -/
def parseFormatBytes (bytes : List UInt8) (payloadBytes : ℕ) : Except W64ValidationError ParsedFormat := do
  let channels := field bytes 2 2
  let bitsPerSample := field bytes 14 2
  let (encoding, validBitsPerSample, channelMask) ← parseEncoding bytes payloadBytes (field bytes 0 2) channels bitsPerSample
  return ⟨encoding, channels, field bytes 4 4, field bytes 8 4, field bytes 12 2, bitsPerSample, validBitsPerSample, channelMask⟩

/-- `parse_format` (w64.rs:223). -/
def parseFormat (file : List UInt8) (payloadOffset payloadBytes : ℕ) : Except W64ValidationError ParsedFormat := do
  require (16 ≤ payloadBytes) s!"format chunk payload is {payloadBytes} bytes; at least 16 are required"
  let bytes ← readExactAt file payloadOffset (min payloadBytes 40)
  parseFormatBytes bytes payloadBytes

/-! ## The traversal -/

/-- The chunks seen so far, with their offsets. -/
structure Seen where
  chunkCount : ℕ
  format : Option (ℕ × ParsedFormat)
  fact : Option (ℕ × ℕ)
  data : Option (ℕ × ℕ)
  deriving DecidableEq

structure Traversal where
  offset : ℕ
  seen : Seen
  alignmentPaddingBytes : ℕ
  deriving DecidableEq

/-- The chunk at the offset, by its GUID (w64.rs:428-452). -/
def noteChunk (file : List UInt8) (seen : Seen) (offset : ℕ) (guid : List UInt8) (payloadOffset payloadBytes : ℕ) :
    Except W64ValidationError Seen := do
  require (seen.chunkCount + 1 < 2 ^ 32) "chunk count overflow"
  let seen := { seen with chunkCount := seen.chunkCount + 1 }
  if guid = w64FmtGuid then do
    require (seen.format = none) "duplicate format chunk"
    let format ← parseFormat file payloadOffset payloadBytes
    pure { seen with format := some (offset, format) }
  else if guid = w64FactGuid then do
    require (seen.fact = none) "duplicate fact chunk"
    require (payloadBytes = 8) s!"fact chunk payload is {payloadBytes} bytes; exactly 8 are required"
    let frames ← readExactAt file payloadOffset 8
    pure { seen with fact := some (offset, ofLe frames) }
  else if guid = w64DataGuid then do
    require (seen.data = none) "duplicate data chunk"
    pure { seen with data := some (offset, payloadBytes) }
  else pure seen

/-- The zero bytes up to the next chunk (w64.rs:489-515). -/
def skipPadding (file : List UInt8) (declaredFileBytes offset chunkEnd alignmentPaddingBytes : ℕ) : Except W64ValidationError (ℕ × ℕ) := do
  let nextOffset ← alignUp8 chunkEnd
  require (nextOffset ≤ declaredFileBytes) s!"alignment after chunk at offset {offset} extends beyond the declared file"
  let paddingBytes := nextOffset - chunkEnd
  let padding ← readExactAt file chunkEnd paddingBytes
  require (allZero padding = true) s!"non-zero alignment padding follows chunk at offset {offset}"
  let alignmentPaddingBytes ← checkedAdd alignmentPaddingBytes paddingBytes "alignment padding total"
  return (nextOffset, alignmentPaddingBytes)

inductive Flow where
  | done (t : Traversal)
  | again (t : Traversal)

/-- Whether the rest behind a chunk is the zero run that SSRC leaves after its data (w64.rs:475-487). -/
def ssrcTail (file : List UInt8) (allowSsrcFinalTrailingZeroPadding : Bool) (guid : List UInt8) (chunkEnd trailingBytes : ℕ) :
    Except W64ValidationError Bool :=
  if allowSsrcFinalTrailingZeroPadding = true ∧ guid = w64DataGuid then rangeIsAllZero file chunkEnd trailingBytes else .ok false

/-- What follows a chunk: the end, the tail that SSRC leaves, or the next chunk. -/
def afterChunk (file : List UInt8) (declaredFileBytes : ℕ) (allowSsrcFinalTrailingZeroPadding : Bool) (guid : List UInt8)
    (t : Traversal) (seen : Seen) (chunkEnd : ℕ) : Except W64ValidationError Flow := do
  if chunkEnd = declaredFileBytes then return .done ⟨chunkEnd, seen, t.alignmentPaddingBytes⟩
  else
    let trailingBytes := declaredFileBytes - chunkEnd
    let isTail ← ssrcTail file allowSsrcFinalTrailingZeroPadding guid chunkEnd trailingBytes
    if isTail then
      let alignmentPaddingBytes ← checkedAdd t.alignmentPaddingBytes trailingBytes "alignment padding total"
      return .done ⟨declaredFileBytes, seen, alignmentPaddingBytes⟩
    else
      let (nextOffset, alignmentPaddingBytes) ← skipPadding file declaredFileBytes t.offset chunkEnd t.alignmentPaddingBytes
      return .again ⟨nextOffset, seen, alignmentPaddingBytes⟩

/-- The loop body of `validate_exact_w64_pcm_inner` (w64.rs:398-516). -/
def traverseChunk (file : List UInt8) (declaredFileBytes : ℕ) (allowSsrcFinalTrailingZeroPadding : Bool) (t : Traversal) :
    Except W64ValidationError Flow := do
  let offset := t.offset
  require (offset % 8 = 0) s!"chunk begins at unaligned offset {offset}"
  let remaining := declaredFileBytes - offset
  require (chunkHeaderBytes ≤ remaining) s!"{remaining} undeclared/truncated bytes remain at offset {offset}"
  let header ← readExactAt file offset chunkHeaderBytes
  let guid := header.take 16
  let declaredChunkBytes := field header 16 8
  require (chunkHeaderBytes ≤ declaredChunkBytes)
    s!"chunk at offset {offset} declares {declaredChunkBytes} bytes; at least {chunkHeaderBytes} are required"
  let chunkEnd ← checkedAdd offset declaredChunkBytes "chunk extent"
  require (chunkEnd ≤ declaredFileBytes)
    s!"chunk at offset {offset} ends at {chunkEnd}, beyond declared/physical extent {declaredFileBytes}"
  let payloadOffset ← checkedAdd offset chunkHeaderBytes "chunk payload offset"
  let seen ← noteChunk file t.seen offset guid payloadOffset (declaredChunkBytes - chunkHeaderBytes)
  afterChunk file declaredFileBytes allowSsrcFinalTrailingZeroPadding guid t seen chunkEnd

/-! ## What a step that succeeds has checked -/

section
variable {α : Type} {r : α}

theorem require_bind_eq_ok {c : Prop} [Decidable c] {message : String} {f : Unit → Except W64ValidationError α} :
    (require c message >>= f) = .ok r ↔ c ∧ f () = .ok r := by
  rw [require]
  split <;> rename_i h
  · exact ⟨fun hf => ⟨h, hf⟩, fun hf => hf.2⟩
  · exact ⟨nofun, fun hf => absurd hf.1 h⟩

theorem checkedAdd_bind_eq_ok {a b : ℕ} {message : String} {f : ℕ → Except W64ValidationError α} :
    (checkedAdd a b message >>= f) = .ok r ↔ a + b ≤ usizeMax ∧ f (a + b) = .ok r := by
  rw [checkedAdd, Rust.checkedAdd]
  split <;> rename_i h
  · exact ⟨fun hf => ⟨h, hf⟩, fun hf => hf.2⟩
  · refine ⟨fun hf => ?_, fun hf => absurd hf.1 h⟩
    cases hf

theorem alignUp8_bind_eq_ok {a : ℕ} {f : ℕ → Except W64ValidationError α} :
    (alignUp8 a >>= f) = .ok r ↔ a + 7 ≤ usizeMax ∧ f ((a + 7) / 8 * 8) = .ok r := by
  rw [alignUp8, checkedAdd, Rust.checkedAdd]
  split <;> rename_i h
  · exact ⟨fun hf => ⟨h, hf⟩, fun hf => hf.2⟩
  · refine ⟨fun hf => ?_, fun hf => absurd hf.1 h⟩
    cases hf

theorem readExactAt_bind_eq_ok {file : List UInt8} {offset n : ℕ} {f : List UInt8 → Except W64ValidationError α} :
    (readExactAt file offset n >>= f) = .ok r ↔ offset + n ≤ file.length ∧ f ((file.drop offset).take n) = .ok r := by
  rw [readExactAt, readAt]
  split <;> rename_i h
  · split at h <;> rename_i hle
    · cases h
      exact ⟨fun hf => ⟨hle, hf⟩, fun hf => hf.2⟩
    · cases h
  · split at h <;> rename_i hle
    · cases h
    · refine ⟨fun hf => ?_, fun hf => absurd hf.1 hle⟩
      cases hf

theorem orInvalid_bind_eq_ok {β : Type} {message : String} {a : Option β} {f : β → Except W64ValidationError α} :
    (orInvalid message a >>= f) = .ok r ↔ ∃ b, a = some b ∧ f b = .ok r := by
  cases a with
  | none => exact ⟨nofun, nofun⟩
  | some b =>
    constructor
    · intro hf
      exact ⟨b, rfl, hf⟩
    · rintro ⟨_, ⟨⟩, hf⟩
      exact hf

end

variable {file : List UInt8} {declared : ℕ} {ssrc : Bool} {t t' : Traversal}

theorem skipPadding_eq_ok {offset chunkEnd padding next padding' : ℕ} :
    skipPadding file declared offset chunkEnd padding = .ok (next, padding') ↔
      chunkEnd + 7 ≤ usizeMax ∧ next = (chunkEnd + 7) / 8 * 8 ∧ next ≤ declared ∧ chunkEnd + (next - chunkEnd) ≤ file.length ∧
        allZero ((file.drop chunkEnd).take (next - chunkEnd)) = true ∧ padding + (next - chunkEnd) ≤ usizeMax ∧
          padding' = padding + (next - chunkEnd) := by
  rw [skipPadding, alignUp8_bind_eq_ok, require_bind_eq_ok, readExactAt_bind_eq_ok, require_bind_eq_ok, checkedAdd_bind_eq_ok]
  constructor
  · rintro ⟨hmax, hle, hread, hzero, hpadding, ⟨⟩⟩
    exact ⟨hmax, rfl, hle, hread, hzero, hpadding, rfl⟩
  · rintro ⟨hmax, rfl, hle, hread, hzero, hpadding, rfl⟩
    exact ⟨hmax, hle, hread, hzero, hpadding, rfl⟩

/-- Every pass that goes on has gone over a chunk header. -/
theorem traverseChunk_offset_lt (h : traverseChunk file declared ssrc t = .ok (.again t')) : t.offset < t'.offset := by
  simp only [traverseChunk, require_bind_eq_ok, readExactAt_bind_eq_ok, checkedAdd_bind_eq_ok] at h
  obtain ⟨-, -, -, hsize, -, -, -, h⟩ := h
  obtain ⟨seen, -, h⟩ := bind_eq_ok.1 h
  simp only [afterChunk] at h
  split at h
  · cases h
  obtain ⟨isTail, -, h⟩ := bind_eq_ok.1 h
  split at h
  · rw [checkedAdd_bind_eq_ok] at h
    cases h.2
  · obtain ⟨⟨next, padding⟩, hskip, h⟩ := bind_eq_ok.1 h
    cases h
    obtain ⟨-, rfl, -⟩ := skipPadding_eq_ok.1 hskip
    have hsize : 24 ≤ field ((file.drop t.offset).take chunkHeaderBytes) 16 8 := hsize
    change t.offset < (t.offset + field ((file.drop t.offset).take chunkHeaderBytes) 16 8 + 7) / 8 * 8
    omega

/-- The loop of `validate_exact_w64_pcm_inner`. -/
def traverse (file : List UInt8) (declaredFileBytes : ℕ) (allowSsrcFinalTrailingZeroPadding : Bool) (t : Traversal) :
    Except W64ValidationError Traversal :=
  if t.offset < declaredFileBytes then
    match _h : traverseChunk file declaredFileBytes allowSsrcFinalTrailingZeroPadding t with
    | .error e => .error e
    | .ok (.done t') => .ok t'
    | .ok (.again t') => traverse file declaredFileBytes allowSsrcFinalTrailingZeroPadding t'
  else .ok t
termination_by declaredFileBytes - t.offset
decreasing_by
  have hlt := traverseChunk_offset_lt _h
  omega

/-! ## The contract -/

/-- The widths that an expectation may have (w64.rs:333-360). -/
def supportedWidth : W64SampleEncoding → UInt16 → Bool
  | .signedInteger, bits => bits == 8 || bits == 16 || bits == 24 || bits == 32
  | .floatingPoint, bits => bits == 32 || bits == 64

/-- The guards on the expectation (w64.rs:333-360, 381-397): its block alignment and byte rate. -/
def expectedRates (expected : W64PcmFormatExpectation) : Except W64ValidationError (ℕ × ℕ) := do
  let bits := expected.bitsPerSample.toNat
  let bytesPerSample := (bits + 7) / 8
  require (bytesPerSample ≠ 0 ∧ bits % 8 = 0) s!"expected bits per sample {bits} is not a supported whole-byte PCM width"
  let blockAlign := expected.channels.toNat * bytesPerSample
  require (blockAlign < 2 ^ 16) "expected block alignment exceeds u16"
  let byteRate := expected.sampleRateHz.toNat * blockAlign
  require (byteRate < 2 ^ 32) "expected byte rate exceeds u32"
  return (blockAlign, byteRate)

def checkExpectation (expected : W64PcmFormatExpectation) : Except W64ValidationError Unit := do
  require (expected.sampleRateHz ≠ 0) "expected sample rate must be non-zero"
  require (expected.channels ≠ 0) "expected channel count must be non-zero"
  let bits := expected.bitsPerSample.toNat
  match expected.encoding with
  | .signedInteger => require (supportedWidth .signedInteger expected.bitsPerSample = true) s!"unsupported signed-integer PCM width {bits}"
  | .floatingPoint => require (supportedWidth .floatingPoint expected.bitsPerSample = true) s!"unsupported floating-point PCM width {bits}"

/-- The root header (w64.rs:362-379). -/
def checkRoot (file : List UInt8) : Except W64ValidationError Unit := do
  let physicalFileBytes := file.length
  require (rootHeaderBytes ≤ physicalFileBytes) s!"physical file is {physicalFileBytes} bytes; root header requires {rootHeaderBytes}"
  let root ← readExactAt file 0 rootHeaderBytes
  require (root.take 16 = w64RiffGuid) "root RIFF GUID is not Wave64 RIFF"
  let declaredFileBytes := field root 16 8
  require ((root.drop 24).take 16 = w64WaveGuid) "root form GUID is not Wave64 WAVE"
  require (declaredFileBytes = physicalFileBytes)
    s!"root declares {declaredFileBytes} bytes but the physical file contains {physicalFileBytes} bytes"

/-- The format against the expectation (w64.rs:528-582). -/
def checkFormat (format : ParsedFormat) (expected : W64PcmFormatExpectation) (blockAlign byteRate : ℕ) : Except W64ValidationError Unit := do
  let found := format.encoding.key
  let wanted := expected.encoding.key
  require (format.encoding = expected.encoding) s!"encoding is {found}, expected {wanted}"
  let found := format.channels
  let channels := expected.channels.toNat
  require (found = channels) s!"channel count is {found}, expected {channels}"
  let found := format.sampleRateHz
  let wanted := expected.sampleRateHz.toNat
  require (found = wanted) s!"sample rate is {found}, expected {wanted}"
  let found := format.bitsPerSample
  let bits := expected.bitsPerSample.toNat
  require (found = bits) s!"bits per sample is {found}, expected {bits}"
  let found := format.validBitsPerSample
  require (found = bits) s!"valid bits per sample is {found}, expected exact {bits}"
  let mask := lowerHex 8 (format.channelMask.getD 0)
  require (∀ channelMask ∈ format.channelMask, channelMask = 0 ∨ countOnes channelMask = channels)
    s!"channel mask 0x{mask} disagrees with {channels} channels"
  let found := format.blockAlign
  require (found = blockAlign) s!"block alignment is {found}, expected {blockAlign}"
  let found := format.byteRate
  require (found = byteRate) s!"byte rate is {found}, expected {byteRate}"

/-- The sample frames of the data chunk (w64.rs:583-613). -/
def checkFrames (declaredDataBytes blockAlign : ℕ) (expectedSampleFrames : Option ℕ) (allowFinalAlignmentPadding : Bool) :
    Except W64ValidationError ℕ := do
  let expectedDataBytes := expectedSampleFrames.getD 0 * blockAlign
  require (∀ frames ∈ expectedSampleFrames, frames * blockAlign ≤ usizeMax) "expected data extent overflow"
  require (∀ frames ∈ expectedSampleFrames, declaredDataBytes = frames * blockAlign)
    s!"data chunk declares {declaredDataBytes} payload bytes, expected {expectedDataBytes}"
  let blockRemainder := declaredDataBytes % blockAlign
  require (blockRemainder = 0 ∨ allowFinalAlignmentPadding = true ∧ blockRemainder < 8)
    s!"data payload {declaredDataBytes} is not divisible by block alignment {blockAlign}"
  let sampleFrames := declaredDataBytes / blockAlign
  let wanted := expectedSampleFrames.getD 0
  require (∀ frames ∈ expectedSampleFrames, sampleFrames = frames) s!"data extent yields {sampleFrames} frames, expected {wanted}"
  return sampleFrames

/-- The fact chunk (w64.rs:615-642). -/
def checkFact (encoding : W64SampleEncoding) (fact : Option (ℕ × ℕ)) (sampleFrames : ℕ) : Except W64ValidationError (Option ℕ) :=
  match encoding, fact with
  | .floatingPoint, none => .error (.invalid "floating-point Wave64 is missing its fact chunk")
  | .floatingPoint, some (factOffset, factFrames) => do
    require (factFrames = sampleFrames) s!"fact chunk declares {factFrames} frames, data extent yields {sampleFrames}"
    return some factOffset
  | .signedInteger, some (factOffset, factFrames) => do
    require (factFrames = sampleFrames) s!"integer fact chunk declares {factFrames} frames, data extent yields {sampleFrames}"
    return some factOffset
  | .signedInteger, none => return none

/-- What the traversal has seen, against the expectation (w64.rs:518-657). -/
def checkContract (physicalFileBytes : ℕ) (expected : W64PcmFormatExpectation) (blockAlign byteRate : ℕ)
    (expectedSampleFrames : Option ℕ) (allowFinalAlignmentPadding : Bool) (t : Traversal) : Except W64ValidationError W64ExactStructure := do
  let offset := t.offset
  require (offset = physicalFileBytes) s!"chunk traversal ended at {offset}, not exact extent {physicalFileBytes}"
  let (formatChunkOffset, format) ← orInvalid "missing format chunk" t.seen.format
  let (dataChunkOffset, declaredDataBytes) ← orInvalid "missing data chunk" t.seen.data
  checkFormat format expected blockAlign byteRate
  let sampleFrames ← checkFrames declaredDataBytes blockAlign expectedSampleFrames allowFinalAlignmentPadding
  let factChunkOffset ← checkFact expected.encoding t.seen.fact sampleFrames
  return {
    physicalFileBytes, declaredFileBytes := physicalFileBytes, chunkCount := t.seen.chunkCount, formatChunkOffset, factChunkOffset
    dataChunkOffset, declaredDataBytes, sampleFrames, alignmentPaddingBytes := t.alignmentPaddingBytes }

/-- `validate_exact_w64_pcm_inner` (w64.rs:326). -/
def validateExactW64PcmInner (file : List UInt8) (expected : W64PcmFormatExpectation) (expectedSampleFrames : Option ℕ)
    (allowFinalAlignmentPadding allowSsrcFinalTrailingZeroPadding : Bool) : Except W64ValidationError W64ExactStructure := do
  checkExpectation expected
  checkRoot file
  let (blockAlign, byteRate) ← expectedRates expected
  let t ← traverse file file.length allowSsrcFinalTrailingZeroPadding ⟨rootHeaderBytes, ⟨0, none, none, none⟩, 0⟩
  checkContract file.length expected blockAlign byteRate expectedSampleFrames allowFinalAlignmentPadding t

/-- `inspect_w64_pcm_tolerating_final_alignment_padding` (w64.rs:663). -/
def inspectW64PcmToleratingFinalAlignmentPadding (file : List UInt8) (expected : W64PcmFormatExpectation) :
    Except W64ValidationError W64ExactStructure := validateExactW64PcmInner file expected none true false

/-- `validate_exact_w64_pcm` (w64.rs:672). -/
def validateExactW64Pcm (file : List UInt8) (expected : W64PcmExpectation) : Except W64ValidationError W64ExactStructure :=
  validateExactW64PcmInner file expected.toW64PcmFormatExpectation (some expected.sampleFrames.toNat) false false

def W64ValidationError.message : W64ValidationError → String
  | .io => "Wave64 structural I/O failed: failed to fill whole buffer"
  | .invalid message => "Wave64 structural validation failed: " ++ message

/-- `validate_ssrc_w64_pcm` (w64.rs:713). -/
def validateSsrcW64Pcm (file : List UInt8) (expected : W64PcmExpectation) : Except W64ValidationError W64ExactStructure :=
  match validateExactW64Pcm file expected with
  | .ok structure' => .ok structure'
  | .error exactError =>
    match validateExactW64PcmInner file expected.toW64PcmFormatExpectation (some expected.sampleFrames.toNat) false true with
    | .ok structure' => .ok structure'
    | .error ssrcError =>
      let exactMessage := exactError.message
      let ssrcMessage := ssrcError.message
      .error (.invalid s!"exact validation failed ({exactMessage}); SSRC trailing-zero validation failed ({ssrcMessage})")

end Wave64
