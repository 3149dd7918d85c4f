import Tonepoet.Wave64.Acceptance

/-!
# The terminal repair of Int32 files (tonepoet-pipeline w64.rs:735-831)

A file is its bytes before and after; what is written is not lost. The repair is qualified by an inspection that lets the
padding of the data count as data, and the file is validated only once it has been rewritten.
-/

namespace Wave64

open Rust ByteFile

/-- What the repair writes: the size of the data chunk, and the size of the file, to which it is cut. -/
structure TerminalRepair where
  dataChunkOffset : ℕ
  exactDataChunkBytes : ℕ
  exactFileBytes : ℕ
  deriving DecidableEq

def checkedMul (left right : ℕ) (description : String) : Except W64ValidationError ℕ :=
  if left * right ≤ usizeMax then .ok (left * right) else .error (.invalid s!"{description} overflow")

/-- `inspect_w64_pcm_tolerating_final_alignment_padding` where the exact validation has failed (w64.rs:773-778). -/
def inspectDefect (file : List UInt8) (expected : W64PcmExpectation) (exactError : W64ValidationError) :
    Except W64ValidationError W64ExactStructure :=
  match inspectW64PcmToleratingFinalAlignmentPadding file expected.toW64PcmFormatExpectation with
  | .ok structure' => .ok structure'
  | .error error =>
    let exactMessage := exactError.message
    let message := error.message
    .error (.invalid ("Wave64 does not match the qualified FFmpeg final-padding defect: exact validation failed with " ++
      s!"{exactMessage}; structural inspection failed with {message}"))

/-- What the repair checks before it writes (w64.rs:773-819). -/
def qualifyTerminal (file : List UInt8) (expected : W64PcmExpectation) (exactError : W64ValidationError) :
    Except W64ValidationError TerminalRepair := do
  let structure' ← inspectDefect file expected exactError
  let blockAlign ← checkedMul expected.channels.toNat 4 "expected Int32 block alignment"
  let expectedDataBytes ← checkedMul expected.sampleFrames.toNat blockAlign "expected Int32 data extent"
  let alignmentPaddingBytes := (8 - expectedDataBytes % 8) % 8
  let exactMessage := exactError.message
  require (alignmentPaddingBytes ≠ 0)
    s!"exact Wave64 validation failed but the expected Int32 payload requires no final alignment padding: {exactMessage}"
  let paddedDataBytes ← orInvalid "padded Int32 data extent overflow" (Rust.checkedAdd expectedDataBytes alignmentPaddingBytes)
  let declaredDataBytes := structure'.declaredDataBytes
  require (declaredDataBytes = paddedDataBytes) (s!"data chunk declares {declaredDataBytes} payload bytes; " ++
    s!"the qualified FFmpeg padding defect would declare {paddedDataBytes} for an exact {expectedDataBytes}-byte payload")
  let declaredDataEnd ← orInvalid "declared data extent overflow" (Rust.checkedAdd structure'.dataPayloadOffset declaredDataBytes)
  require (declaredDataEnd = structure'.physicalFileBytes) "qualified FFmpeg padding repair requires the data chunk to be final"
  let paddingOffset ← orInvalid "terminal padding offset overflow" (Rust.checkedAdd structure'.dataPayloadOffset expectedDataBytes)
  let padding ← readExactAt file paddingOffset alignmentPaddingBytes
  require (allZero padding = true) "qualified FFmpeg terminal padding contains non-zero audio bytes"
  let exactDataChunkBytes ← orInvalid "exact data chunk extent overflow" (Rust.checkedAdd chunkHeaderBytes expectedDataBytes)
  require (alignmentPaddingBytes ≤ structure'.physicalFileBytes) "exact Wave64 file extent underflow"
  return ⟨structure'.dataChunkOffset, exactDataChunkBytes, structure'.physicalFileBytes - alignmentPaddingBytes⟩

/-- The writes of the repair (w64.rs:820-825). -/
def TerminalRepair.apply (repair : TerminalRepair) (file : List UInt8) : List UInt8 :=
  let file := writeAt file (repair.dataChunkOffset + 16) (leBytes 8 repair.exactDataChunkBytes)
  let file := writeAt file 16 (leBytes 8 repair.exactFileBytes)
  file.take repair.exactFileBytes

/-- `canonicalize_ffmpeg_int32_w64_terminal` (w64.rs:757): the file afterwards, and the result. -/
def canonicalizeFfmpegInt32W64Terminal (file : List UInt8) (expected : W64PcmExpectation) :
    List UInt8 × Except W64ValidationError W64ExactStructure :=
  if expected.encoding ≠ .signedInteger ∨ expected.bitsPerSample ≠ 32 then
    (file, .error (.invalid "FFmpeg Wave64 terminal canonicalization requires signed Int32 PCM"))
  else
    match validateExactW64Pcm file expected with
    | .ok structure' => (file, .ok structure')
    | .error exactError =>
      match qualifyTerminal file expected exactError with
      | .error e => (file, .error e)
      | .ok repair => (repair.apply file, validateExactW64Pcm (repair.apply file) expected)

/-! ## What is qualified -/

section
variable {α : Type} {r : α}

theorem checkedMul_bind_eq_ok {a b : ℕ} {message : String} {f : ℕ → Except W64ValidationError α} :
    (checkedMul a b message >>= f) = .ok r ↔ a * b ≤ usizeMax ∧ f (a * b) = .ok r := by
  rw [checkedMul]
  split <;> rename_i h
  · exact ⟨fun hf => ⟨h, hf⟩, fun hf => hf.2⟩
  · exact ⟨nofun, fun hf => absurd hf.1 h⟩

theorem orInvalid_checkedAdd_bind_eq_ok {a b : ℕ} {message : String} {f : ℕ → Except W64ValidationError α} :
    (orInvalid message (Rust.checkedAdd a b) >>= f) = .ok r ↔ a + b ≤ usizeMax ∧ f (a + b) = .ok r := by
  rw [Rust.checkedAdd]
  split <;> rename_i h
  · exact ⟨fun hf => ⟨h, hf⟩, fun hf => hf.2⟩
  · refine ⟨fun hf => ?_, fun hf => absurd hf.1 h⟩
    cases hf

end

/-- A data chunk. -/
def dataChunk (payload : List UInt8) : Chunk := ⟨w64DataGuid, payload, rfl⟩

theorem eq_dataChunk {c : Chunk} (h : c.guid = w64DataGuid) : c = dataChunk c.payload := by
  cases c
  cases h
  rfl

variable {file audio zeros : List UInt8} {expected : W64PcmExpectation} {pre : List Chunk} {exactError : W64ValidationError}
  {repair : TerminalRepair} {s : W64ExactStructure} {seen : Seen} {padding : ℕ}

theorem bytes_dataChunk_append (audio zeros : List UInt8) : (dataChunk (audio ++ zeros)).bytes =
    w64DataGuid ++ (leBytes 8 (chunkHeaderBytes + (audio ++ zeros).length) ++ (audio ++ zeros)) := rfl

/-- **The writes take the zeros out of the data chunk that ends the file.** -/
theorem apply_endingWith (pre : List Chunk) (audio zeros : List UInt8) :
    TerminalRepair.apply ⟨40 + (paddedBytes pre).length, chunkHeaderBytes + audio.length,
      (endingWith pre (dataChunk (audio ++ zeros))).length - zeros.length⟩ (endingWith pre (dataChunk (audio ++ zeros))) =
        endingWith pre (dataChunk audio) := by
  have hlength : (endingWith pre (dataChunk (audio ++ zeros))).length - zeros.length = (endingWith pre (dataChunk audio)).length := by
    simp only [length_endingWith, Chunk.length_bytes, dataChunk, List.length_append]
    omega
  have hfront : ∀ k, (rootBytes k ++ (paddedBytes pre ++ w64DataGuid)).length = 40 + (paddedBytes pre).length + 16 := by
    intro k
    rw [List.length_append, List.length_append, length_rootBytes, Nat.add_assoc]
    rfl
  have hpatched : ∀ k, writeAt (rootBytes k ++ (paddedBytes pre ++ (dataChunk (audio ++ zeros)).bytes)) (40 + (paddedBytes pre).length + 16)
      (leBytes 8 (chunkHeaderBytes + audio.length)) = rootBytes k ++ (paddedBytes pre ++ ((dataChunk audio).bytes ++ zeros)) := by
    intro k
    rw [bytes_dataChunk_append, ← List.append_assoc (paddedBytes pre), ← List.append_assoc (rootBytes k), ← hfront k,
      writeAt_patch (by rw [length_leBytes, length_leBytes])]
    simp only [Chunk.bytes, dataChunk, List.append_assoc]
  rw [TerminalRepair.apply, hlength]
  dsimp only
  have hopen : endingWith pre (dataChunk (audio ++ zeros)) =
    rootBytes (40 + (paddedBytes pre).length + (dataChunk (audio ++ zeros)).bytes.length) ++
      (paddedBytes pre ++ (dataChunk (audio ++ zeros)).bytes) := rfl
  rw [hopen, hpatched, writeAt_rootBytes, ← List.append_assoc (paddedBytes pre), ← List.append_assoc (rootBytes _), List.take_left' ?_]
  · rw [length_endingWith, endingWith]
  · rw [List.length_append, List.length_append, length_rootBytes, length_endingWith, Nat.add_assoc]

/-- The payload of the last chunk, read at its offset. -/
theorem drop_endingWith (pre : List Chunk) (c : Chunk) : (endingWith pre c).drop (40 + (paddedBytes pre).length + chunkHeaderBytes) = c.payload := by
  have hheader : (c.guid ++ leBytes 8 (chunkHeaderBytes + c.payload.length)).length = chunkHeaderBytes := by
    rw [List.length_append, c.guidLength, length_leBytes]
    rfl
  rw [← List.drop_drop, endingWith, ← List.append_assoc, List.drop_left' (by rw [List.length_append, length_rootBytes]), Chunk.bytes,
    ← List.append_assoc, List.drop_left' hheader]

/-- **What is qualified**: a file that ends with its data, of which the last four bytes are zeros beyond the expected frames. -/
theorem qualifyTerminal_sound (h : qualifyTerminal file expected exactError = .ok repair) :
    ∃ s pre audio zeros seen padding, inspectW64PcmToleratingFinalAlignmentPadding file expected.toW64PcmFormatExpectation = .ok s ∧
      file = endingWith pre (dataChunk (audio ++ zeros)) ∧ audio.length = expected.sampleFrames.toNat * (expected.channels.toNat * 4) ∧
        audio.length % 8 = 4 ∧ zeros = [0, 0, 0, 0] ∧ NotesAll 40 unseen (pre ++ [dataChunk (audio ++ zeros)]) seen ∧
          checkContract file.length expected.toW64PcmFormatExpectation expected.blockAlign expected.byteRate none true
            ⟨file.length, seen, padding⟩ = .ok s ∧ repair.apply file = endingWith pre (dataChunk audio) := by
  obtain ⟨s, hinspect, h⟩ := bind_eq_ok.1 h
  have hvalid : inspectW64PcmToleratingFinalAlignmentPadding file expected.toW64PcmFormatExpectation = .ok s := by
    rw [inspectDefect] at hinspect
    split at hinspect
    · rename_i hok
      cases hinspect
      exact hok
    · cases hinspect
  simp only [checkedMul_bind_eq_ok, require_bind_eq_ok, orInvalid_checkedAdd_bind_eq_ok, readExactAt_bind_eq_ok] at h
  generalize hbytes : expected.sampleFrames.toNat * (expected.channels.toNat * 4) = expectedBytes at h
  obtain ⟨-, -, hneeded, -, hdeclared, -, hfinal, -, hread, hzero, -, -, ⟨⟩⟩ := h
  have hfour : expectedBytes % 8 = 4 := by
    have : expectedBytes % 4 = 0 := by
      rw [← hbytes, ← Nat.mul_assoc, Nat.mul_mod_left]
    omega
  have hpadding : (8 - expectedBytes % 8) % 8 = 4 := by rw [hfour]
  rw [hpadding] at hdeclared hread hzero
  obtain ⟨pre, c, post, seen, padding, -, hguid, hnotes, hcontract, hoffset, hsize, hphysical, hlast⟩ := dataChunk_of_validate hvalid
  obtain ⟨rfl, hfile⟩ := hlast (hfinal.trans hphysical)
  rw [hsize] at hdeclared
  -- the zeros that were read are the end of the payload
  have hpayload : c.payload = c.payload.take expectedBytes ++ [0, 0, 0, 0] := by
    rw [W64ExactStructure.dataPayloadOffset, hoffset, ← List.drop_drop, hfile, drop_endingWith] at hzero
    have htail : c.payload.drop expectedBytes = [0, 0, 0, 0] := by
      have hlength : (c.payload.drop expectedBytes).length = 4 := by
        rw [List.length_drop]
        omega
      rw [List.take_of_length_le hlength.le] at hzero
      rw [allZero_iff.1 hzero, hlength]
      rfl
    rw [← htail, List.take_append_drop]
  obtain ⟨audio, haudio, rfl⟩ : ∃ audio, audio.length = expectedBytes ∧ c = dataChunk (audio ++ [0, 0, 0, 0]) :=
    ⟨c.payload.take expectedBytes, by rw [List.length_take]; omega, (eq_dataChunk hguid).trans (congrArg dataChunk hpayload)⟩
  refine ⟨s, pre, audio, [0, 0, 0, 0], seen, padding, hvalid, hfile, haudio, by rw [haudio, hfour], rfl, hnotes, hcontract, ?_⟩
  rw [hpadding, hoffset, hphysical, ← haudio, hfile]
  exact apply_endingWith pre audio [0, 0, 0, 0]

/-! ## What the repair leaves -/

theorem payloads_dataChunk (guid : List UInt8) (pre : List Chunk) (payload : List UInt8) :
    payloads guid (pre ++ [dataChunk payload]) = payloads guid pre ++ if w64DataGuid = guid then [payload] else [] := by
  simp only [payloads, List.filter_append, List.map_append, List.filter_cons, List.filter_nil, dataChunk, decide_eq_true_eq]
  split <;> rfl

theorem payloads_dataChunk_of_ne {guid : List UInt8} (h : w64DataGuid ≠ guid) (pre : List Chunk) (payload : List UInt8) :
    payloads guid (pre ++ [dataChunk payload]) = payloads guid pre := by
  rw [payloads_dataChunk, if_neg h, List.append_nil]

/-- The file without the zeros is exact when its fact chunk, if any, says the frames that are expected. -/
theorem exact_repaired (hsupported : Supported expected.toW64PcmFormatExpectation)
    (hnotes : NotesAll 40 unseen (pre ++ [dataChunk (audio ++ zeros)]) seen)
    (hcontract : checkContract file.length expected.toW64PcmFormatExpectation expected.blockAlign expected.byteRate none true
      ⟨file.length, seen, padding⟩ = .ok s) (haudio : audio.length = expected.sampleFrames.toNat * expected.blockAlign) :
    Exact expected (pre ++ [dataChunk audio]) ↔
      payloads w64FactGuid pre = [leBytes 8 expected.sampleFrames.toNat] ∨ expected.encoding = .signedInteger ∧ payloads w64FactGuid pre = [] := by
  obtain ⟨hformat, ⟨data, hdata, -⟩, -, -⟩ := shown_of_contract hsupported hnotes hcontract
  rw [payloads_dataChunk_of_ne fmt_ne_data.symm] at hformat
  rw [payloads_dataChunk, if_pos rfl] at hdata
  have hnone : payloads w64DataGuid pre = [] := by
    have hlength := congrArg List.length hdata
    rw [List.length_append] at hlength
    exact List.eq_nil_of_length_eq_zero (Nat.succ_injective hlength)
  have hfact := payloads_dataChunk_of_ne fact_ne_data.symm pre audio
  constructor
  · intro h
    rw [← hfact]
    exact h.fact
  · intro h
    rw [← hfact] at h
    exact ⟨by rwa [payloads_dataChunk_of_ne fmt_ne_data.symm],
      ⟨audio, by rw [payloads_dataChunk, if_pos rfl, hnone, List.nil_append], haudio⟩, h⟩

theorem blockAlign_of_int32 (hbits : expected.bitsPerSample = 32) : expected.blockAlign = expected.channels.toNat * 4 := by
  rw [W64PcmFormatExpectation.blockAlign, hbits]
  rfl

/-- A layout that ends with its data is validated exactly when its chunks are exact. -/
theorem validate_endingWith_iff {payload : List UInt8} (hsupported : Supported expected.toW64PcmFormatExpectation)
    (hcount : (pre ++ [dataChunk payload]).length < 2 ^ 32) (hlength : (endingWith pre (dataChunk payload)).length < 2 ^ 64) :
    (∃ s, validateExactW64Pcm (endingWith pre (dataChunk payload)) expected = .ok s) ↔ Exact expected (pre ++ [dataChunk payload]) := by
  have hfile := isW64_endingWith hlength false
  constructor
  · intro h
    obtain ⟨-, chunks, hchunks, -, hexact⟩ := validate_iff.1 h
    rwa [hfile.unique hchunks]
  · intro h
    exact validate_iff.2 ⟨hsupported, _, hfile, hcount, h⟩

/-! ## Atomicity -/

/-- The file has the same chunks but for the payload of the data chunk, of which the first `n` bytes are left. -/
def KeepsAudio (n : ℕ) (file repaired : List UInt8) : Prop :=
  ∃ pre post payload, IsW64 false (pre ++ dataChunk payload :: post) file ∧
    IsW64 false (pre ++ dataChunk (payload.take n) :: post) repaired ∧ n ≤ payload.length

/-- The repair ends with a validated file of the same audio, which it leaves alone from then on, or it leaves the file as it was. -/
def Atomic (file : List UInt8) (expected : W64PcmExpectation) : Prop :=
  match canonicalizeFfmpegInt32W64Terminal file expected with
  | (repaired, .ok s) => validateExactW64Pcm repaired expected = .ok s ∧
      KeepsAudio (expected.sampleFrames.toNat * (expected.channels.toNat * 4)) file repaired ∧
        canonicalizeFfmpegInt32W64Terminal repaired expected = (repaired, .ok s)
  | (repaired, .error _) => repaired = file

/-- One frame more. -/
def W64PcmExpectation.oneMore (expected : W64PcmExpectation) : W64PcmExpectation :=
  { expected with sampleFrames := expected.sampleFrames + 1 }

theorem W64PcmExpectation.oneMore_sampleFrames (h : expected.sampleFrames.toNat + 1 < 2 ^ 64) :
    expected.oneMore.sampleFrames.toNat = expected.sampleFrames.toNat + 1 := by
  have hone : (1 : UInt64).toNat = 1 := rfl
  rw [oneMore, UInt64.toNat_add, hone, Nat.mod_eq_of_lt h]

theorem W64PcmExpectation.oneMore_format (expected : W64PcmExpectation) :
    expected.oneMore.toW64PcmFormatExpectation = expected.toW64PcmFormatExpectation := rfl

/-- A mono Int32 file, exact for one frame more than expected, that ends with a frame of zeros and whose fact chunk counts it. -/
structure CountsPadding (file : List UInt8) (expected : W64PcmExpectation) : Prop where
  encoding : expected.encoding = .signedInteger
  width : expected.bitsPerSample = 32
  mono : expected.channels = 1
  odd : expected.sampleFrames.toNat % 2 = 1
  oneMore : ∃ s, validateExactW64Pcm file expected.oneMore = .ok s
  ending : ∃ pre audio, file = endingWith pre (dataChunk (audio ++ [0, 0, 0, 0])) ∧ audio.length = expected.sampleFrames.toNat * 4 ∧
    payloads w64FactGuid pre ≠ []

theorem keepsAudio_of_validate (hbits : expected.bitsPerSample = 32) (h : validateExactW64Pcm file expected = .ok s) :
    KeepsAudio (expected.sampleFrames.toNat * (expected.channels.toNat * 4)) file file := by
  obtain ⟨-, chunks, hfile, -, hexact⟩ := validate_iff.1 ⟨s, h⟩
  obtain ⟨payload, hdata, hlength⟩ := hexact.data
  obtain ⟨pre, c, post, rfl, hguid, rfl⟩ := exists_dataChunk hdata
  rw [blockAlign_of_int32 hbits] at hlength
  rw [eq_dataChunk hguid] at hfile
  exact ⟨pre, post, c.payload, hfile, by rwa [List.take_of_length_le hlength.le], hlength.ge⟩

/-- A file that is exact already stays as it is. -/
theorem canonicalize_of_validate (hencoding : expected.encoding = .signedInteger) (hbits : expected.bitsPerSample = 32)
    (h : validateExactW64Pcm file expected = .ok s) : canonicalizeFfmpegInt32W64Terminal file expected = (file, .ok s) := by
  rw [canonicalizeFfmpegInt32W64Terminal, if_neg (by rw [hencoding, hbits]; decide), h]

theorem canonicalize_of_qualify (hencoding : expected.encoding = .signedInteger) (hbits : expected.bitsPerSample = 32)
    (h : validateExactW64Pcm file expected = .error exactError) (hqualify : qualifyTerminal file expected exactError = .ok repair) :
    canonicalizeFfmpegInt32W64Terminal file expected = (repair.apply file, validateExactW64Pcm (repair.apply file) expected) := by
  rw [canonicalizeFfmpegInt32W64Terminal, if_neg (by rw [hencoding, hbits]; decide), h]
  dsimp only
  rw [hqualify]

theorem endingWith_inj {pre' : List Chunk} {c c' : Chunk} (h : endingWith pre c = endingWith pre' c') (hlength : (endingWith pre c).length < 2 ^ 64) :
    pre = pre' ∧ c = c' := by
  have hfile := isW64_endingWith hlength false
  have hfile' := isW64_endingWith (h ▸ hlength) false
  rw [← h] at hfile'
  obtain ⟨hpre, hc⟩ := List.append_inj' (hfile.unique hfile') rfl
  exact ⟨hpre, List.singleton_inj.1 hc⟩

/-- The chunks of an accepted file that ends with its data are exact. -/
theorem exact_of_endingWith {payload : List UInt8} (hlength : (endingWith pre (dataChunk payload)).length < 2 ^ 64)
    (h : validateExactW64Pcm (endingWith pre (dataChunk payload)) expected = .ok s) : Exact expected (pre ++ [dataChunk payload]) := by
  obtain ⟨-, chunks, hchunks, -, hexact⟩ := validate_iff.1 ⟨s, h⟩
  rwa [(isW64_endingWith hlength false).unique hchunks]

theorem payload_length_of_exact {payload : List UInt8} (h : Exact expected (pre ++ [dataChunk payload])) :
    payload.length = expected.sampleFrames.toNat * expected.blockAlign := by
  obtain ⟨data, hdata, hlength⟩ := h.data
  rw [payloads_dataChunk, if_pos rfl] at hdata
  have hmem : payload ∈ [data] := by
    rw [← hdata]
    exact List.mem_append_right _ (List.mem_singleton_self _)
  rw [List.mem_singleton.1 hmem, hlength]

theorem fact_of_exact {payload : List UInt8} (h : Exact expected (pre ++ [dataChunk payload])) (hne : payloads w64FactGuid pre ≠ []) :
    payloads w64FactGuid pre = [leBytes 8 expected.sampleFrames.toNat] := by
  have hfact := h.fact
  rw [payloads_dataChunk_of_ne fact_ne_data.symm] at hfact
  exact hfact.resolve_right fun hnone => hne hnone.2

theorem length_endingWith_dataChunk (pre : List Chunk) (payload : List UInt8) :
    (endingWith pre (dataChunk payload)).length = 40 + (paddedBytes pre).length + 24 + payload.length := by
  rw [length_endingWith, Chunk.length_bytes]
  exact (Nat.add_assoc _ _ _).symm

theorem length_padded (pre : List Chunk) (audio : List UInt8) :
    (endingWith pre (dataChunk (audio ++ [0, 0, 0, 0]))).length = 40 + (paddedBytes pre).length + 24 + audio.length + 4 := by
  rw [length_endingWith_dataChunk, List.length_append]
  rfl

/-- The fact chunk that counts the padding says one frame more. -/
theorem CountsPadding.fact (h : CountsPadding file expected) : file.length < 2 ^ 64 ∧ expected.sampleFrames.toNat + 1 < 2 ^ 64 ∧
    ∃ pre audio, file = endingWith pre (dataChunk (audio ++ [0, 0, 0, 0])) ∧ audio.length = expected.sampleFrames.toNat * 4 ∧
      payloads w64FactGuid pre = [leBytes 8 (expected.sampleFrames.toNat + 1)] := by
  obtain ⟨pre, audio, rfl, haudio, hne⟩ := h.ending
  obtain ⟨s, hs⟩ := h.oneMore
  obtain ⟨-, chunks, hchunks, -, -⟩ := validate_iff.1 ⟨s, hs⟩
  have hlength := (length_lt_of_isW64 hchunks).1
  have hframes : expected.sampleFrames.toNat + 1 < 2 ^ 64 := by
    rw [length_padded, haudio] at hlength
    omega
  refine ⟨hlength, hframes, pre, audio, rfl, haudio, ?_⟩
  rw [fact_of_exact (exact_of_endingWith hlength hs) hne, expected.oneMore_sampleFrames hframes]

/-- A file that is one frame too long is not exact. -/
theorem CountsPadding.not_exact (h : CountsPadding file expected) : ∃ e, validateExactW64Pcm file expected = .error e := by
  obtain ⟨hlength, -, pre, audio, rfl, haudio, -⟩ := h.fact
  rcases hvalid : validateExactW64Pcm (endingWith pre (dataChunk (audio ++ [0, 0, 0, 0]))) expected with e | s
  · exact ⟨e, rfl⟩
  · have hpayload := payload_length_of_exact (exact_of_endingWith hlength hvalid)
    rw [blockAlign_of_int32 h.width, h.mono, List.length_append, haudio] at hpayload
    exact absurd hpayload (by simp)

/-- What is returned for a file that ends with its data. -/
theorem structure_of_endingWith {payload : List UInt8} {format : W64PcmFormatExpectation} {frames : Option ℕ} {allow : Bool}
    (hlength : (endingWith pre (dataChunk payload)).length < 2 ^ 64)
    (h : validateExactW64PcmInner (endingWith pre (dataChunk payload)) format frames allow false = .ok s) :
    s.dataChunkOffset = 40 + (paddedBytes pre).length ∧ s.declaredDataBytes = payload.length ∧
      s.physicalFileBytes = (endingWith pre (dataChunk payload)).length := by
  obtain ⟨-, chunks, t, hfile, -, hnotes, hcontract⟩ := validate_sound h
  rw [hfile.unique (isW64_endingWith hlength false)] at hnotes
  obtain ⟨-, _, _, dataOffset, dataBytes, _, -, hseen, -, -, -, rfl⟩ := checkContract_eq_ok.1 hcontract
  obtain ⟨rfl, rfl⟩ := Prod.mk.inj (Option.some.inj (hseen.symm.trans (hnotes.data_eq rfl)))
  exact ⟨rfl, rfl, rfl⟩

/-- The repair takes it on. -/
theorem CountsPadding.qualifies (h : CountsPadding file expected) (exactError : W64ValidationError) :
    ∃ repair, qualifyTerminal file expected exactError = .ok repair := by
  obtain ⟨hlength, -, pre, audio, rfl, haudio, -⟩ := h.fact
  obtain ⟨s, hs⟩ := h.oneMore
  have hinspect : inspectDefect (endingWith pre (dataChunk (audio ++ [0, 0, 0, 0]))) expected exactError = .ok s := by
    have htolerant := inspect_of_validate hs
    rw [expected.oneMore_format] at htolerant
    rw [inspectDefect, inspectW64PcmToleratingFinalAlignmentPadding, htolerant]
  obtain ⟨hoffset, hsize, hphysical⟩ := structure_of_endingWith hlength hs
  have hodd := h.odd
  have hmono : expected.channels.toNat = 1 := by rw [h.mono]; rfl
  have hend := length_padded pre audio
  have hmax : usizeMax = 2 ^ 64 - 1 := rfl
  have hpayloadOffset : s.dataPayloadOffset = 40 + (paddedBytes pre).length + 24 := congrArg (· + 24) hoffset
  have hpadding : (8 - expected.sampleFrames.toNat * (1 * 4) % 8) % 8 = 4 := by omega
  rw [List.length_append, haudio] at hsize
  have hsize : s.declaredDataBytes = expected.sampleFrames.toNat * 4 + 4 := hsize
  refine ⟨⟨s.dataChunkOffset, chunkHeaderBytes + expected.sampleFrames.toNat * (1 * 4), s.physicalFileBytes - 4⟩, ?_⟩
  rw [qualifyTerminal, hinspect, ok_bind, hmono]
  simp only [checkedMul_bind_eq_ok, require_bind_eq_ok, orInvalid_checkedAdd_bind_eq_ok, readExactAt_bind_eq_ok, hpadding]
  have hzeros : (endingWith pre (dataChunk (audio ++ [0, 0, 0, 0]))).drop (s.dataPayloadOffset + expected.sampleFrames.toNat * (1 * 4)) =
      [0, 0, 0, 0] := by
    rw [W64ExactStructure.dataPayloadOffset, hoffset, ← List.drop_drop, drop_endingWith]
    exact List.drop_left' haudio
  rw [hzeros, chunkHeaderBytes]
  refine ⟨?_, ?_, ?_, ?_, ?_, ?_, ?_, ?_, ?_, rfl, ?_, ?_, rfl⟩
  all_goals omega

/-- What a qualified repair makes of the file. -/
structure Repaired (file : List UInt8) (expected : W64PcmExpectation) (repaired : List UInt8) (pre : List Chunk) (audio : List UInt8) : Prop where
  supported : Supported expected.toW64PcmFormatExpectation
  before : file = endingWith pre (dataChunk (audio ++ [0, 0, 0, 0]))
  after : repaired = endingWith pre (dataChunk audio)
  length : file.length < 2 ^ 64
  count : pre.length + 1 < 2 ^ 32
  frames : audio.length = expected.sampleFrames.toNat * expected.blockAlign
  odd : audio.length % 8 = 4
  tolerant : ∃ seen padding s, NotesAll 40 unseen (pre ++ [dataChunk (audio ++ [0, 0, 0, 0])]) seen ∧
    checkContract file.length expected.toW64PcmFormatExpectation expected.blockAlign expected.byteRate none true ⟨file.length, seen, padding⟩ = .ok s

theorem repaired_of_qualify (hbits : expected.bitsPerSample = 32) (h : qualifyTerminal file expected exactError = .ok repair) :
    ∃ pre audio, Repaired file expected (repair.apply file) pre audio := by
  obtain ⟨s, pre, audio, _, seen, padding, hinspect, rfl, haudio, hodd, rfl, hnotes, hcontract, hafter⟩ := qualifyTerminal_sound h
  obtain ⟨hsupported, _, -, hfile, -⟩ := validate_sound hinspect
  have hcount := hnotes.chunkCount (by decide)
  rw [List.length_append] at hcount
  have hcount : 0 + (pre.length + 1) < 2 ^ 32 := hcount
  exact ⟨pre, audio, hsupported, rfl, hafter, (length_lt_of_isW64 hfile).1, by omega, by rw [haudio, blockAlign_of_int32 hbits], hodd,
    seen, padding, s, hnotes, hcontract⟩

variable {repaired : List UInt8}

theorem Repaired.length_after (h : Repaired file expected repaired pre audio) : repaired.length + 4 = file.length := by
  rw [h.before, h.after, length_padded, length_endingWith_dataChunk]

/-- The repaired file is validated exactly when its chunks are exact. -/
theorem Repaired.validate_iff (h : Repaired file expected repaired pre audio) :
    (∃ s, validateExactW64Pcm repaired expected = .ok s) ↔ Exact expected (pre ++ [dataChunk audio]) := by
  have hlength := h.length
  have hshorter := h.length_after
  rw [h.after] at hshorter ⊢
  exact validate_endingWith_iff h.supported (by rw [List.length_append]; exact h.count) (by omega)

theorem Repaired.exact_iff (h : Repaired file expected repaired pre audio) (hencoding : expected.encoding = .signedInteger) :
    Exact expected (pre ++ [dataChunk audio]) ↔
      payloads w64FactGuid pre = [leBytes 8 expected.sampleFrames.toNat] ∨ payloads w64FactGuid pre = [] := by
  obtain ⟨seen, padding, s, hnotes, hcontract⟩ := h.tolerant
  rw [exact_repaired h.supported hnotes hcontract h.frames]
  exact or_congr_right (and_iff_right hencoding)

/-- **When the repaired file is not exact, its fact chunk has counted the zeros as a frame.** -/
theorem Repaired.countsPadding (h : Repaired file expected repaired pre audio) (hencoding : expected.encoding = .signedInteger)
    (hbits : expected.bitsPerSample = 32) (hnot : ¬ Exact expected (pre ++ [dataChunk audio])) : CountsPadding file expected := by
  obtain ⟨seen, padding, s, hnotes, hcontract⟩ := h.tolerant
  obtain ⟨hformat, ⟨data, hdata, hdataLength⟩, hfact, hframes⟩ := shown_of_contract h.supported hnotes hcontract
  rw [h.exact_iff hencoding, not_or] at hnot
  have hfactPre := payloads_dataChunk_of_ne fact_ne_data.symm pre (audio ++ [0, 0, 0, 0])
  have hfact : payloads w64FactGuid pre = [leBytes 8 s.sampleFrames] := by
    rw [← hfactPre]
    exact hfact.resolve_right fun hnone => hnot.2 (hfactPre ▸ hnone.2)
  have hne : s.sampleFrames ≠ expected.sampleFrames.toNat := fun hsame => hnot.1 (hsame ▸ hfact)
  -- four bytes are a frame only when there is one channel
  have hdeclared : s.declaredDataBytes = expected.sampleFrames.toNat * expected.blockAlign + 4 := by
    have hmem : audio ++ [0, 0, 0, 0] ∈ [data] := by
      rw [← hdata, payloads_dataChunk, if_pos rfl]
      exact List.mem_append_right _ (List.mem_singleton_self _)
    rw [← hdataLength, ← List.mem_singleton.1 hmem, List.length_append, h.frames]
    rfl
  obtain ⟨-, -, -, -, hn⟩ := checkFrames_eq_ok.1 hframes
  have hpos := h.supported.blockAlign_pos
  rw [hdeclared, Nat.add_comm, Nat.add_mul_div_right _ _ hpos] at hn
  have hchannels := blockAlign_of_int32 hbits
  have hmono : expected.channels.toNat = 1 := by
    by_contra hother
    rw [Nat.div_eq_of_lt (by omega), Nat.zero_add] at hn
    exact hne hn
  have halign : expected.blockAlign = 4 := by rw [hchannels, hmono]
  rw [halign] at hn
  have haudio := h.frames
  have hodd := h.odd
  have hlength := h.length
  rw [halign] at haudio
  rw [h.before, length_padded] at hlength
  have hone := expected.oneMore_sampleFrames (by omega)
  refine ⟨hencoding, hbits, UInt16.toNat_inj.1 hmono, by omega, ?_, pre, audio, h.before, haudio, by rw [hfact]; exact List.cons_ne_nil _ _⟩
  rw [h.before, validate_endingWith_iff (expected.oneMore_format ▸ h.supported) (by rw [List.length_append]; exact h.count)
    (h.before ▸ h.length)]
  refine ⟨hformat, ⟨data, hdata, ?_⟩, .inl ?_⟩
  · rw [hone, hdataLength, hdeclared, expected.oneMore_format, halign, Nat.add_mul]
  · rw [hfactPre, hfact, hn, hone, Nat.add_comm]

theorem Repaired.not_countsPadding (h : Repaired file expected repaired pre audio) (hcounts : CountsPadding file expected) :
    ¬ Exact expected (pre ++ [dataChunk audio]) := by
  obtain ⟨hlength, hframes, pre', audio', hfile, -, hfact⟩ := hcounts.fact
  obtain ⟨rfl, -⟩ := endingWith_inj (h.before.symm.trans hfile) (h.before ▸ hlength)
  rw [h.exact_iff hcounts.encoding, hfact]
  rintro (hsame | hnone)
  · have := leBytes_inj hframes (by omega) (List.singleton_inj.1 hsame)
    omega
  · cases hnone

theorem Repaired.keepsAudio (h : Repaired file expected repaired pre audio) (hbits : expected.bitsPerSample = 32) :
    KeepsAudio (expected.sampleFrames.toNat * (expected.channels.toNat * 4)) file repaired := by
  have haudio := h.frames
  rw [blockAlign_of_int32 hbits] at haudio
  have hlength := h.length
  have hshorter := h.length_after
  refine ⟨pre, [], audio ++ [0, 0, 0, 0], ?_, ?_, ?_⟩
  · rw [h.before]
    exact isW64_endingWith (h.before ▸ hlength) false
  · rw [← haudio, List.take_left, h.after]
    exact isW64_endingWith (by rw [← h.after]; omega) false
  · rw [List.length_append]
    omega

/-- **A file whose fact chunk has counted the padding is cut, and then refused.** -/
theorem CountsPadding.refused_after_writing (hcounts : CountsPadding file expected) :
    ∃ repaired e, canonicalizeFfmpegInt32W64Terminal file expected = (repaired, .error e) ∧ repaired.length + 4 = file.length := by
  obtain ⟨e, hexact⟩ := hcounts.not_exact
  obtain ⟨repair, hqualify⟩ := hcounts.qualifies e
  obtain ⟨pre, audio, h⟩ := repaired_of_qualify hcounts.width hqualify
  rw [canonicalize_of_qualify hcounts.encoding hcounts.width hexact hqualify]
  rcases hvalid : validateExactW64Pcm (repair.apply file) expected with e' | s
  · exact ⟨repair.apply file, e', rfl, h.length_after⟩
  · exact absurd (h.validate_iff.1 ⟨s, hvalid⟩) (h.not_countsPadding hcounts)

theorem CountsPadding.not_atomic (hcounts : CountsPadding file expected) : ¬ Atomic file expected := by
  obtain ⟨repaired, e, hresult, hlength⟩ := hcounts.refused_after_writing
  rw [Atomic, hresult]
  intro hsame
  rw [show repaired = file from hsame] at hlength
  omega

/-- **The repair is atomic exactly where no fact chunk has counted the padding as a frame.** Such a fact chunk passes the inspection that
qualifies the repair, and fails the validation that comes once the file is rewritten. -/
theorem atomic_iff (file : List UInt8) (expected : W64PcmExpectation) : Atomic file expected ↔ ¬ CountsPadding file expected := by
  refine ⟨fun hatomic hcounts => hcounts.not_atomic hatomic, fun hnot => ?_⟩
  by_cases hint : expected.encoding ≠ .signedInteger ∨ expected.bitsPerSample ≠ 32
  · rw [Atomic, canonicalizeFfmpegInt32W64Terminal, if_pos hint]
  obtain ⟨hencoding, hbits⟩ := not_or.1 hint
  rw [not_not] at hencoding hbits
  rcases hexact : validateExactW64Pcm file expected with e | s
  · rcases hqualify : qualifyTerminal file expected e with e' | repair
    · rw [Atomic, canonicalizeFfmpegInt32W64Terminal, if_neg hint, hexact]
      dsimp only
      rw [hqualify]
    · obtain ⟨pre, audio, h⟩ := repaired_of_qualify hbits hqualify
      have hrepaired : Exact expected (pre ++ [dataChunk audio]) := by
        by_contra hne
        exact hnot (h.countsPadding hencoding hbits hne)
      obtain ⟨s, hvalid⟩ := h.validate_iff.2 hrepaired
      rw [Atomic, canonicalize_of_qualify hencoding hbits hexact hqualify, hvalid]
      exact ⟨hvalid, h.keepsAudio hbits, canonicalize_of_validate hencoding hbits hvalid⟩
  · rw [Atomic, canonicalize_of_validate hencoding hbits hexact]
    exact ⟨hexact, keepsAudio_of_validate hbits hexact, canonicalize_of_validate hencoding hbits hexact⟩

/-- One mono frame of a signed Int32 file. -/
def oneFrame : W64PcmExpectation := ⟨⟨44100, 1, 32, .signedInteger⟩, 1⟩

def countedChunks : List Chunk :=
  [⟨w64FmtGuid, formatBytes 1 oneFrame.toW64PcmFormatExpectation [], rfl⟩, ⟨w64FactGuid, leBytes 8 2, rfl⟩]

/-- The frame, four zeros, and a fact chunk that counts two frames. -/
def countedFile : List UInt8 := endingWith countedChunks (dataChunk ([1, 2, 3, 4] ++ [0, 0, 0, 0]))

/-- **The repair cuts this file and then refuses it.** -/
theorem countedFile_not_atomic : ¬ Atomic countedFile oneFrame ∧
    ∃ repaired e, canonicalizeFfmpegInt32W64Terminal countedFile oneFrame = (repaired, .error e) ∧ repaired ≠ countedFile := by
  have hlength : countedFile.length = 144 := length_padded countedChunks [1, 2, 3, 4]
  have hcount : (countedChunks ++ [dataChunk ([1, 2, 3, 4] ++ [0, 0, 0, 0])]).length < 2 ^ 32 := by decide
  have hlt : countedFile.length < 2 ^ 64 := by
    rw [hlength]
    decide
  have hsupported : Supported oneFrame.toW64PcmFormatExpectation := ⟨by decide, by decide, rfl, by decide, by decide⟩
  have hexact : ∃ s, validateExactW64Pcm countedFile oneFrame.oneMore = .ok s := by
    refine (validate_endingWith_iff (oneFrame.oneMore_format ▸ hsupported) hcount hlt).2 ?_
    exact ⟨⟨_, rfl, .inl rfl⟩, ⟨_, rfl, rfl⟩, .inl rfl⟩
  have hcounts : CountsPadding countedFile oneFrame :=
    ⟨rfl, rfl, rfl, rfl, hexact, countedChunks, [1, 2, 3, 4], rfl, rfl, List.cons_ne_nil _ _⟩
  refine ⟨hcounts.not_atomic, ?_⟩
  obtain ⟨repaired, e, hresult, hshorter⟩ := hcounts.refused_after_writing
  refine ⟨repaired, e, hresult, ?_⟩
  rintro rfl
  omega

end Wave64
