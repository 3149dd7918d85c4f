import Tonepoet.Container.DffWriter
import Tonepoet.Container.DecodedReader
import Tonepoet.Container.DstRoundTrip

/-!
# DSDIFF files of uncompressed DSD come back

The writer counts the zero byte behind an odd stream as audio, so that a reader finds it at the end of the stream.
-/

namespace Container

open Rust ByteFile ChunkFile

/-- A patch at the start. -/
theorem OutputFile.writeAll_front {old new rest : List UInt8} (h : old.length = new.length) (hle : (old ++ rest).length ≤ usizeMax) :
    ((OutputFile.ofBytes (old ++ rest)).seek 0).writeAll new = .ok ⟨new ++ rest, new.length⟩ := by
  have hpatch := @OutputFile.writeAll_seek [] old new rest h hle
  rwa [List.length_nil, Nat.zero_add] at hpatch

namespace DffWriter

/-! ## What the writer leaves -/

variable {channelCount sampleRate : ℕ} {stream : List UInt8} {footer : Option (List UInt8)}

/-- The stream with the byte that makes its length even. -/
def padded (stream : List UInt8) : List UInt8 := stream ++ padding stream.length

theorem length_padded (stream : List UInt8) : (padded stream).length = stream.length + stream.length % 2 := by
  rw [padded, List.length_append, length_padding]

theorem length_header (channelCount sampleRate audioDataSize footerSize : ℕ) :
    (serializeHeaderWithFooter channelCount sampleRate audioDataSize footerSize).length = headerSize channelCount := by
  have hids : (channelIds channelCount).flatten.length = 4 * channelCount := by
    rw [length_flatten_ids fun id hid => length_of_mem_channelIds hid, length_channelIds]
  have hname : cmprName.length = 14 := rfl
  unfold serializeHeaderWithFooter headerSize
  simp only [List.length_append, length_fourcc, length_beBytes, hids, hname, List.length_cons, List.length_nil]
  omega

/-- The finished file. -/
def fileBytes (channelCount sampleRate : ℕ) (stream footer : List UInt8) : List UInt8 :=
  serializeHeaderWithFooter channelCount sampleRate (padded stream).length footer.length ++ (padded stream ++ footer)

theorem length_fileBytes (channelCount sampleRate : ℕ) (stream footer : List UInt8) :
    (fileBytes channelCount sampleRate stream footer).length = headerSize channelCount + (padded stream).length + footer.length := by
  rw [fileBytes, List.length_append, List.length_append, length_header, Nat.add_assoc]

/-- The writer behind a stream. -/
def written (channelCount sampleRate : ℕ) (stream : List UInt8) (footer : Option (List UInt8)) : DffWriter :=
  ⟨.ofBytes (serializeHeader channelCount sampleRate 0 ++ stream), channelCount, sampleRate, stream.length, footer⟩

theorem new_eq_ok {w : DffWriter} : new channelCount sampleRate = .ok w ↔
    channelCount ≠ 0 ∧ headerSize channelCount ≤ usizeMax ∧ w = written channelCount sampleRate [] none := by
  unfold new
  rw [ensure_bind_eq_ok]
  refine and_congr_right fun _ => ?_
  have hempty : OutputFile.empty.seek 0 = .ofBytes [] := rfl
  dsimp only
  rw [hempty, writeAll_bind_eq_ok, List.nil_append, serializeHeader, length_header]
  refine and_congr_right fun _ => ?_
  unfold written serializeHeader
  rw [List.append_nil]
  exact ⟨fun h => (Except.ok.inj h).symm, fun h => h ▸ rfl⟩

theorem writeFrame_eq_ok {w : DffWriter} {data : List UInt8} : (written channelCount sampleRate stream footer).writeFrame data = .ok w ↔
    headerSize channelCount + (stream ++ data).length ≤ usizeMax ∧ w = written channelCount sampleRate (stream ++ data) footer := by
  unfold writeFrame written
  dsimp only
  rw [writeAll_bind_eq_ok, List.append_assoc, List.length_append, serializeHeader, length_header]
  refine and_congr_right fun _ => ?_
  rw [List.length_append]
  exact ⟨fun h => (Except.ok.inj h).symm, fun h => h ▸ rfl⟩

theorem writeCalls_eq_ok {w : DffWriter} {calls : List (List UInt8)} (hfits : headerSize channelCount + stream.length ≤ usizeMax) :
    (written channelCount sampleRate stream footer).writeCalls calls = .ok w ↔
      headerSize channelCount + (stream ++ calls.flatten).length ≤ usizeMax ∧ w = written channelCount sampleRate (stream ++ calls.flatten) footer := by
  induction calls generalizing stream with
  | nil =>
    rw [writeCalls, List.flatten_nil, List.append_nil]
    exact ⟨fun h => ⟨hfits, (Except.ok.inj h).symm⟩, fun h => h.2 ▸ rfl⟩
  | cons data calls ih =>
    rw [writeCalls, bind_eq_ok, List.flatten_cons, ← List.append_assoc]
    constructor
    · rintro ⟨w', hw', h⟩
      obtain ⟨hdata, rfl⟩ := writeFrame_eq_ok.1 hw'
      exact (ih hdata).1 h
    · intro h
      have hdata : headerSize channelCount + (stream ++ data).length ≤ usizeMax := by
        have hall := h.1
        rw [@List.length_append _ (stream ++ data)] at hall
        omega
      exact ⟨_, writeFrame_eq_ok.2 ⟨hdata, rfl⟩, (ih hdata).2 h⟩

theorem padAudio_eq_ok {w : DffWriter} (hfits : headerSize channelCount + stream.length ≤ usizeMax) :
    (written channelCount sampleRate stream footer).padAudio = .ok w ↔
      headerSize channelCount + (padded stream).length ≤ usizeMax ∧ w = written channelCount sampleRate (padded stream) footer := by
  unfold padAudio padded padding
  have hsize : (written channelCount sampleRate stream footer).audioDataSize = stream.length := rfl
  rw [hsize]
  by_cases hodd : stream.length % 2 = 1
  · rw [if_pos hodd, if_pos hodd]
    exact writeFrame_eq_ok
  · rw [if_neg hodd, if_neg hodd, List.append_nil]
    exact ⟨fun h => ⟨hfits, (Except.ok.inj h).symm⟩, fun h => h.2 ▸ rfl⟩

theorem finish_eq_ok {file : List UInt8} (hfits : headerSize channelCount + stream.length ≤ usizeMax) :
    (written channelCount sampleRate stream footer).finish = .ok file ↔
      (fileBytes channelCount sampleRate stream (footer.getD [])).length ≤ usizeMax ∧ file = fileBytes channelCount sampleRate stream (footer.getD []) := by
  have hheader : (serializeHeader channelCount sampleRate 0).length =
      (serializeHeaderWithFooter channelCount sampleRate (padded stream).length (footer.getD []).length).length := by
    rw [serializeHeader, length_header, length_header]
  have hplaceholder : (serializeHeader channelCount sampleRate 0).length = headerSize channelCount := length_header _ _ _ _
  have hlength := length_fileBytes channelCount sampleRate stream (footer.getD [])
  have hall : (serializeHeader channelCount sampleRate 0 ++ padded stream ++ footer.getD []).length =
      (fileBytes channelCount sampleRate stream (footer.getD [])).length := by
    rw [List.length_append, List.length_append, hplaceholder, hlength]
  unfold finish
  rw [bind_eq_ok]
  constructor
  · rintro ⟨w, hw, h⟩
    obtain ⟨hpad, rfl⟩ := (padAudio_eq_ok hfits).1 hw
    unfold written at h
    dsimp only at h
    rw [writeFooter_bind_eq_ok (by rw [List.length_append, hplaceholder]; exact hpad), hall] at h
    obtain ⟨hle, h⟩ := h
    rw [← hall, List.append_assoc] at hle
    rw [List.append_assoc, OutputFile.writeAll_front hheader hle] at h
    rw [List.append_assoc] at hall
    rw [hall] at hle
    exact ⟨hle, (Except.ok.inj h).symm⟩
  · intro h
    have hle := h.1
    rw [h.2]
    refine ⟨_, (padAudio_eq_ok hfits).2 ⟨by omega, rfl⟩, ?_⟩
    unfold written
    dsimp only
    rw [writeFooter_bind_eq_ok (by rw [List.length_append, hplaceholder]; omega), hall]
    refine ⟨hle, ?_⟩
    rw [← hall, List.append_assoc] at hle
    rw [List.append_assoc, OutputFile.writeAll_front hheader hle, fileBytes]
    rfl

theorem written_withFooter (stream : List UInt8) (footer : Option (List UInt8)) :
    (written channelCount sampleRate stream none).withFooter footer = written channelCount sampleRate stream footer := by
  cases footer <;> rfl

/-- **What the writer leaves** is the file of the padded stream, when it fits. -/
theorem writeFile_eq_ok {calls : List (List UInt8)} {file : List UInt8} :
    writeFile channelCount sampleRate calls footer = .ok file ↔
      channelCount ≠ 0 ∧ (fileBytes channelCount sampleRate calls.flatten (footer.getD [])).length ≤ usizeMax ∧
        file = fileBytes channelCount sampleRate calls.flatten (footer.getD []) := by
  have hlength := length_fileBytes channelCount sampleRate calls.flatten (footer.getD [])
  have hpadded := length_padded calls.flatten
  unfold writeFile
  rw [bind_eq_ok]
  constructor
  · rintro ⟨w, hw, h⟩
    obtain ⟨hchannels, hheader, rfl⟩ := new_eq_ok.1 hw
    obtain ⟨w, hw, h⟩ := bind_eq_ok.1 h
    obtain ⟨hcalls, rfl⟩ := (@writeCalls_eq_ok _ _ [] none _ _ hheader).1 hw
    rw [List.nil_append, written_withFooter] at h
    exact ⟨hchannels, (finish_eq_ok (by rwa [List.nil_append] at hcalls)).1 h⟩
  · rintro ⟨hchannels, hfile⟩
    have hle := hfile.1
    have hheader : headerSize channelCount ≤ usizeMax := by omega
    refine ⟨_, new_eq_ok.2 ⟨hchannels, hheader, rfl⟩, ?_⟩
    rw [bind_eq_ok]
    refine ⟨_, (@writeCalls_eq_ok _ _ [] none _ _ hheader).2 ⟨by rw [List.nil_append]; omega, rfl⟩, ?_⟩
    rw [List.nil_append, written_withFooter]
    exact (finish_eq_ok (by omega)).2 hfile

/-! ## The file as chunks -/

/-- The name of the compression, after its identifier, with the zero byte that its size counts. -/
def compressionName : List UInt8 := [cmprNameLen] ++ cmprName ++ [0]

/-- The `DSD ` chunk. -/
def audioChunk (stream : List UInt8) : Chunk := chunk 'D' 'S' 'D' ' ' (padded stream)

theorem chunk_bytes_even {a b c d : Char} {data : List UInt8} {n : ℕ} (hlength : data.length = n) (heven : n % 2 = 0) :
    (chunk a b c d data).bytes = fourcc a b c d ++ (beBytes 8 n ++ data) := by
  have hpad : padding n = [] := if_neg (by omega)
  rw [Chunk.bytes, chunk_id, chunk_data, hlength, hpad, List.append_nil]

theorem propertyChunk_bytes (channelCount sampleRate : ℕ) :
    (propertyChunk sampleRate channelCount (fourcc 'D' 'S' 'D' ' ' ++ compressionName) (beBytes 2 (loudspeakerConfig channelCount))).bytes =
      fourcc 'P' 'R' 'O' 'P' ++ (beBytes 8 (4 + 16 + (chunkHeaderSize + (2 + 4 * channelCount)) + 32 + 14) ++ (fourcc 'S' 'N' 'D' ' ' ++
        ((fourcc 'F' 'S' ' ' ' ' ++ (beBytes 8 4 ++ beBytes 4 sampleRate)) ++
          ((fourcc 'C' 'H' 'N' 'L' ++ (beBytes 8 (2 + 4 * channelCount) ++ (beBytes 2 channelCount ++ (channelIds channelCount).flatten))) ++
            ((fourcc 'C' 'M' 'P' 'R' ++ (beBytes 8 20 ++ (fourcc 'D' 'S' 'D' ' ' ++ compressionName))) ++
              (fourcc 'L' 'S' 'C' 'O' ++ (beBytes 8 2 ++ beBytes 2 (loudspeakerConfig channelCount)))))))) := by
  have hids : (channelIds channelCount).flatten.length = 4 * channelCount := by
    rw [length_flatten_ids fun id hid => length_of_mem_channelIds hid, length_channelIds]
  have hname : compressionName.length = 16 := rfl
  have hchannels : (beBytes 2 channelCount ++ (channelIds channelCount).flatten).length = 2 + 4 * channelCount := by
    rw [List.length_append, length_beBytes, hids]
  have hcode : (fourcc 'D' 'S' 'D' ' ' ++ compressionName).length = 20 := rfl
  rw [propertyChunk, propertyChunks, bytesOf_cons, bytesOf_cons, bytesOf_cons, bytesOf_cons, bytesOf_nil, List.append_nil, length_channelIds,
    chunk_bytes_even (length_beBytes 4 sampleRate) rfl, chunk_bytes_even hchannels (by omega), chunk_bytes_even hcode rfl,
    chunk_bytes_even (length_beBytes 2 _) rfl]
  refine chunk_bytes_even ?_ (by rw [chunkHeaderSize]; omega)
  simp only [List.length_append, length_fourcc, length_beBytes, hids, hname, chunkHeaderSize]
  omega

theorem audioChunk_bytes (stream : List UInt8) :
    (audioChunk stream).bytes = fourcc 'D' 'S' 'D' ' ' ++ (beBytes 8 (padded stream).length ++ padded stream) := by
  have hlength := length_padded stream
  exact chunk_bytes_even rfl (by omega)

theorem isDsdiff_fileBytes {footer : List FooterChunk} (hrate : 0 < sampleRate ∧ sampleRate < 2 ^ 32)
    (hchannels : 0 < channelCount ∧ channelCount ≤ 255)
    (hlength : (fileBytes channelCount sampleRate stream (footerOf footer)).length ≤ usizeMax) :
    IsDsdiff (fileBytes channelCount sampleRate stream (footerOf footer)) sampleRate channelCount compressionName
      (beBytes 2 (loudspeakerConfig channelCount)) (audioChunk stream) (footer.map FooterChunk.toChunk) where
  layout := by
    have hversion : versionChunk.bytes = fourcc 'F' 'V' 'E' 'R' ++ (beBytes 8 4 ++ beBytes 4 0x01050000) := by
      rw [versionChunk]
      exact chunk_bytes_even (length_beBytes 4 _) rfl
    have hid : (audioChunk stream).id = fourcc 'D' 'S' 'D' ' ' := rfl
    rw [length_fileBytes, bytesOf_cons, bytesOf_cons, bytesOf_cons, hid, hversion, propertyChunk_bytes, audioChunk_bytes, fileBytes]
    unfold serializeHeaderWithFooter compressionName footerOf
    simp only [List.append_assoc, chunkHeaderSize]
  length := hlength
  rate := hrate
  channels := hchannels
  audioId := Or.inl rfl
  othersIds := by
    intro c hc
    obtain ⟨c, -, rfl⟩ := List.mem_map.1 hc
    exact c.other

/-! ## Opening the file -/

theorem visitAudio_dsd {file : List UInt8} {pos dataOffset size : ℕ} {s : DsdiffScan} (hfirst : s.audioChunkCount = 0)
    (hcount : s.sampleCountPerChannel = none) : visitAudio file idDsf pos dataOffset size s = .ok { s with
      audioChunkCount := 1
      dataChunk := some (idDsf, dataOffset, size)
      sampleCountPerChannel := none } := by
  unfold visitAudio
  rw [diagnose_of hfirst, push_nil, if_neg (show idDsf ≠ idDst by decide), hfirst]
  rw [← hcount]
  rfl

/-- The stream is samples of all the channels, so many that the reader can count their bits. -/
def WholeSamples (channelCount : ℕ) (stream : List UInt8) : Prop :=
  stream.length % channelCount = 0 ∧ stream.length / channelCount * 8 ≤ usizeMax

/-- The zero byte splits the last sample of an odd stream, unless there is one channel. -/
theorem padded_mod_eq_zero_iff (hwhole : stream.length % channelCount = 0) :
    (padded stream).length % channelCount = 0 ↔ channelCount = 1 ∨ stream.length % 2 = 0 := by
  rw [length_padded]
  rcases Nat.mod_two_eq_zero_or_one stream.length with heven | hodd
  · rw [heven, Nat.add_zero]
    exact iff_of_true hwhole (Or.inr rfl)
  · rw [hodd, Nat.add_mod, hwhole, Nat.zero_add, Nat.mod_mod]
    constructor
    · intro h
      exact Or.inl (Nat.dvd_one.1 (Nat.dvd_of_mod_eq_zero h))
    · rintro (h | h)
      · rw [h]
      · exact absurd h (by decide)

theorem dsdSampleCount_of_whole {dataOffset : ℕ} {declared : Option ℕ} (hchannels : 0 < channelCount) (h : WholeSamples channelCount stream) :
    dsdSampleCount channelCount dataOffset stream.length declared = (some (stream.length / channelCount * 8), []) := by
  unfold dsdSampleCount
  rw [if_neg (Nat.ne_of_gt hchannels), if_neg (not_not.2 h.1)]
  dsimp only
  rw [checkedMul_of_le h.2]

/-- Else the reader reports an error. -/
theorem dsdSampleCount_of_not_whole {dataOffset : ℕ} {declared : Option ℕ} (hchannels : 0 < channelCount)
    (h : ¬ WholeSamples channelCount stream) :
    ∃ message, dsdSampleCount channelCount dataOffset stream.length declared = (declared, [.error dataOffset message]) := by
  unfold dsdSampleCount
  rw [if_neg (Nat.ne_of_gt hchannels)]
  by_cases hwhole : stream.length % channelCount = 0
  · have hover : ¬ (stream.length / channelCount * 8 ≤ usizeMax) := fun hle => h ⟨hwhole, hle⟩
    rw [if_neg (not_not.2 hwhole)]
    dsimp only
    rw [checkedMul, if_neg hover]
    exact ⟨_, rfl⟩
  · rw [if_pos hwhole]
    exact ⟨_, rfl⟩

end DffWriter

/-! ## Reading the stream -/

namespace DsdDsdiffStreamReader

/-- The calls of the reader give the rest of the payload, piece by piece. -/
theorem yields_rest {file : List UInt8} {info : DsdContainerInfo} {frameBytes : ℕ} (hframe : 0 < frameBytes) (rest : List UInt8) :
    ∀ {position frameIndex : ℕ}, Holds file position rest → frameIndex + rest.length ≤ usizeMax →
      ∃ frames, Yields nextDsdFrame ⟨file, position, info, rest.length, frameBytes, frameIndex⟩ frames ∧
        frames.flatMap DsdFrame.data = rest ∧
        ∀ f ∈ frames, f.channelCount = info.channelCount ∧ f.sampleRate = info.sampleRate ∧ f.byteOrder = .msbFirst := by
  induction hn : rest.length using Nat.strong_induction_on generalizing rest with
  | h n ih =>
    intro position frameIndex h hindex
    by_cases hnil : n = 0
    · rw [hnil] at hn ⊢
      rw [List.length_eq_zero_iff.1 hn]
      have hdone : nextDsdFrame ⟨file, position, info, 0, frameBytes, frameIndex⟩ =
          .ok (none, ⟨file, position, info, 0, frameBytes, frameIndex⟩) := by
        rw [nextDsdFrame, if_pos rfl]
      exact ⟨[], .done hdone, rfl, nofun⟩
    · have htake : (rest.take (min n frameBytes)).length = min n frameBytes := by
        rw [List.length_take]
        omega
      have hdrop : (rest.drop (min n frameBytes)).length = n - min n frameBytes := by rw [List.length_drop, hn]
      rw [← List.take_append_drop (min n frameBytes) rest] at h
      have hread : (readExact file position (min n frameBytes) : Except DsdReadError (List UInt8)) = .ok (rest.take (min n frameBytes)) := by
        have hexact := @readExact_of_holds DsdReadError _ _ _ _ h.left
        rwa [htake] at hexact
      have hright := h.right
      rw [htake] at hright
      obtain ⟨frames, hyields, hdata, hformat⟩ := ih (n - min n frameBytes) (by omega) (rest.drop (min n frameBytes)) hdrop hright
        (show frameIndex + 1 + (n - min n frameBytes) ≤ usizeMax by omega)
      have hnext : nextDsdFrame ⟨file, position, info, n, frameBytes, frameIndex⟩ = .ok (some {
          frameIndex
          data := rest.take (min n frameBytes)
          channelCount := info.channelCount
          sampleRate := info.sampleRate
          byteOrder := .msbFirst
          isFinal := n - min n frameBytes = 0 }, ⟨file, position + min n frameBytes, info, n - min n frameBytes, frameBytes, frameIndex + 1⟩) := by
        unfold nextDsdFrame
        rw [if_neg hnil]
        dsimp only [bind, Except.bind]
        rw [hread]
        dsimp only
        rw [checkedAdd_of_le (by omega), orError_some]
        rfl
      refine ⟨_, .more hnext hyields, ?_, ?_⟩
      · rw [List.flatMap_cons, hdata]
        exact List.take_append_drop _ _
      · intro f hf
        rcases List.mem_cons.1 hf with rfl | hf
        · exact ⟨rfl, rfl, rfl⟩
        · exact hformat f hf

end DsdDsdiffStreamReader

theorem yields_dsdiffDsd {reader : DsdDsdiffStreamReader} {frames : List DsdFrame} (h : Yields DsdDsdiffStreamReader.nextDsdFrame reader frames) :
    Yields DsdDecodedFileReader.nextDsdFrame (.dsdiffDsd reader) frames := by
  have hlift : ∀ {r r' : DsdDsdiffStreamReader} {frame : Option DsdFrame}, r.nextDsdFrame = .ok (frame, r') →
      (DsdDecodedFileReader.dsdiffDsd r).nextDsdFrame = .ok (frame, .dsdiffDsd r') := by
    intro r r' frame hnext
    rw [DsdDecodedFileReader.nextDsdFrame, hnext]
    rfl
  induction h with
  | done hnext => exact .done (hlift hnext)
  | more hnext _ ih => exact .more (hlift hnext) ih

theorem openDecoded_dsdiff {file : List UInt8} {info : DsdContainerInfo} (hmagic : Holds file 0 (fourcc 'F' 'R' 'M' '8'))
    (hinspect : inspectDsdiff file = .ok info) (hformat : info.format = .dsdiff) (hcompression : info.compression = .dsd) :
    openDsdAsDecodedReader file = DsdDecodedFileReader.dsdiffDsd <$> DsdDsdiffStreamReader.new file := by
  have hmagic : (readFourcc file 0 : Except DsdContainerError (List UInt8)) = .ok idFrm8 := readFourcc_of_holds hmagic rfl
  have hcontainer : inspectDsdContainer file = .ok info := by
    rw [inspectDsdContainer, hmagic]
    dsimp only [bind, Except.bind]
    rw [if_neg (show idFrm8 ≠ idDsf by decide), if_pos rfl, hinspect]
  unfold openDsdAsDecodedReader openDsdFile
  rw [hcontainer]
  dsimp only [inspected, Except.mapError, bind, Except.bind]
  rw [hformat, hcompression]
  dsimp only
  cases DsdDsdiffStreamReader.new file <;> rfl

namespace DffWriter

/-! ## The round trip -/

/-- The reader of a file gives a stream, and the file says of itself what it is. -/
structure ReadsStream (channelCount sampleRate : ℕ) (stream : List UInt8) (reader : DsdDecodedFileReader) (frames : List DsdFrame) : Prop where
  clean : reader.info.diagnostics = []
  format : reader.info.channelCount = channelCount ∧ reader.info.sampleRate = sampleRate
  samples : reader.info.sampleCountPerChannel = some (stream.length / channelCount * 8)
  yields : Yields DsdDecodedFileReader.nextDsdFrame reader frames
  payload : frames.flatMap DsdFrame.data = stream
  frameFormat : ∀ f ∈ frames, f.channelCount = channelCount ∧ f.sampleRate = sampleRate ∧ f.byteOrder = .msbFirst

section
variable {channelCount sampleRate : ℕ} {stream file lsco : List UInt8} {others : List Chunk}

/-- A reader of the payload, from its start. -/
theorem new_of_inspected {info : DsdContainerInfo} (hinspect : inspectDsdiff file = .ok info) (hclean : info.diagnostics = [])
    (hkind : info.compression = .dsd ∧ info.format = .dsdiff) (hcode : info.dsdiffCmprCode = some idDsf)
    (hchannels : 0 < info.channelCount ∧ info.channelCount ≤ 255) (hwhole : info.dataSize % info.channelCount = 0) :
    DsdDsdiffStreamReader.new file = .ok ⟨file, info.dataOffset, info, info.dataSize, 4704 * info.channelCount, 0⟩ := by
  have hreject : rejectErrorDiagnostics info.diagnostics = .ok () := by
    rw [hclean]
    rfl
  have hrequired : DsdDsdiffStreamReader.requireDsdCode info.dsdiffCmprCode = .ok () := by
    rw [hcode]
    exact ensure_of rfl
  have hnonzero : nonzeroChannelCount info = .ok info.channelCount := by
    rw [nonzeroChannelCount, if_neg (Nat.ne_of_gt hchannels.1)]
  have hdefault : checkedMul defaultDsdiffDsdFrameBytesPerChannel info.channelCount = some (4704 * info.channelCount) := by
    have hmax : usizeMax = 18446744073709551615 := rfl
    rw [defaultDsdiffDsdFrameBytesPerChannel]
    exact checkedMul_of_le (by omega)
  have hframe : 4704 * info.channelCount ≠ 0 := by omega
  have hsplit : 4704 * info.channelCount % info.channelCount = 0 := Nat.mul_mod_left _ _
  unfold DsdDsdiffStreamReader.new DsdDsdiffStreamReader.withFrameBytes
  rw [hinspect]
  simp only [inspected, Except.mapError, bind, Except.bind, hreject, ensure_of hkind, hrequired, hnonzero, ensure_of hwhole, hdefault,
    orError_some, if_pos, ensure_of hframe, ensure_of hsplit]
  rfl

theorem readsStream_of_whole
    (h : IsDsdiff file sampleRate channelCount compressionName lsco (audioChunk stream) others)
    (hwhole : WholeSamples channelCount (padded stream)) :
    ∃ reader frames, openDsdAsDecodedReader file = .ok reader ∧ ReadsStream channelCount sampleRate (padded stream) reader frames := by
  have hchannels := h.channels
  have hfile := h.length
  have haudio := holds_data h.holds_audio.left
  have hle := haudio.le_length
  have hinspect := @IsDsdiff.inspect _ _ _ _ _ _ _ none (some ((padded stream).length / channelCount * 8)) h
    [] (fun s hfirst _ hcount => visitAudio_dsd hfirst hcount) (dsdSampleCount_of_whole hchannels.1 hwhole)
  generalize audioPos sampleRate channelCount ((audioChunk stream).id ++ compressionName) lsco = pos at *
  obtain ⟨info, hinfo, hoffset, hsize, hfields⟩ : ∃ info, inspectDsdiff file = .ok info ∧ info.dataOffset = pos + 12 ∧
      info.dataSize = (padded stream).length ∧ info.diagnostics = [] ∧ info.channelCount = channelCount ∧
      info.sampleRate = sampleRate ∧ info.sampleCountPerChannel = some ((padded stream).length / channelCount * 8) ∧
      info.compression = .dsd ∧ info.format = .dsdiff ∧ info.dsdiffCmprCode = some idDsf :=
    ⟨_, hinspect, rfl, rfl, rfl, rfl, rfl, rfl, rfl, rfl, rfl⟩
  obtain ⟨hclean, hcount, hrate, hsamples, hcompression, hformat, hcode⟩ := hfields
  have hnew := new_of_inspected hinfo hclean ⟨hcompression, hformat⟩ hcode (by rwa [hcount]) (by rw [hsize, hcount]; exact hwhole.1)
  rw [hsize, hoffset] at hnew
  obtain ⟨frames, hyields, hpayload, hframes⟩ := @DsdDsdiffStreamReader.yields_rest file info (4704 * info.channelCount) (by omega)
    (padded stream) (pos + 12) 0 haudio (by rw [audioChunk, chunk_data] at hle; omega)
  rw [hcount, hrate] at hframes
  refine ⟨.dsdiffDsd ⟨file, pos + 12, info, (padded stream).length, 4704 * info.channelCount, 0⟩, frames, ?_, {
    clean := hclean
    format := ⟨hcount, hrate⟩
    samples := hsamples
    yields := yields_dsdiffDsd hyields
    payload := hpayload
    frameFormat := hframes }⟩
  rw [openDecoded_dsdiff h.holds_front.left hinfo hformat hcompression, hnew]
  rfl

theorem not_opened_of_not_whole
    (h : IsDsdiff file sampleRate channelCount compressionName lsco (audioChunk stream) others)
    (hwhole : ¬ WholeSamples channelCount (padded stream)) (reader : DsdDecodedFileReader) : openDsdAsDecodedReader file ≠ .ok reader := by
  obtain ⟨message, hreport⟩ := @dsdSampleCount_of_not_whole channelCount (padded stream)
    (audioPos sampleRate channelCount ((audioChunk stream).id ++ compressionName) lsco + 12) none h.channels.1 hwhole
  have hinspect := @IsDsdiff.inspect _ _ _ _ _ _ _ none none h _ (fun s hfirst _ hcount => visitAudio_dsd hfirst hcount) hreport
  rw [openDecoded_dsdiff h.holds_front.left hinspect rfl rfl]
  unfold DsdDsdiffStreamReader.new DsdDsdiffStreamReader.withFrameBytes
  rw [hinspect]
  exact nofun

end

/-- **Round trip.** The writer takes every stream that fits, and its file is opened exactly when the stream with its zero byte is samples of all
the channels: then the reader gives that stream, and has nothing to report. Of an odd number of bytes the zero byte makes another sample for one
channel only. -/
theorem writtenStream_readsBack_iff (channelCount sampleRate : ℕ) (calls : List (List UInt8)) (footer : Option (List FooterChunk))
    (hchannels : channelCount ≤ 255) (hrate : 0 < sampleRate ∧ sampleRate < 2 ^ 32) :
    ((∃ file, writeFile channelCount sampleRate calls (footer.map footerOf) = .ok file) ↔
      channelCount ≠ 0 ∧ headerSize channelCount + (padded calls.flatten).length + (footerOf (footer.getD [])).length ≤ usizeMax) ∧
    ∀ file, writeFile channelCount sampleRate calls (footer.map footerOf) = .ok file →
      ((∃ reader, openDsdAsDecodedReader file = .ok reader) ↔ WholeSamples channelCount (padded calls.flatten)) ∧
      (calls.flatten.length % channelCount = 0 → channelCount ≠ 1 → calls.flatten.length % 2 = 1 →
        ¬ ∃ reader, openDsdAsDecodedReader file = .ok reader) ∧
      ∀ reader, openDsdAsDecodedReader file = .ok reader →
        ∃ frames, ReadsStream channelCount sampleRate (padded calls.flatten) reader frames := by
  have hfooter : (footer.map footerOf).getD [] = footerOf (footer.getD []) := by cases footer <;> rfl
  have hwritten : ∀ {file : List UInt8}, writeFile channelCount sampleRate calls (footer.map footerOf) = .ok file ↔
      channelCount ≠ 0 ∧ (fileBytes channelCount sampleRate calls.flatten (footerOf (footer.getD []))).length ≤ usizeMax ∧
        file = fileBytes channelCount sampleRate calls.flatten (footerOf (footer.getD [])) := by
    rw [← hfooter]
    exact writeFile_eq_ok
  rw [← length_fileBytes channelCount sampleRate]
  constructor
  · constructor
    · rintro ⟨file, h⟩
      exact ⟨(hwritten.1 h).1, (hwritten.1 h).2.1⟩
    · rintro ⟨hpos, hle⟩
      exact ⟨_, hwritten.2 ⟨hpos, hle, rfl⟩⟩
  · intro file h
    obtain ⟨hpos, hle, hfile⟩ := hwritten.1 h
    have hshape := isDsdiff_fileBytes hrate ⟨Nat.pos_of_ne_zero hpos, hchannels⟩ hle
    rw [← hfile] at hshape
    have hiff : (∃ reader, openDsdAsDecodedReader file = .ok reader) ↔ WholeSamples channelCount (padded calls.flatten) := by
      constructor
      · rintro ⟨reader, hopen⟩
        by_contra hwhole
        exact not_opened_of_not_whole hshape hwhole reader hopen
      · intro hwhole
        obtain ⟨reader, -, hopen, -⟩ := readsStream_of_whole hshape hwhole
        exact ⟨reader, hopen⟩
    refine ⟨hiff, ?_, ?_⟩
    · intro hwhole hseveral hodd hopened
      have hsplit := (padded_mod_eq_zero_iff hwhole).1 (hiff.1 hopened).1
      omega
    · intro reader hopen
      obtain ⟨reader', frames, hopen', hreads⟩ := readsStream_of_whole hshape (hiff.1 ⟨reader, hopen⟩)
      rw [hopen] at hopen'
      exact ⟨frames, Except.ok.inj hopen' ▸ hreads⟩

/-- A mono stream comes back with the zero byte, a sample of three channels is lost. -/
theorem oddStreams_readBack :
    (∃ file reader frames, writeFile 1 2822400 [[105]] none = .ok file ∧ openDsdAsDecodedReader file = .ok reader ∧
      ReadsStream 1 2822400 [105, 0] reader frames) ∧
    ∃ file, writeFile 3 2822400 [[105, 105], [105]] none = .ok file ∧ ¬ ∃ reader, openDsdAsDecodedReader file = .ok reader := by
  obtain ⟨hmono, hmonoFile⟩ := writtenStream_readsBack_iff 1 2822400 [[105]] none (by decide) (by decide)
  obtain ⟨hthree, hthreeFile⟩ := writtenStream_readsBack_iff 3 2822400 [[105, 105], [105]] none (by decide) (by decide)
  obtain ⟨file, hfile⟩ := hmono.2 (by decide)
  obtain ⟨hopened, -, hreads⟩ := hmonoFile file hfile
  obtain ⟨reader, hreader⟩ := hopened.2 ⟨rfl, by decide⟩
  obtain ⟨frames, hframes⟩ := hreads reader hreader
  obtain ⟨refused, hrefused⟩ := hthree.2 (by decide)
  exact ⟨⟨file, reader, frames, hfile, hreader, hframes⟩, refused, hrefused, (hthreeFile refused hrefused).2.1 rfl (by decide) rfl⟩

end DffWriter

end Container
