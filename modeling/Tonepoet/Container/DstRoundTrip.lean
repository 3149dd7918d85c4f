import Tonepoet.Container.ChunkReading
import Tonepoet.Container.DstLayout

/-!
# DSDIFF/DST files come back

The reader finds the frames in the file the writer leaves, with their checksums and an index that points at them.
-/

namespace Container

open Rust ByteFile ChunkFile Dst DffDstWriter

/-! ## The file as chunks -/

/-- The `DST ` chunk. -/
def dstChunk (frames : List (List UInt8 × List UInt8)) : Chunk :=
  chunk 'D' 'S' 'T' ' ' (bytesOf (frteChunk frames.length :: bodyChunks frames))

section
variable {channelCount sampleRate : ℕ} {frames : List (List UInt8 × List UInt8)} {footer : List FooterChunk} {file : List UInt8}

theorem length_frteChunk (count : ℕ) : (frteChunk count).bytes.length = 18 := by
  rw [frteChunk_bytes]
  simp only [List.length_append, length_fourcc, length_beBytes]

theorem dstChunk_size (frames : List (List UInt8 × List UInt8)) : (dstChunk frames).data.length = dstSize frames := by
  rw [dstChunk, chunk_data, bytesOf_cons, List.length_append, length_frteChunk, dstSize]

theorem dstChunk_bytes (frames : List (List UInt8 × List UInt8)) : (dstChunk frames).bytes = dstBytes (dstSize frames) frames.length frames := by
  have heven : ¬ ((dstChunk frames).data.length % 2 = 1) := by
    have h := bytesOf_even (frteChunk frames.length :: bodyChunks frames)
    rw [dstChunk, chunk_data]
    omega
  rw [Chunk.bytes, padding, if_neg heven, List.append_nil, dstChunk_size, dstBytes, dstChunk, chunk_id, chunk_data, bytesOf_cons]

theorem isDsdiff_fileBytes (hrate : 0 < sampleRate ∧ sampleRate < 2 ^ 32) (hchannels : 0 < channelCount ∧ channelCount ≤ 6)
    (hlength : fileLength channelCount frames (footerOf footer) ≤ usizeMax) :
    IsDsdiff (fileBytes channelCount sampleRate frames (footerOf footer)) sampleRate channelCount compressionName
      (beBytes 2 (loudspeakerConfig channelCount)) (dstChunk frames) (dstiChunk frames :: footer.map FooterChunk.toChunk) where
  layout := by
    rw [length_fileBytes, bytesOf_cons, bytesOf_cons, bytesOf_cons, bytesOf_cons, dstChunk_bytes, fileBytes, frontBytes]
    simp only [List.append_assoc]
    rfl
  length := by rwa [length_fileBytes]
  rate := hrate
  channels := ⟨hchannels.1, by omega⟩
  audioId := Or.inr rfl
  othersIds := by
    intro c hc
    rcases List.mem_cons.1 hc with rfl | hc
    · exact show fourcc 'D' 'S' 'T' 'I' ∉ topLevelIds by decide
    · obtain ⟨c, -, rfl⟩ := List.mem_map.1 hc
      exact c.other

end

/-! ## The inspection -/

section
variable {file : List UInt8} {pos count sampleRate : ℕ} {body : List UInt8}

/-- The frame count is read off the first subchunk. -/
theorem parseDstFrameCount_of_holds (hfile : file.length ≤ usizeMax) (h : Holds file pos ((frteChunk count).bytes ++ body))
    (hcount : count < 2 ^ 32) (hrate : sampleRate < 2 ^ 32) (hmultiple : sampleRate % 75 = 0) :
    parseDstFrameCount file pos ((frteChunk count).bytes ++ body).length (some sampleRate) = .ok (some (count * (sampleRate / 75)), []) := by
  have hle := h.le_length
  have hlength := length_frteChunk count
  have hdata := holds_data h.left
  have hmax : usizeMax = 18446744073709551615 := rfl
  have hframes : (readU32Be file (pos + 12) : Except DsdContainerError ℕ) = .ok count := readU32Be_of_holds hdata.left (by omega)
  have hframeRate : (readU16Be file (pos + 12 + 4) : Except DsdContainerError ℕ) = .ok 75 := by
    have hright := hdata.right
    rw [length_beBytes] at hright
    exact readU16Be_of_holds hright (by decide)
  have hsamples : checkedMul count (sampleRate / 75) = some (count * (sampleRate / 75)) := by
    have hdiv : sampleRate / 75 ≤ 2 ^ 32 := (Nat.div_le_self _ _).trans hrate.le
    have hprod : count * (sampleRate / 75) ≤ (2 ^ 32 - 1) * 2 ^ 32 := Nat.mul_le_mul (by omega) hdiv
    exact checkedMul_of_le (hprod.trans (by decide))
  have hderive : deriveDstSampleCountFromFrte count sampleRate 75 (pos + 12) = (some (count * (sampleRate / 75)), []) := by
    unfold deriveDstSampleCountFromFrte
    rw [if_neg (by decide), diagnose_of hmultiple]
    dsimp only
    rw [hsamples]
  have hvisit : visitFrameCount file (pos + ((frteChunk count).bytes ++ body).length) (some sampleRate) pos ((frteChunk count).header pos) none =
      .ok (.stop (some (some (count * (sampleRate / 75)), []))) := by
    have hsize : (frteChunk count).data.length = 6 := rfl
    have hinside : ¬ (pos + 12 + (frteChunk count).data.length > pos + ((frteChunk count).bytes ++ body).length) := by
      rw [List.length_append]
      omega
    have hlarge : ¬ ((frteChunk count).data.length < 6) := by omega
    unfold visitFrameCount
    simp only [Chunk.header, if_neg hinside, if_pos (show (frteChunk count).id = idFrte from rfl), if_neg hlarge, chunkHeaderSize, hframes,
      bind, Except.bind, hframeRate, diagnose_of (show 75 = dstFrameRate from rfl), hderive]
    rfl
  rw [parseDstFrameCount, checkedAdd_of_le (by omega), orError_some]
  dsimp only [bind, Except.bind]
  rw [scan_stop (by rw [List.length_append]; omega) (readChunkHeader_of_holds hfile h.left) hvisit]
  rfl

theorem visitAudio_dst {s : DsdiffScan} (hfile : file.length ≤ usizeMax) (h : Holds file (pos + 12) ((frteChunk count).bytes ++ body))
    (hcount : count < 2 ^ 32) (hrate : sampleRate < 2 ^ 32) (hmultiple : sampleRate % 75 = 0) (hfirst : s.audioChunkCount = 0)
    (hsampleRate : s.sampleRate = some sampleRate) :
    visitAudio file idDst pos (pos + 12) ((frteChunk count).bytes ++ body).length s = .ok { s with
      audioChunkCount := 1
      dataChunk := some (idDst, pos + 12, ((frteChunk count).bytes ++ body).length)
      sampleCountPerChannel := some (count * (sampleRate / 75)) } := by
  unfold visitAudio
  rw [diagnose_of hfirst, push_nil, if_pos rfl, hsampleRate, parseDstFrameCount_of_holds hfile h hcount hrate hmultiple, hfirst]
  dsimp only [bind, Except.bind]
  rw [push_nil]
  rfl

end

/-! ## The scan of the frames -/

/-- What the scan finds, from an offset on. -/
def framesFrom : ℕ → List (List UInt8 × List UInt8) → List DstFrameDescriptor
  | _, [] => []
  | pos, frame :: frames =>
    ⟨pos, pos + 12, frame.1.length, (chunk 'D' 'S' 'T' 'F' frame.1).bytes.length, some (dstFrameCrc frame.2).toNat⟩ ::
      framesFrom (pos + (bytesOf (frameChunks frame)).length) frames

theorem length_framesFrom : ∀ (pos : ℕ) (frames : List (List UInt8 × List UInt8)), (framesFrom pos frames).length = frames.length
  | _, [] => rfl
  | _, _ :: frames => congrArg Nat.succ (length_framesFrom _ frames)

theorem bodyChunks_cons (frame : List UInt8 × List UInt8) (frames : List (List UInt8 × List UInt8)) :
    bytesOf (bodyChunks (frame :: frames)) = bytesOf (frameChunks frame) ++ bytesOf (bodyChunks frames) := by
  rw [bodyChunks, List.flatMap_cons, bytesOf_append, ← bodyChunks]

theorem frameChunks_bytes (frame : List UInt8 × List UInt8) : bytesOf (frameChunks frame) =
    (chunk 'D' 'S' 'T' 'F' frame.1).bytes ++ (chunk 'D' 'S' 'T' 'C' (beBytes 4 (dstFrameCrc frame.2).toNat)).bytes := by
  rw [frameChunks, bytesOf_cons, bytesOf_cons, bytesOf_nil, List.append_nil]

theorem chunkTotal_of_le {n : ℕ} (h : 12 + n + n % 2 ≤ usizeMax) : chunkTotal n = .ok (12 + n + n % 2) := by
  rw [chunkTotal, checkedAdd_of_le (by omega), Option.bind_some, checkedAdd_of_le (by rw [chunkHeaderSize]; omega), chunkHeaderSize, orError_some]
  exact congrArg Except.ok (by omega)

theorem checkedAddAt_of_le {a b : ℕ} {reason : String} (h : a + b ≤ usizeMax) : checkedAddAt a b reason = .ok (a + b) := by
  rw [checkedAddAt, checkedAdd_of_le h, orError_some]

section
variable {file : List UInt8} {pos stop : ℕ} {c : Chunk} {s : DstScan} {found : List DstFrameDescriptor}

theorem visitDstSubchunk_of_holds (h : Holds file pos c.bytes) (hstop : pos + c.bytes.length ≤ stop) (hcrc : ¬ (c.id = idDstc ∧ c.data.length ≠ 4)) :
    visitDstSubchunk file stop pos (c.header pos) s = .next <$> visitFrameChunk file pos (c.header pos) s := by
  have hlength := c.length_bytes
  have hpayload : pos + 12 + c.data.length ≤ stop := by omega
  have hinside : (c.header pos).payloadEnd ≤ stop ∧ (c.header pos).next ≤ stop := ⟨hpayload, hstop⟩
  have hcrc : ¬ ((c.header pos).id = idDstc ∧ (c.header pos).size ≠ 4) := hcrc
  have hpad : validateStreamZeroPadByte file (c.header pos).payloadEnd (c.header pos).size stop pos "DST subchunk" = .ok () :=
    validateStreamZeroPadByte_of_holds h hstop
  unfold visitDstSubchunk
  simp only [ensure_of hinside, ensure_of hcrc, hpad, bind, Except.bind]

theorem visitDstSubchunk_frte {count : ℕ} (h : Holds file pos (frteChunk count).bytes) (hstop : pos + (frteChunk count).bytes.length ≤ stop) :
    visitDstSubchunk file stop pos ((frteChunk count).header pos) ⟨[], none, false⟩ = .ok (.next ⟨[], none, true⟩) := by
  have hid : ((frteChunk count).header pos).id = idFrte := rfl
  have hsize : 6 ≤ ((frteChunk count).header pos).size := Nat.le_refl 6
  rw [visitDstSubchunk_of_holds h hstop (fun hid => absurd hid.1 (show fourcc 'F' 'R' 'T' 'E' ≠ idDstc by decide))]
  unfold visitFrameChunk
  simp only [if_pos hid, ensure_of hsize, bind, Except.bind]
  rfl

theorem visitDstSubchunk_dstf {payload : List UInt8} (h : Holds file pos (chunk 'D' 'S' 'T' 'F' payload).bytes)
    (hstop : pos + (chunk 'D' 'S' 'T' 'F' payload).bytes.length ≤ stop) (hindexed : (chunk 'D' 'S' 'T' 'F' payload).bytes.length < 2 ^ 32) :
    visitDstSubchunk file stop pos ((chunk 'D' 'S' 'T' 'F' payload).header pos) ⟨found, none, true⟩ =
      .ok (.next ⟨found, some ⟨pos, pos + 12, payload.length, (chunk 'D' 'S' 'T' 'F' payload).bytes.length, none⟩, true⟩) := by
  have hlength := (chunk 'D' 'S' 'T' 'F' payload).length_bytes
  have hmax : usizeMax = 18446744073709551615 := rfl
  rw [chunk_data] at hlength
  rw [hlength] at hindexed
  rw [visitDstSubchunk_of_holds h hstop (fun hid => absurd hid.1 (show fourcc 'D' 'S' 'T' 'F' ≠ idDstc by decide))]
  unfold visitFrameChunk
  simp only [Chunk.header, chunk_id, chunk_data, if_neg (show fourcc 'D' 'S' 'T' 'F' ≠ idFrte by decide),
    if_pos (show fourcc 'D' 'S' 'T' 'F' = idDstf from rfl), ensure_of, bind, Except.bind]
  rw [chunkTotal_of_le (by omega)]
  dsimp only
  rw [ensure_of hindexed, hlength, Option.toList_none, List.append_nil]
  rfl

theorem visitDstSubchunk_dstc {crc : UInt32} {desc : DstFrameDescriptor} (h : Holds file pos (chunk 'D' 'S' 'T' 'C' (beBytes 4 crc.toNat)).bytes)
    (hstop : pos + (chunk 'D' 'S' 'T' 'C' (beBytes 4 crc.toNat)).bytes.length ≤ stop) :
    visitDstSubchunk file stop pos ((chunk 'D' 'S' 'T' 'C' (beBytes 4 crc.toNat)).header pos) ⟨found, some desc, true⟩ =
      .ok (.next ⟨found ++ [{ desc with dstc := some crc.toNat }], none, true⟩) := by
  have hread : (readU32Be file (pos + 12) : Except DsdReadError ℕ) = .ok crc.toNat := readU32Be_of_holds (holds_data h) crc.toNat_lt
  rw [visitDstSubchunk_of_holds h hstop (fun hid => hid.2 rfl)]
  unfold visitFrameChunk
  simp only [Chunk.header, chunk_id, if_neg (show fourcc 'D' 'S' 'T' 'C' ≠ idFrte by decide),
    if_neg (show fourcc 'D' 'S' 'T' 'C' ≠ idDstf by decide), if_pos (show fourcc 'D' 'S' 'T' 'C' = idDstc from rfl), chunkHeaderSize, hread,
    orError_some, bind, Except.bind]
  rfl

/-- A frame after another, each with its checksum. -/
theorem scan_frames {header : (pos : ℕ) → Except DsdReadError (Header pos)}
    (hheader : ∀ {pos : ℕ} {c : Chunk}, Holds file pos c.bytes → header pos = .ok (c.header pos)) :
    ∀ {frames : List (List UInt8 × List UInt8)} {pos : ℕ} {found : List DstFrameDescriptor}, Holds file pos (bytesOf (bodyChunks frames)) →
      pos + (bytesOf (bodyChunks frames)).length ≤ stop →
      (∀ frame ∈ frames, (chunk 'D' 'S' 'T' 'F' frame.1).bytes.length < 2 ^ 32) →
      scan header (visitDstSubchunk file stop) stop pos ⟨found, none, true⟩ =
        scan header (visitDstSubchunk file stop) stop (pos + (bytesOf (bodyChunks frames)).length) ⟨found ++ framesFrom pos frames, none, true⟩ := by
  intro frames
  induction frames with
  | nil =>
    intro pos found _ _ _
    rw [framesFrom, List.append_nil]
    rfl
  | cons frame frames ih =>
    intro pos found h hstop hindexed
    rw [bodyChunks_cons, List.length_append] at hstop ⊢
    rw [bodyChunks_cons] at h
    have hframe := h.left
    have hrest := h.right
    have hlength := congrArg List.length (frameChunks_bytes frame)
    rw [List.length_append] at hlength
    rw [frameChunks_bytes] at hframe
    rw [scan_next (by omega) (hheader hframe.left) (visitDstSubchunk_dstf hframe.left (by omega) (hindexed frame List.mem_cons_self)),
      scan_next (by omega) (hheader hframe.right) (visitDstSubchunk_dstc hframe.right (by omega)), Nat.add_assoc, ← hlength,
      ih hrest (by omega) fun f hf => hindexed f (List.mem_cons_of_mem _ hf), framesFrom, List.append_assoc, Nat.add_assoc]
    rfl

end

/-! ## The frame count and the index -/

section
variable {file body : List UInt8} {pos count : ℕ}

theorem parseFrteFrameCount_of_holds (hfile : file.length ≤ usizeMax) (h : Holds file pos ((frteChunk count).bytes ++ body))
    (hcount : count < 2 ^ 32) : parseFrteFrameCount file pos (pos + ((frteChunk count).bytes ++ body).length) = .ok count := by
  have hid : ((frteChunk count).header pos).id = idFrte := rfl
  have hsize : 6 ≤ ((frteChunk count).header pos).size := Nat.le_refl 6
  have hread : (readU32Be file (pos + 12) : Except DsdReadError ℕ) = .ok count := readU32Be_of_holds (holds_data h.left).left (by omega)
  have hvisit : parseFrteFrameCount.visit file pos ((frteChunk count).header pos) none = .ok (.stop (some count)) := by
    unfold parseFrteFrameCount.visit
    simp only [if_pos hid, ensure_of hsize, chunkHeaderSize, hread, bind, Except.bind]
    rfl
  rw [parseFrteFrameCount, scan_stop (by rw [List.length_append]; omega) (readSubchunkHeader_of_holds hfile h.left) hvisit]
  rfl

/-- The entry of the index for a frame is what the file says. -/
theorem validateDstiEntry_of_holds {dataOffset payloadOffset idx offset : ℕ} {payload : List UInt8} {desc : DstFrameDescriptor}
    (hfile : file.length ≤ usizeMax)
    (hentry : Holds file (payloadOffset + 12 * idx) (beBytes 8 offset ++ beBytes 4 (chunk 'D' 'S' 'T' 'F' payload).bytes.length))
    (hchunk : Holds file (dataOffset + offset) (chunk 'D' 'S' 'T' 'F' payload).bytes)
    (hindexed : (chunk 'D' 'S' 'T' 'F' payload).bytes.length < 2 ^ 32) (hoffset : desc.chunkOffset = dataOffset + offset)
    (hsize : desc.physicalChunkSize = (chunk 'D' 'S' 'T' 'F' payload).bytes.length) :
    validateDstiEntry file dataOffset payloadOffset idx desc = .ok () := by
  have hle := hchunk.le_length
  have hentryLe := hentry.le_length
  have hlength := (chunk 'D' 'S' 'T' 'F' payload).length_bytes
  rw [chunk_data] at hlength
  have hmax : usizeMax = 18446744073709551615 := rfl
  have hright := Holds.right hentry
  rw [length_beBytes] at hright
  have hmul : checkedMul idx 12 = some (12 * idx) := by
    rw [checkedMul_of_le (by omega)]
    exact congrArg some (Nat.mul_comm _ _)
  have hoffsetRead : (readU64Be file (payloadOffset + 12 * idx) : Except DsdReadError ℕ) = .ok offset :=
    readU64Be_of_holds hentry.left (by omega)
  have hsizeRead : (readU32Be file (payloadOffset + 12 * idx + 8) : Except DsdReadError ℕ) = .ok (chunk 'D' 'S' 'T' 'F' payload).bytes.length :=
    readU32Be_of_holds hright (by omega)
  have hsub : checkedSub desc.chunkOffset dataOffset = some offset := by
    rw [hoffset, checkedSub_of_le (Nat.le_add_right _ _), Nat.add_sub_cancel_left]
  have hid : (readFourcc file (dataOffset + offset) : Except DsdReadError (List UInt8)) = .ok idDstf :=
    readFourcc_of_holds (holds_id hchunk) rfl
  have hsizeField := holds_size hchunk
  rw [chunk_data] at hsizeField
  have hpayload : (readU64Be file (dataOffset + offset + 4) : Except DsdReadError ℕ) = .ok payload.length :=
    readU64Be_of_holds hsizeField (by omega)
  have hentryAt : payloadOffset + 12 * idx ≤ usizeMax := by omega
  have hchunkAt : dataOffset + offset ≤ usizeMax := by omega
  unfold validateDstiEntry
  rw [hmul, hsub, hsize]
  simp only [orError_some, checkedAddAt_of_le hentryAt, checkedAddAt_of_le hchunkAt, hoffsetRead, hsizeRead, ensure_of trivial, hid, hpayload,
    bind, Except.bind]
  rw [chunkTotal_of_le (by omega)]
  dsimp only
  rw [ensure_of hlength.symm]

/-- All the entries. -/
theorem validateDstiEntries_of_holds {dataOffset payloadOffset : ℕ} (hfile : file.length ≤ usizeMax) :
    ∀ {frames : List (List UInt8 × List UInt8)} {offset idx : ℕ},
      Holds file (payloadOffset + 12 * idx) (indexBytes (indexEntries offset frames)) →
      Holds file (dataOffset + offset) (bytesOf (bodyChunks frames)) →
      (∀ frame ∈ frames, (chunk 'D' 'S' 'T' 'F' frame.1).bytes.length < 2 ^ 32) →
      validateDstiEntries file dataOffset payloadOffset idx (framesFrom (dataOffset + offset) frames) = .ok () := by
  intro frames
  induction frames with
  | nil => exact fun _ _ _ => rfl
  | cons frame frames ih =>
    intro offset idx hindex hbody hindexed
    rw [bodyChunks_cons] at hbody
    have hframe := hbody.left
    have hrest := hbody.right
    rw [frameChunks_bytes] at hframe
    rw [indexEntries, indexBytes, List.flatMap_cons] at hindex
    have hmore := hindex.right
    simp only [List.length_append, length_beBytes] at hmore
    rw [framesFrom, validateDstiEntries, validateDstiEntry_of_holds hfile hindex.left hframe.left (hindexed frame List.mem_cons_self) rfl rfl]
    rw [Nat.add_assoc, show 12 * idx + (8 + 4) = 12 * (idx + 1) by omega] at hmore
    rw [Nat.add_assoc] at hrest
    have hrestEntries := ih hmore hrest fun f hf => hindexed f (List.mem_cons_of_mem _ hf)
    rwa [← Nat.add_assoc] at hrestEntries

theorem length_indexBytes (entries : List (ℕ × ℕ)) : (indexBytes entries).length = 12 * entries.length := by
  induction entries with
  | nil => rfl
  | cons entry entries ih =>
    rw [indexBytes] at ih ⊢
    rw [List.flatMap_cons, List.length_append, List.length_append, length_beBytes, length_beBytes, ih, List.length_cons]
    omega

section
variable {frames : List (List UInt8 × List UInt8)} {info : DsdContainerInfo} (hfile : file.length ≤ usizeMax)
  (hdata : Holds file info.dataOffset ((frteChunk frames.length).bytes ++ bytesOf (bodyChunks frames)))
  (hsize : info.dataSize = ((frteChunk frames.length).bytes ++ bytesOf (bodyChunks frames)).length)
  (hindex : Holds file (info.dataOffset + info.dataSize) (dstiChunk frames).bytes)
  (hindexed : ∀ frame ∈ frames, (chunk 'D' 'S' 'T' 'F' frame.1).bytes.length < 2 ^ 32)
include hfile hdata hsize hindex hindexed

/-- The index stands right behind the frames and agrees with them. -/
theorem validateDstiIfPresent_of_holds : validateDstiIfPresent file info (framesFrom (info.dataOffset + 18) frames) = .ok true := by
  have hle := hindex.le_length
  have hbody := length_bodyChunks_ge frames
  have heven := bytesOf_even (frteChunk frames.length :: bodyChunks frames)
  rw [bytesOf_cons, ← hsize] at heven
  have hsplit : info.dataSize = 18 + (bytesOf (bodyChunks frames)).length := by rw [hsize, List.length_append, length_frteChunk]
  have hlength := (dstiChunk frames).length_bytes
  have hdsti : (dstiChunk frames).data.length = 12 * frames.length := by
    rw [dstiChunk, chunk_data, length_indexBytes, length_indexEntries]
  have hpadded : paddedChunkEnd info.dataOffset info.dataSize = some (info.dataOffset + info.dataSize) := by
    rw [paddedChunkEnd_of_le (by omega), heven, Nat.add_zero]
  have hvisit : validateDstiIfPresent.visit file info (framesFrom (info.dataOffset + 18) frames) (info.dataOffset + info.dataSize)
      (info.dataOffset + info.dataSize) ((dstiChunk frames).header (info.dataOffset + info.dataSize)) false = .ok (.stop true) := by
    have hpayload : info.dataOffset + info.dataSize + 12 + (dstiChunk frames).data.length ≤ file.length := by omega
    have hinside : ((dstiChunk frames).header (info.dataOffset + info.dataSize)).payloadEnd ≤ file.length ∧
        ((dstiChunk frames).header (info.dataOffset + info.dataSize)).next ≤ file.length := ⟨hpayload, hle⟩
    have hpad : validateStreamZeroPadByte file ((dstiChunk frames).header (info.dataOffset + info.dataSize)).payloadEnd
        ((dstiChunk frames).header (info.dataOffset + info.dataSize)).size file.length (info.dataOffset + info.dataSize) "top-level chunk" =
          .ok () := validateStreamZeroPadByte_of_holds hindex hle
    have hid : ((dstiChunk frames).header (info.dataOffset + info.dataSize)).id = idDsti := rfl
    have hcount : checkedMul (framesFrom (info.dataOffset + 18) frames).length 12 = some (12 * frames.length) := by
      rw [length_framesFrom, checkedMul_of_le (by omega), Nat.mul_comm]
    have hexpected : ((dstiChunk frames).header (info.dataOffset + info.dataSize)).size = 12 * frames.length := hdsti
    have hbodyHolds := Holds.right hdata
    rw [length_frteChunk] at hbodyHolds
    have hentries : validateDstiEntries file info.dataOffset (info.dataOffset + info.dataSize + 12) 0 (framesFrom (info.dataOffset + 18) frames) =
        .ok () := @validateDstiEntries_of_holds file _ _ hfile frames 18 0 (holds_data hindex) hbodyHolds hindexed
    unfold validateDstiIfPresent.visit
    simp only [ensure_of hinside, hpad, if_pos hid, hcount, orError_some, ensure_of hexpected, chunkHeaderSize, hentries, bind, Except.bind]
    rfl
  rw [validateDstiIfPresent, checkedAddAt_of_le (by omega), hpadded]
  dsimp only [orError_some, bind, Except.bind]
  rw [scan_stop hle (readSubchunkHeader_of_holds hfile hindex) hvisit]
  rfl

/-- **The scan** finds the frames, their checksums and the index. -/
theorem scanDsdiffDstFrames_of_holds (hcount : frames.length < 2 ^ 32) :
    scanDsdiffDstFrames file info = .ok ⟨framesFrom (info.dataOffset + 18) frames, true⟩ := by
  have hle := hindex.le_length
  have hsplit : info.dataSize = 18 + (bytesOf (bodyChunks frames)).length := by rw [hsize, List.length_append, length_frteChunk]
  have hfrte := hdata.left
  have hbody := Holds.right hdata
  have hlength := length_frteChunk frames.length
  have hend : info.dataOffset + info.dataSize = info.dataOffset + 18 + (bytesOf (bodyChunks frames)).length := by omega
  have hvalidate := validateDstiIfPresent_of_holds hfile hdata hsize hindex hindexed
  have hparse := parseFrteFrameCount_of_holds hfile hdata hcount
  rw [← hsize] at hparse
  rw [hlength] at hbody
  rw [scanDsdiffDstFrames, checkedAddAt_of_le (by omega)]
  dsimp only [bind, Except.bind]
  rw [ensure_of (by omega), scan_next (by omega) (readSubchunkHeader_of_holds hfile hfrte) (visitDstSubchunk_frte hfrte (by omega)), hlength,
    scan_frames (fun h => readSubchunkHeader_of_holds hfile h) hbody (by omega) hindexed, ← hend, scan_done (by omega)]
  dsimp only
  rw [ensure_of rfl, ensure_of rfl, hparse, List.nil_append, Option.toList_none, List.append_nil, length_framesFrom]
  dsimp only
  rw [ensure_of (Nat.mod_eq_of_lt hcount).symm, hvalidate]
  rfl

end

end

/-! ## Reading the frames -/

/-- What the reader gives for a frame. -/
def frameOf (info : DsdContainerInfo) (total idx : ℕ) (desc : DstFrameDescriptor) (encoded : List UInt8) : DstFrame where
  frameIndex := idx
  chunkOffset := desc.chunkOffset
  payloadOffset := desc.payloadOffset
  encoded
  dstc := desc.dstc
  crcStatus := .fromOptionalDstc desc.dstc
  physicalChunkSize := desc.physicalChunkSize
  sampleRate := info.sampleRate
  channelCount := info.channelCount
  isFinal := total ≤ idx + 1

/-- The frames of a file whose `DSTF` chunks start at an offset. -/
def producedFrom (info : DsdContainerInfo) (total : ℕ) : ℕ → ℕ → List (List UInt8 × List UInt8) → List DstFrame
  | _, _, [] => []
  | idx, pos, frame :: frames =>
    frameOf info total idx ⟨pos, pos + 12, frame.1.length, (chunk 'D' 'S' 'T' 'F' frame.1).bytes.length, some (dstFrameCrc frame.2).toNat⟩ frame.1 ::
      producedFrom info total (idx + 1) (pos + (bytesOf (frameChunks frame)).length) frames

section
variable {file : List UInt8} {info : DsdContainerInfo}

/-- The calls of the reader, from the frame it stands at. -/
theorem yields_frames {hasDsti : Bool} {all : List DstFrameDescriptor} : ∀ {frames : List (List UInt8 × List UInt8)}
    {before : List DstFrameDescriptor} {pos : ℕ}, all = before ++ framesFrom pos frames → Holds file pos (bytesOf (bodyChunks frames)) →
      Yields DstDsdiffStreamReader.nextDstFrame ⟨file, info, all, hasDsti, before.length⟩ (producedFrom info all.length before.length pos frames) := by
  intro frames
  induction frames with
  | nil =>
    intro before pos hall _
    have hnone : all[before.length]? = none := by
      rw [hall, framesFrom, List.append_nil]
      exact List.getElem?_eq_none (Nat.le_refl _)
    have hnext : DstDsdiffStreamReader.nextDstFrame ⟨file, info, all, hasDsti, before.length⟩ =
        .ok (none, ⟨file, info, all, hasDsti, before.length⟩) := by
      unfold DstDsdiffStreamReader.nextDstFrame
      rw [hnone]
    exact .done hnext
  | cons frame frames ih =>
    intro before pos hall h
    rw [bodyChunks_cons] at h
    have hframe := h.left
    rw [frameChunks_bytes] at hframe
    rw [framesFrom] at hall
    have hsome : all[before.length]? = some ⟨pos, pos + 12, frame.1.length, (chunk 'D' 'S' 'T' 'F' frame.1).bytes.length,
        some (dstFrameCrc frame.2).toNat⟩ := by
      rw [hall, List.getElem?_append_right (Nat.le_refl _), Nat.sub_self]
      rfl
    have hread : (readExact file (pos + 12) frame.1.length : Except DsdReadError (List UInt8)) = .ok frame.1 :=
      readExact_of_holds (holds_data hframe.left)
    have hrest := ih (hall.trans (List.append_cons _ _ _)) h.right
    rw [List.length_append, List.length_singleton] at hrest
    refine .more ?_ hrest
    unfold DstDsdiffStreamReader.nextDstFrame
    rw [hsome]
    dsimp only [bind, Except.bind]
    rw [hread]
    rfl

/-- Every frame comes with its payload and its checksum, and stands where the reader says. -/
theorem produced_encoded (total : ℕ) : ∀ (idx pos : ℕ) (frames : List (List UInt8 × List UInt8)),
    (producedFrom info total idx pos frames).map DstFrame.encoded = frames.map Prod.fst
  | _, _, [] => rfl
  | _, _, frame :: frames => congrArg (frame.1 :: ·) (produced_encoded total _ _ frames)

theorem produced_dstc (total : ℕ) : ∀ (idx pos : ℕ) (frames : List (List UInt8 × List UInt8)),
    (producedFrom info total idx pos frames).map DstFrame.dstc = frames.map fun frame => some (dstFrameCrc frame.2).toNat
  | _, _, [] => rfl
  | _, _, frame :: frames => congrArg (some (dstFrameCrc frame.2).toNat :: ·) (produced_dstc total _ _ frames)

theorem produced_index (total dataOffset : ℕ) : ∀ (idx offset : ℕ) (frames : List (List UInt8 × List UInt8)),
    (producedFrom info total idx (dataOffset + offset) frames).map (fun f => (f.chunkOffset - dataOffset, f.physicalChunkSize)) =
      indexEntries offset frames
  | _, _, [] => rfl
  | _, offset, frame :: frames => by
    rw [producedFrom, List.map_cons, Nat.add_assoc dataOffset offset (bytesOf (frameChunks frame)).length, produced_index total dataOffset _ _ frames, indexEntries]
    exact congrArg (fun n => (n, _) :: _) (Nat.add_sub_cancel_left _ _)

theorem produced_holds {total : ℕ} : ∀ {frames : List (List UInt8 × List UInt8)} {idx pos : ℕ}, Holds file pos (bytesOf (bodyChunks frames)) →
    ∀ f ∈ producedFrom info total idx pos frames, pos ≤ f.chunkOffset ∧ Holds file f.chunkOffset (chunk 'D' 'S' 'T' 'F' f.encoded).bytes ∧
      f.physicalChunkSize = (chunk 'D' 'S' 'T' 'F' f.encoded).bytes.length := by
  intro frames
  induction frames with
  | nil => exact fun _ _ h => nomatch h
  | cons frame frames ih =>
    intro idx pos h f hf
    rw [bodyChunks_cons] at h
    have hframe := h.left
    rw [frameChunks_bytes] at hframe
    rcases List.mem_cons.1 hf with rfl | hf
    · exact ⟨Nat.le_refl _, hframe.left, rfl⟩
    · obtain ⟨hpos, hholds, hsize⟩ := ih h.right f hf
      exact ⟨(Nat.le_add_right _ _).trans hpos, hholds, hsize⟩

end

/-! ## The round trip -/

/-- What the writer takes: a rate and a channel count of the format, frames with all their decoded bytes, and sizes the fields can hold. -/
structure Encodable (channelCount sampleRate : ℕ) (frames : List (List UInt8 × List UInt8)) (footer : List UInt8) : Prop where
  rate : ∃ rate, dstRateFromSampleRate sampleRate = .ok rate ∧ ∀ frame ∈ frames, Writable channelCount rate frame
  channels : isLegalDstChannelCount channelCount = true
  count : frames.length < 2 ^ 32
  fits : fileLength channelCount frames footer ≤ usizeMax

/-- The reader of a file gives the frames, and the file says of itself what it is. -/
structure ReadsBack (file : List UInt8) (channelCount sampleRate : ℕ) (frames : List (List UInt8 × List UInt8))
    (reader : DstDsdiffStreamReader) (produced : List DstFrame) : Prop where
  opened : DstDsdiffStreamReader.new file = .ok reader
  clean : reader.info.diagnostics = []
  format : reader.info.channelCount = channelCount ∧ reader.info.sampleRate = sampleRate
  samples : reader.info.sampleCountPerChannel = some (frames.length * (sampleRate / 75))
  yields : Yields DstDsdiffStreamReader.nextDstFrame reader produced
  payloads : produced.map DstFrame.encoded = frames.map Prod.fst
  checksums : produced.map DstFrame.dstc = frames.map fun frame => some (dstFrameCrc frame.2).toNat
  chunks : ∀ f ∈ produced, reader.info.dataOffset ≤ f.chunkOffset ∧ Holds file f.chunkOffset (chunk 'D' 'S' 'T' 'F' f.encoded).bytes ∧
    f.physicalChunkSize = (chunk 'D' 'S' 'T' 'F' f.encoded).bytes.length
  indexed : reader.hasDsti = true
  /-- The index stands behind the audio, with the offset and the size of every frame's chunk. -/
  index : Holds file (reader.info.dataOffset + reader.info.dataSize)
    (chunk 'D' 'S' 'T' 'I' (indexBytes (produced.map fun f => (f.chunkOffset - reader.info.dataOffset, f.physicalChunkSize)))).bytes
  frm8Size : Holds file 4 (beBytes 8 (file.length - 12)) ∧ reader.info.dsdiffFrm8End = some file.length
  dstSize : ∃ data, data.length = reader.info.dataSize ∧ Holds file (reader.info.dataOffset - 12) (chunk 'D' 'S' 'T' ' ' data).bytes
  frameCount : Holds file reader.info.dataOffset (frteChunk frames.length).bytes

/-- A rate of the format is a whole number of samples in each frame. -/
theorem sampleRate_of_eq_ok {sampleRate : ℕ} {rate : DstRate} (h : dstRateFromSampleRate sampleRate = .ok rate) :
    0 < sampleRate ∧ sampleRate < 2 ^ 32 ∧ sampleRate % 75 = 0 := by
  unfold dstRateFromSampleRate at h
  split_ifs at h <;> omega

section
variable {file : List UInt8} {channelCount sampleRate : ℕ} {frames : List (List UInt8 × List UInt8)} {others : List Chunk}

/-- A file of the writer's shape is opened, and its frames are read. -/
theorem IsDsdiff.readsBack {name lsco : List UInt8} (h : IsDsdiff file sampleRate channelCount name lsco (dstChunk frames) (dstiChunk frames :: others))
    (hmultiple : sampleRate % 75 = 0) (hcount : frames.length < 2 ^ 32)
    (hindexed : ∀ frame ∈ frames, (chunk 'D' 'S' 'T' 'F' frame.1).bytes.length < 2 ^ 32) :
    ∃ reader produced, ReadsBack file channelCount sampleRate frames reader produced := by
  have hfile := h.length
  have haudio := h.holds_audio.left
  have hothers := h.holds_audio.right
  have hinspect := @IsDsdiff.inspect _ _ _ _ _ _ _ (some (frames.length * (sampleRate / 75))) (some (frames.length * (sampleRate / 75))) h
  have hfront := Holds.right h.holds_front
  rw [length_fourcc, Nat.zero_add] at hfront
  have hdata := holds_data haudio
  generalize audioPos sampleRate channelCount ((dstChunk frames).id ++ name) lsco = pos at *
  have hchunkData : (dstChunk frames).data = (frteChunk frames.length).bytes ++ bytesOf (bodyChunks frames) := by
    rw [dstChunk, chunk_data, bytesOf_cons]
  have hdstLength := (dstChunk frames).length_bytes
  have heven := bytesOf_even (frteChunk frames.length :: bodyChunks frames)
  rw [bytesOf_cons, ← hchunkData] at heven
  rw [bytesOf_cons] at hothers
  have hindex := hothers.left
  rw [show pos + (dstChunk frames).bytes.length = pos + 12 + (dstChunk frames).data.length by omega] at hindex
  rw [hchunkData] at hdata
  have hinfo := hinspect (fun s hfirst hrate _ => by
    rw [hchunkData]
    exact visitAudio_dst hfile hdata hcount h.rate.2 hmultiple hfirst hrate) rfl
  obtain ⟨info, hinfo, hoffset, hsize, hfields⟩ : ∃ info, inspectDsdiff file = .ok info ∧ info.dataOffset = pos + 12 ∧
      info.dataSize = (dstChunk frames).data.length ∧ info.diagnostics = [] ∧ info.channelCount = channelCount ∧
      info.sampleRate = sampleRate ∧ info.sampleCountPerChannel = some (frames.length * (sampleRate / 75)) ∧
      info.dsdiffFrm8End = some file.length ∧ info.compression = .dst ∧ info.format = .dsdiff :=
    ⟨_, hinfo, rfl, rfl, rfl, rfl, rfl, rfl, rfl, rfl, rfl⟩
  obtain ⟨hclean, hchannels, hrate, hsamples, hend, hcompression, hformat⟩ := hfields
  rw [← hoffset] at hdata hindex
  rw [← hsize] at hindex
  rw [hchunkData] at hsize
  have hscan := scanDsdiffDstFrames_of_holds hfile hdata hsize hindex hindexed hcount
  have hbody := Holds.right hdata
  rw [length_frteChunk] at hbody
  have hopened : DstDsdiffStreamReader.new file = .ok ⟨file, info, framesFrom (info.dataOffset + 18) frames, true, 0⟩ := by
    have hchecked : info.compression = .dst ∧ info.format = .dsdiff := ⟨hcompression, hformat⟩
    unfold DstDsdiffStreamReader.new
    rw [hinfo]
    dsimp only [inspected, Except.mapError, bind, Except.bind]
    rw [hclean, ensure_of hchecked, hscan]
    rfl
  have hyields := @yields_frames file info true _ frames [] _ rfl hbody
  refine ⟨_, _, {
    opened := hopened
    clean := hclean
    format := ⟨hchannels, hrate⟩
    samples := hsamples
    yields := hyields
    payloads := produced_encoded _ _ _ frames
    checksums := produced_dstc _ _ _ frames
    chunks := fun f hf => ?_
    indexed := rfl
    index := ?_
    frm8Size := ⟨hfront.left, hend⟩
    dstSize := ⟨(dstChunk frames).data, hchunkData ▸ hsize.symm, ?_⟩
    frameCount := hdata.left }⟩
  · obtain ⟨hpos, hholds, hphysical⟩ := produced_holds hbody f hf
    exact ⟨(Nat.le_add_right _ _).trans hpos, hholds, hphysical⟩
  · dsimp only
    rw [produced_index]
    exact hindex
  · dsimp only
    rw [hoffset, Nat.add_sub_cancel]
    exact haudio

/-- **Round trip.** The writer takes exactly the encodable inputs, and the reader of the file it leaves gives the payloads in their order with
the checksums of the decoded bytes, finds the index right, and has nothing to report. -/
theorem writeFile_readsBack (channelCount sampleRate : ℕ) (frames : List (List UInt8 × List UInt8)) (footer : Option (List FooterChunk)) :
    ((∃ file, writeFile channelCount sampleRate frames (footer.map footerOf) = .ok file) ↔
      Encodable channelCount sampleRate frames ((footer.map footerOf).getD [])) ∧
    ∀ file, writeFile channelCount sampleRate frames (footer.map footerOf) = .ok file →
      ∃ reader produced, ReadsBack file channelCount sampleRate frames reader produced := by
  constructor
  · constructor
    · rintro ⟨file, h⟩
      obtain ⟨rate, hrate, hchannels, hwritable, hcount, hfits, -⟩ := writeFile_eq_ok.1 h
      exact ⟨⟨rate, hrate, hwritable⟩, hchannels, hcount, hfits⟩
    · rintro ⟨⟨rate, hrate, hwritable⟩, hchannels, hcount, hfits⟩
      exact ⟨_, writeFile_eq_ok.2 ⟨rate, hrate, hchannels, hwritable, hcount, hfits, rfl⟩⟩
  · intro file h
    obtain ⟨rate, hrate, hchannels, hwritable, hcount, hfits, rfl⟩ := writeFile_eq_ok.1 h
    obtain ⟨hpos, hlt, hmultiple⟩ := sampleRate_of_eq_ok hrate
    have hfooter : (footer.map footerOf).getD [] = footerOf (footer.getD []) := by cases footer <;> rfl
    rw [hfooter] at hfits ⊢
    exact (isDsdiff_fileBytes ⟨hpos, hlt⟩ (of_decide_eq_true hchannels) hfits).readsBack hmultiple hcount
      fun frame hframe => (hwritable frame hframe).indexed

/-- A mono frame of one byte, with comments behind. -/
theorem writeFile_readsBack_one : ∃ file reader produced,
    writeFile 1 2822400 [([129], List.replicate 4704 105)] (some (footerOf [⟨chunk 'C' 'O' 'M' 'T' [0, 0, 7], by decide⟩])) = .ok file ∧
      ReadsBack file 1 2822400 [([129], List.replicate 4704 105)] reader produced := by
  have hdecoded : dstInterleavedFrameLenForRate .dsd64 1 = .ok (List.replicate 4704 (105 : UInt8)).length := by
    rw [List.length_replicate]
    rfl
  have hencodable : Encodable 1 2822400 [([129], List.replicate 4704 105)] (footerOf [⟨chunk 'C' 'O' 'M' 'T' [0, 0, 7], by decide⟩]) := by
    refine ⟨⟨.dsd64, rfl, fun frame hframe => ?_⟩, rfl, by decide, ?_⟩
    · rw [List.mem_singleton.1 hframe]
      exact ⟨hdecoded, by decide, by decide⟩
    · rw [fileLength, dstSize, bodyChunks_cons, frameChunks_bytes]
      simp only [List.length_append, Chunk.length_bytes, chunk_data, length_beBytes, dstiChunk, length_indexBytes, length_indexEntries]
      decide
  obtain ⟨file, hfile⟩ := (writeFile_readsBack 1 2822400 [([129], List.replicate 4704 105)]
    (some [⟨chunk 'C' 'O' 'M' 'T' [0, 0, 7], by decide⟩])).1.2 hencodable
  obtain ⟨reader, produced, hread⟩ := (writeFile_readsBack 1 2822400 [([129], List.replicate 4704 105)]
    (some [⟨chunk 'C' 'O' 'M' 'T' [0, 0, 7], by decide⟩])).2 file hfile
  exact ⟨file, reader, produced, hfile, hread⟩

end

end Container
