import Tonepoet.Container.DstWriter

/-!
# What the DSDIFF/DST writer leaves

Each call appends chunks, and `finish` patches the placeholders with numbers of the same width: the file is a list
of chunks with the right sizes.
-/

namespace Container

open Rust ByteFile ChunkFile Dst

/-! ## The file -/

theorem appendChunk_eq (a b c d : Char) (data : List UInt8) : appendChunk (fourcc a b c d) data = (chunk a b c d data).bytes := by
  have hpad : (if data.length % 2 ≠ 0 then [0] else []) = padding data.length := by
    rw [padding]
    rcases Nat.mod_two_eq_zero_or_one data.length with h | h <;> rw [h] <;> rfl
  rw [appendChunk, hpad, Chunk.bytes, List.append_assoc, List.append_assoc]
  rfl

theorem orInvalidDst_bind_eq_ok {α β : Type} {x : Outcome DstEncodeError α} {f : α → Except IoError β} {r : β} :
    (orInvalidDst x >>= f) = .ok r ↔ ∃ a, x = .ok a ∧ f a = .ok r := by
  cases x with
  | error e => exact ⟨nofun, fun ⟨_, h, _⟩ => nomatch h⟩
  | ok a =>
    constructor
    · intro h
      exact ⟨a, rfl, h⟩
    · rintro ⟨_, ⟨⟩, h⟩
      exact h

theorem checkedChunkTotal_eq {n : ℕ} (h : 12 + n + n % 2 ≤ usizeMax) : checkedChunkTotal n = .ok (12 + n + n % 2) := by
  rw [checkedChunkTotal, checkedAdd_of_le (by omega), Option.bind_some, checkedAdd_of_le (by rw [chunkHeaderSize]; omega), chunkHeaderSize]
  exact congrArg Except.ok (by omega)

theorem checkedChunkTotal_bind_eq_ok {α : Type} {n : ℕ} {f : ℕ → Except IoError α} {r : α} :
    (checkedChunkTotal n >>= f) = .ok r ↔ 12 + n + n % 2 ≤ usizeMax ∧ f (12 + n + n % 2) = .ok r := by
  rw [checkedChunkTotal, orError_bind_eq_ok]
  simp only [Option.bind_eq_some_iff, checkedAdd_eq_some_iff, chunkHeaderSize]
  constructor
  · rintro ⟨_, ⟨_, ⟨-, rfl⟩, hle, rfl⟩, h⟩
    rw [show n + n % 2 + 12 = 12 + n + n % 2 by omega] at hle h
    exact ⟨hle, h⟩
  · rintro ⟨hle, h⟩
    exact ⟨_, ⟨_, ⟨by omega, rfl⟩, by omega, by omega⟩, h⟩

/-- A chunk goes to the end of the file, when it fits. -/
theorem writeChunk_bind_eq_ok {α : Type} {bytes data : List UInt8} {a b c d : Char} {f : OutputFile × ℕ → Except IoError α} {r : α} :
    (writeChunk (.ofBytes bytes) (fourcc a b c d) data >>= f) = .ok r ↔
      (bytes ++ (chunk a b c d data).bytes).length ≤ usizeMax ∧
        f (.ofBytes (bytes ++ (chunk a b c d data).bytes), (chunk a b c d data).bytes.length) = .ok r := by
  have hlength : (chunk a b c d data).bytes.length = 12 + data.length + data.length % 2 := Chunk.length_bytes _
  have hbytes : (chunk a b c d data).bytes = fourcc a b c d ++ (beBytes 8 data.length ++ (data ++ padding data.length)) := rfl
  rw [hlength, hbytes]
  rw [hbytes] at hlength
  rcases Nat.mod_two_eq_zero_or_one data.length with hparity | hparity
  · have hpad : padding data.length = [] := if_neg (by omega)
    have hnil : ¬ (data.length % 2 ≠ 0) := by omega
    rw [hpad, List.append_nil] at hlength ⊢
    simp only [writeChunk, bind_assoc, writeAll_bind_eq_ok, if_neg hnil, pure_bind_eq_ok, List.append_assoc]
    constructor
    · rintro ⟨-, -, hle, h⟩
      refine ⟨hle, ?_⟩
      rw [List.length_append, hlength] at hle
      rwa [checkedChunkTotal_eq (by omega)] at h
    · rintro ⟨hle, h⟩
      have hle' := hle
      rw [List.length_append, hlength] at hle'
      rw [checkedChunkTotal_eq (by omega)]
      simp only [List.length_append] at hle hle' ⊢
      exact ⟨by omega, by omega, by omega, h⟩
  · have hpad : padding data.length = [0] := if_pos hparity
    have hone : data.length % 2 ≠ 0 := by omega
    rw [hpad] at hlength ⊢
    simp only [writeChunk, bind_assoc, writeAll_bind_eq_ok, if_pos hone, List.append_assoc]
    constructor
    · rintro ⟨-, -, -, hle, h⟩
      refine ⟨hle, ?_⟩
      rw [List.length_append, hlength] at hle
      rwa [checkedChunkTotal_eq (by omega)] at h
    · rintro ⟨hle, h⟩
      have hle' := hle
      rw [List.length_append, hlength] at hle'
      rw [checkedChunkTotal_eq (by omega)]
      simp only [List.length_append] at hle hle' ⊢
      exact ⟨by omega, by omega, by omega, by omega, h⟩

namespace DffDstWriter

/-! ## What the writer leaves -/

/-- The name and the code of the compression, after its identifier. -/
def compressionName : List UInt8 := [UInt8.ofNat cmprName.length] ++ cmprName

def propChunk (channelCount sampleRate : ℕ) : Chunk :=
  propertyChunk sampleRate channelCount (fourcc 'D' 'S' 'T' ' ' ++ compressionName) (beBytes 2 (loudspeakerConfig channelCount))

/-- The file up to the `DST ` chunk. -/
def frontBytes (channelCount sampleRate frm8Size : ℕ) : List UInt8 :=
  fourcc 'F' 'R' 'M' '8' ++ (beBytes 8 frm8Size ++ (fourcc 'D' 'S' 'D' ' ' ++ (versionChunk.bytes ++ (propChunk channelCount sampleRate).bytes)))

def frteChunk (frames : ℕ) : Chunk := chunk 'F' 'R' 'T' 'E' (beBytes 4 frames ++ beBytes 2 frameRate)

theorem frteChunk_bytes (frames : ℕ) :
    (frteChunk frames).bytes = fourcc 'F' 'R' 'T' 'E' ++ (beBytes 8 6 ++ (beBytes 4 frames ++ beBytes 2 frameRate)) := by
  have hlength : (frteChunk frames).data.length = 6 := by
    rw [frteChunk, chunk, List.length_append, length_beBytes, length_beBytes]
  have hpad : padding 6 = [] := rfl
  rw [Chunk.bytes, hlength, hpad, List.append_nil]
  rfl

/-- The chunks of a frame. -/
def frameChunks (frame : List UInt8 × List UInt8) : List Chunk :=
  [chunk 'D' 'S' 'T' 'F' frame.1, chunk 'D' 'S' 'T' 'C' (beBytes 4 (dstFrameCrc frame.2).toNat)]

/-- The chunks of the frames. -/
def bodyChunks (frames : List (List UInt8 × List UInt8)) : List Chunk := frames.flatMap frameChunks

/-- The index entries of the frames, from an offset in the `DST ` chunk on. -/
def indexEntries : ℕ → List (List UInt8 × List UInt8) → List (ℕ × ℕ)
  | _, [] => []
  | offset, frame :: frames =>
    (offset, (chunk 'D' 'S' 'T' 'F' frame.1).bytes.length) :: indexEntries (offset + (bytesOf (frameChunks frame)).length) frames

/-- The `DST ` chunk as it is written, with its size and its frame count. -/
def dstBytes (dstSize count : ℕ) (frames : List (List UInt8 × List UInt8)) : List UInt8 :=
  fourcc 'D' 'S' 'T' ' ' ++ (beBytes 8 dstSize ++ ((frteChunk count).bytes ++ bytesOf (bodyChunks frames)))

/-- The writer after some frames. -/
def written (channelCount sampleRate : ℕ) (rate : DstRate) (frames : List (List UInt8 × List UInt8)) (footer : Option (List UInt8)) :
    DffDstWriter where
  writer := .ofBytes (frontBytes channelCount sampleRate 0 ++ dstBytes 0 0 frames)
  channelCount
  rate
  frm8SizeOffset := 4
  dstSizeOffset := (frontBytes channelCount sampleRate 0).length + 4
  frteFrameCountOffset := (frontBytes channelCount sampleRate 0).length + 24
  dstPayloadBytes := 18 + (bytesOf (bodyChunks frames)).length
  framesWritten := frames.length
  frameIndex := indexEntries 18 frames
  footerBytes := footer

theorem serializePropPayload_eq (channelCount sampleRate : ℕ) :
    serializePropPayload channelCount sampleRate = (propChunk channelCount sampleRate).data := by
  rw [serializePropPayload, propChunk, propertyChunk, chunk_data, propertyChunks, length_channelIds]
  simp only [appendChunk_eq, compressionName, bytesOf_cons, bytesOf_nil, List.append_nil, List.append_assoc]

theorem length_serializePropPayload (channelCount sampleRate : ℕ) :
    (serializePropPayload channelCount sampleRate).length = 76 + 4 * channelCount := by
  have hids := length_flatten_ids (fun id h => @length_of_mem_channelIds channelCount id h)
  rw [length_channelIds] at hids
  rw [serializePropPayload_eq]
  simp only [propChunk, propertyChunk, propertyChunks, compressionName, bytesOf_cons, bytesOf_nil, List.append_nil, List.length_append,
    Chunk.length_bytes, chunk_data, length_fourcc, length_channelIds, length_beBytes, hids, cmprName, ascii, List.length_map,
    List.length_cons, List.length_nil]
  omega

theorem length_frontBytes (channelCount sampleRate frm8Size : ℕ) : (frontBytes channelCount sampleRate frm8Size).length = 120 + 4 * channelCount := by
  have hprop := length_serializePropPayload channelCount sampleRate
  rw [serializePropPayload_eq] at hprop
  have hversion : versionChunk.bytes.length = 16 := rfl
  rw [frontBytes]
  simp only [List.length_append, length_fourcc, length_beBytes, hversion, (propChunk channelCount sampleRate).length_bytes, hprop]
  omega

theorem length_dstBytes (dstSize count : ℕ) (frames : List (List UInt8 × List UInt8)) :
    (dstBytes dstSize count frames).length = 30 + (bytesOf (bodyChunks frames)).length := by
  rw [dstBytes]
  simp only [List.length_append, length_fourcc, length_beBytes, Chunk.length_bytes, frteChunk, chunk]
  omega

/-- The channel counts and rates of `new`. -/
theorem new_eq_ok {channelCount sampleRate : ℕ} {w : DffDstWriter} :
    new channelCount sampleRate = .ok w ↔
      ∃ rate, dstRateFromSampleRate sampleRate = .ok rate ∧ isLegalDstChannelCount channelCount = true ∧
        w = written channelCount sampleRate rate [] none := by
  have hlegal : ∀ {rate}, (∃ u, orInvalidDst (validateDstPolicy .container rate channelCount) = .ok u) ↔
      isLegalDstChannelCount channelCount = true := by
    intro rate
    unfold validateDstPolicy validateEncoderChannelCount orInvalidDst
    by_cases h : isLegalDstChannelCount channelCount = true
    · rw [if_pos h]
      exact ⟨fun _ => h, fun _ => ⟨(), rfl⟩⟩
    · rw [if_neg h]
      exact ⟨nofun, fun h' => absurd h' h⟩
  rw [new, bind_eq_ok]
  refine exists_congr fun rate => and_congr_right fun _ => ?_
  rw [bind_eq_ok, ← @hlegal rate, show OutputFile.empty = .ofBytes [] from rfl]
  simp only [writeAll_bind_eq_ok, writeChunk_bind_eq_ok]
  rw [exists_and_right]
  refine and_congr_right fun hpolicy => ?_
  have hcount : channelCount ≤ 6 := of_decide_eq_true (hlegal.1 hpolicy) |>.2
  have hmax : usizeMax = 18446744073709551615 := rfl
  have hwriter : [] ++ fourcc 'F' 'R' 'M' '8' ++ beBytes 8 0 ++ fourcc 'D' 'S' 'D' ' ' ++ (chunk 'F' 'V' 'E' 'R' (beBytes 4 dsdiffVersion)).bytes ++
      (chunk 'P' 'R' 'O' 'P' (serializePropPayload channelCount sampleRate)).bytes ++ fourcc 'D' 'S' 'T' ' ' ++ beBytes 8 0 ++
      fourcc 'F' 'R' 'T' 'E' ++ beBytes 8 6 ++ beBytes 4 0 ++ beBytes 2 frameRate = frontBytes channelCount sampleRate 0 ++ dstBytes 0 0 [] := by
    have hversion : chunk 'F' 'V' 'E' 'R' (beBytes 4 dsdiffVersion) = versionChunk := rfl
    have hprop : chunk 'P' 'R' 'O' 'P' (serializePropPayload channelCount sampleRate) = propChunk channelCount sampleRate := by
      rw [serializePropPayload_eq]
      rfl
    have hbody : bytesOf (bodyChunks []) = [] := rfl
    rw [hversion, hprop, frontBytes, dstBytes, frteChunk_bytes, hbody]
    simp only [List.append_assoc, List.nil_append, List.append_nil]
  rw [hwriter]
  simp only [OutputFile.ofBytes, List.length_append, length_fourcc, length_beBytes, Chunk.length_bytes, chunk, length_serializePropPayload,
    length_frontBytes, length_dstBytes, List.length_nil]
  have hstart : (⟨⟨frontBytes channelCount sampleRate 0 ++ dstBytes 0 0 [],
      120 + 4 * channelCount + (30 + (bytesOf (bodyChunks [])).length)⟩, channelCount, rate, 4, 120 + 4 * channelCount + 4,
      120 + 4 * channelCount + 24, 18, 0, [], none⟩ : DffDstWriter) = written channelCount sampleRate rate [] none := by
    rw [written, OutputFile.ofBytes, List.length_append, length_frontBytes, length_dstBytes]
    rfl
  have hheader : chunkHeaderSize = 12 := rfl
  have hnil : (bytesOf (bodyChunks [])).length = 0 := rfl
  constructor
  · rintro ⟨-, -, -, -, -, -, -, -, -, -, -, ⟨⟩⟩
    rw [← hstart]
    congr 1 <;> omega
  · rintro rfl
    refine ⟨by omega, by omega, by omega, by omega, by omega, by omega, by omega, by omega, by omega, by omega, by omega, ?_⟩
    rw [← hstart]
    change Except.ok _ = Except.ok _
    congr 2 <;> omega

/-- What the writer asks of a frame: decoded bytes of the right number, a payload, and a chunk the index can hold. -/
structure Writable (channelCount : ℕ) (rate : DstRate) (frame : List UInt8 × List UInt8) : Prop where
  decoded : dstInterleavedFrameLenForRate rate channelCount = .ok frame.2.length
  nonempty : frame.1 ≠ []
  indexed : (chunk 'D' 'S' 'T' 'F' frame.1).bytes.length < 2 ^ 32

variable {channelCount sampleRate : ℕ} {rate : DstRate} {frames : List (List UInt8 × List UInt8)} {footer : Option (List UInt8)}
  {frame : List UInt8 × List UInt8} {w : DffDstWriter}

theorem bodyChunks_concat (frames : List (List UInt8 × List UInt8)) (frame : List UInt8 × List UInt8) :
    bytesOf (bodyChunks (frames ++ [frame])) = bytesOf (bodyChunks frames) ++ bytesOf (frameChunks frame) := by
  rw [bodyChunks, List.flatMap_append, bytesOf_append, List.flatMap_singleton, ← bodyChunks]

theorem dstBytes_concat (dstSize count : ℕ) (frames : List (List UInt8 × List UInt8)) (frame : List UInt8 × List UInt8) :
    dstBytes dstSize count (frames ++ [frame]) = dstBytes dstSize count frames ++ bytesOf (frameChunks frame) := by
  rw [dstBytes, dstBytes, bodyChunks_concat]
  simp only [List.append_assoc]

theorem indexEntries_concat (frame : List UInt8 × List UInt8) : ∀ (offset : ℕ) (frames : List (List UInt8 × List UInt8)),
    indexEntries offset (frames ++ [frame]) =
      indexEntries offset frames ++ [(offset + (bytesOf (bodyChunks frames)).length, (chunk 'D' 'S' 'T' 'F' frame.1).bytes.length)]
  | _, [] => rfl
  | offset, first :: frames => by
    have hbody : bytesOf (bodyChunks (first :: frames)) = bytesOf (frameChunks first) ++ bytesOf (bodyChunks frames) := by
      rw [bodyChunks, List.flatMap_cons, bytesOf_append, ← bodyChunks]
    rw [List.cons_append, indexEntries, indexEntries_concat frame _ frames, hbody, List.length_append, ← Nat.add_assoc]
    rfl

theorem length_bodyChunks_ge (frames : List (List UInt8 × List UInt8)) : 24 * frames.length ≤ (bytesOf (bodyChunks frames)).length := by
  induction frames with
  | nil => exact Nat.le_refl 0
  | cons frame frames ih =>
    have hbody : bytesOf (bodyChunks (frame :: frames)) = bytesOf (frameChunks frame) ++ bytesOf (bodyChunks frames) := by
      rw [bodyChunks, List.flatMap_cons, bytesOf_append, ← bodyChunks]
    have hdstf := (chunk 'D' 'S' 'T' 'F' frame.1).twelve_le
    have hdstc := (chunk 'D' 'S' 'T' 'C' (beBytes 4 (dstFrameCrc frame.2).toNat)).twelve_le
    rw [hbody, frameChunks, bytesOf_cons, bytesOf_cons, bytesOf_nil, List.append_nil]
    simp only [List.length_append, List.length_cons]
    omega

theorem length_indexEntries : ∀ (offset : ℕ) (frames : List (List UInt8 × List UInt8)), (indexEntries offset frames).length = frames.length
  | _, [] => rfl
  | _, _ :: frames => congrArg Nat.succ (length_indexEntries _ frames)

/-- Another frame. -/
theorem writeEncodedFramePayload_eq_ok :
    (written channelCount sampleRate rate frames footer).writeEncodedFramePayload frame.1 frame.2 = .ok w ↔
      Writable channelCount rate frame ∧
        (frontBytes channelCount sampleRate 0 ++ dstBytes 0 0 (frames ++ [frame])).length ≤ usizeMax ∧
        w = written channelCount sampleRate rate (frames ++ [frame]) footer := by
  have hdstf : (chunk 'D' 'S' 'T' 'F' frame.1).bytes.length = 12 + frame.1.length + frame.1.length % 2 := Chunk.length_bytes _
  have hframe : bytesOf (frameChunks frame) =
      (chunk 'D' 'S' 'T' 'F' frame.1).bytes ++ (chunk 'D' 'S' 'T' 'C' (beBytes 4 (dstFrameCrc frame.2).toNat)).bytes := by
    rw [frameChunks, bytesOf_cons, bytesOf_cons, bytesOf_nil, List.append_nil]
  have hcount := length_bodyChunks_ge frames
  have hfile : frontBytes channelCount sampleRate 0 ++ dstBytes 0 0 (frames ++ [frame]) = frontBytes channelCount sampleRate 0 ++
      dstBytes 0 0 frames ++ (chunk 'D' 'S' 'T' 'F' frame.1).bytes ++ (chunk 'D' 'S' 'T' 'C' (beBytes 4 (dstFrameCrc frame.2).toNat)).bytes := by
    rw [dstBytes_concat, hframe]
    simp only [List.append_assoc]
  have hpayload : 18 + (bytesOf (bodyChunks (frames ++ [frame]))).length = 18 + (bytesOf (bodyChunks frames)).length +
      (chunk 'D' 'S' 'T' 'F' frame.1).bytes.length + (chunk 'D' 'S' 'T' 'C' (beBytes 4 (dstFrameCrc frame.2).toNat)).bytes.length := by
    rw [bodyChunks_concat, hframe, List.length_append, List.length_append]
    omega
  unfold writeEncodedFramePayload
  simp only [written, orInvalidDst_bind_eq_ok, ensure_bind_eq_ok, checkedChunkTotal_bind_eq_ok, writeChunk_bind_eq_ok,
    orError_bind_eq_ok, Option.bind_eq_some_iff, checkedAdd_eq_some_iff]
  rw [hfile, hpayload, indexEntries_concat, ← hdstf, @List.length_append _ frames [frame], List.length_singleton]
  constructor
  · rintro ⟨_, hdecoded, rfl, hnonempty, -, hindexed, -, hfits, _, ⟨_, ⟨-, rfl⟩, -, rfl⟩, _, ⟨-, rfl⟩, ⟨⟩⟩
    exact ⟨⟨hdecoded, hnonempty, hindexed⟩, hfits, rfl⟩
  · rintro ⟨⟨hdecoded, hnonempty, hindexed⟩, hfits, rfl⟩
    have hlength := hfits
    simp only [List.length_append, length_dstBytes] at hlength
    refine ⟨_, hdecoded, rfl, hnonempty, by omega, hindexed, ?_, hfits, _, ⟨_, ⟨by omega, rfl⟩, by omega, rfl⟩, _, ⟨by omega, rfl⟩, rfl⟩
    simp only [List.length_append, length_dstBytes]
    omega

/-- All the frames. -/
theorem writeFrames_eq_ok : ∀ {more frames : List (List UInt8 × List UInt8)},
    (frontBytes channelCount sampleRate 0 ++ dstBytes 0 0 frames).length ≤ usizeMax →
    ((written channelCount sampleRate rate frames footer).writeFrames more = .ok w ↔
      (∀ frame ∈ more, Writable channelCount rate frame) ∧
        (frontBytes channelCount sampleRate 0 ++ dstBytes 0 0 (frames ++ more)).length ≤ usizeMax ∧
        w = written channelCount sampleRate rate (frames ++ more) footer) := by
  intro more
  induction more with
  | nil =>
    intro frames hfits
    rw [List.append_nil, writeFrames]
    constructor
    · rintro ⟨⟩
      exact ⟨nofun, hfits, rfl⟩
    · rintro ⟨-, -, rfl⟩
      rfl
  | cons frame more ih =>
    intro frames hfits
    rw [writeFrames, bind_eq_ok, List.append_cons]
    constructor
    · rintro ⟨w', hw', h⟩
      obtain ⟨hframe, hfits', rfl⟩ := writeEncodedFramePayload_eq_ok.1 hw'
      obtain ⟨hmore, hall, hw⟩ := (ih hfits').1 h
      exact ⟨List.forall_mem_cons.2 ⟨hframe, hmore⟩, hall, hw⟩
    · rintro ⟨hmem, hall, hw⟩
      obtain ⟨hframe, hmore⟩ := List.forall_mem_cons.1 hmem
      have hfits' : (frontBytes channelCount sampleRate 0 ++ dstBytes 0 0 (frames ++ [frame])).length ≤ usizeMax := by
        have hprefix : bytesOf (bodyChunks (frames ++ [frame] ++ more)) =
            bytesOf (bodyChunks (frames ++ [frame])) ++ bytesOf (bodyChunks more) := by
          rw [bodyChunks, List.flatMap_append, bytesOf_append, ← bodyChunks, ← bodyChunks]
        rw [List.length_append, length_dstBytes, hprefix, List.length_append] at hall
        rw [List.length_append, length_dstBytes]
        omega
      exact ⟨_, writeEncodedFramePayload_eq_ok.2 ⟨hframe, hfits', rfl⟩, (ih hfits').2 ⟨hmore, hall, hw⟩⟩

/-! ## The patches of `finish` -/

section
variable {position : ℕ} {tail : List UInt8}

theorem writeAll_patch {front old new rest : List UInt8} (h : old.length = new.length) (hle : (front ++ (old ++ rest)).length ≤ usizeMax) :
    ((⟨front ++ (old ++ rest), position⟩ : OutputFile).seek front.length).writeAll new =
      .ok ⟨front ++ (new ++ rest), front.length + new.length⟩ := OutputFile.writeAll_seek h hle

theorem patch_frm8Size {a b : ℕ} (hle : (frontBytes channelCount sampleRate a ++ tail).length ≤ usizeMax) :
    ((⟨frontBytes channelCount sampleRate a ++ tail, position⟩ : OutputFile).seek 4).writeAll (beBytes 8 b) =
      .ok ⟨frontBytes channelCount sampleRate b ++ tail, 12⟩ := by
  have hsplit : ∀ n, frontBytes channelCount sampleRate n ++ tail = fourcc 'F' 'R' 'M' '8' ++ (beBytes 8 n ++
      (fourcc 'D' 'S' 'D' ' ' ++ (versionChunk.bytes ++ (propChunk channelCount sampleRate).bytes) ++ tail)) := by
    intro n
    simp only [frontBytes, List.append_assoc]
  rw [hsplit] at hle
  rw [hsplit, hsplit]
  exact writeAll_patch (by rw [length_beBytes, length_beBytes]) hle

theorem patch_dstSize {front : List UInt8} {a b count : ℕ} (hle : (front ++ (dstBytes a count frames ++ tail)).length ≤ usizeMax) :
    ((⟨front ++ (dstBytes a count frames ++ tail), position⟩ : OutputFile).seek (front.length + 4)).writeAll (beBytes 8 b) =
      .ok ⟨front ++ (dstBytes b count frames ++ tail), front.length + 12⟩ := by
  have hsplit : ∀ n, front ++ (dstBytes n count frames ++ tail) = (front ++ fourcc 'D' 'S' 'T' ' ') ++ (beBytes 8 n ++
      ((frteChunk count).bytes ++ bytesOf (bodyChunks frames) ++ tail)) := by
    intro n
    simp only [dstBytes, List.append_assoc]
  rw [hsplit] at hle
  rw [hsplit, hsplit]
  have hpatch := @writeAll_patch position _ (beBytes 8 a) (beBytes 8 b) _ (by rw [length_beBytes, length_beBytes]) hle
  rwa [List.length_append, length_fourcc, length_beBytes, Nat.add_assoc] at hpatch

theorem patch_frameCount {front : List UInt8} {a b dstSize : ℕ} (hle : (front ++ (dstBytes dstSize a frames ++ tail)).length ≤ usizeMax) :
    ((⟨front ++ (dstBytes dstSize a frames ++ tail), position⟩ : OutputFile).seek (front.length + 24)).writeAll (beBytes 4 b) =
      .ok ⟨front ++ (dstBytes dstSize b frames ++ tail), front.length + 28⟩ := by
  have hsplit : ∀ n, front ++ (dstBytes dstSize n frames ++ tail) =
      (front ++ fourcc 'D' 'S' 'T' ' ' ++ beBytes 8 dstSize ++ fourcc 'F' 'R' 'T' 'E' ++ beBytes 8 6) ++ (beBytes 4 n ++
        (beBytes 2 frameRate ++ bytesOf (bodyChunks frames) ++ tail)) := by
    intro n
    simp only [dstBytes, frteChunk_bytes, List.append_assoc]
  rw [hsplit] at hle
  rw [hsplit, hsplit]
  have hpatch := @writeAll_patch position _ (beBytes 4 a) (beBytes 4 b) _ (by rw [length_beBytes, length_beBytes]) hle
  simpa only [List.length_append, length_fourcc, length_beBytes, Nat.add_assoc, Nat.reduceAdd] using hpatch

end

def dstiChunk (frames : List (List UInt8 × List UInt8)) : Chunk := chunk 'D' 'S' 'T' 'I' (indexBytes (indexEntries 18 frames))

/-- The size of the `DST ` chunk. -/
def dstSize (frames : List (List UInt8 × List UInt8)) : ℕ := 18 + (bytesOf (bodyChunks frames)).length

/-- The length of the file. -/
def fileLength (channelCount : ℕ) (frames : List (List UInt8 × List UInt8)) (footer : List UInt8) : ℕ :=
  132 + 4 * channelCount + dstSize frames + (dstiChunk frames).bytes.length + footer.length

/-- The finished file. -/
def fileBytes (channelCount sampleRate : ℕ) (frames : List (List UInt8 × List UInt8)) (footer : List UInt8) : List UInt8 :=
  frontBytes channelCount sampleRate (fileLength channelCount frames footer - 12) ++
    (dstBytes (dstSize frames) frames.length frames ++ ((dstiChunk frames).bytes ++ footer))

theorem length_fileBytes (channelCount sampleRate : ℕ) (frames : List (List UInt8 × List UInt8)) (footer : List UInt8) :
    (fileBytes channelCount sampleRate frames footer).length = fileLength channelCount frames footer := by
  rw [fileBytes, fileLength, dstSize]
  simp only [List.length_append, length_frontBytes, length_dstBytes]
  omega

theorem finish_eq_ok {file : List UInt8} :
    (written channelCount sampleRate rate frames footer).finish = .ok file ↔
      frames.length < 2 ^ 32 ∧ fileLength channelCount frames (footer.getD []) ≤ usizeMax ∧
        file = fileBytes channelCount sampleRate frames (footer.getD []) := by
  have hentries : (indexEntries 18 frames).length = frames.length := length_indexEntries 18 frames
  have hcount := length_bodyChunks_ge frames
  have hmax : usizeMax = 18446744073709551615 := rfl
  unfold finish
  dsimp only [written]
  rw [ensure_bind_eq_ok]
  refine and_congr_right fun hframes => ?_
  rw [checkedMul_of_le (by omega)]
  change (writeChunk _ _ _ >>= _) = _ ↔ _
  rw [writeChunk_bind_eq_ok]
  refine Iff.trans (and_congr_right fun hle => writeFooter_bind_eq_ok hle) ?_
  have hopen : ∀ n m k, (frontBytes channelCount sampleRate n ++ dstBytes m k frames ++ (dstiChunk frames).bytes ++ footer.getD []) =
      frontBytes channelCount sampleRate n ++ (dstBytes m k frames ++ ((dstiChunk frames).bytes ++ footer.getD [])) := by
    intro n m k
    simp only [List.append_assoc]
  have hlength : ∀ n m k, (frontBytes channelCount sampleRate n ++ (dstBytes m k frames ++
      ((dstiChunk frames).bytes ++ footer.getD []))).length = fileLength channelCount frames (footer.getD []) := by
    intro n m k
    rw [fileLength, dstSize]
    simp only [List.length_append, length_frontBytes, length_dstBytes]
    omega
  have hchunk : chunk 'D' 'S' 'T' 'I' (indexBytes (indexEntries 18 frames)) = dstiChunk frames := rfl
  rw [hchunk, hopen, hlength]
  refine Iff.trans ⟨fun h => h.2, fun h => ⟨?_, h⟩⟩ (and_congr_right fun hle => ?_)
  · have hle := h.1
    rw [← hlength 0 0 0] at hle
    simp only [List.length_append] at hle ⊢
    omega
  -- the three patches, each of the length of its placeholder
  have hfront : (frontBytes channelCount sampleRate 0).length =
      (frontBytes channelCount sampleRate (fileLength channelCount frames (footer.getD []) - 12)).length := by
    rw [length_frontBytes, length_frontBytes]
  have hlarge : chunkHeaderSize ≤ fileLength channelCount frames (footer.getD []) := by
    rw [fileLength, chunkHeaderSize]
    omega
  rw [OutputFile.ofBytes, hlength]
  dsimp only
  rw [checkedSub_of_le hlarge, orError_some, pure_bind_eq_ok, patch_frm8Size (by rwa [hlength]), pure_bind_eq_ok, hfront, chunkHeaderSize,
    patch_dstSize (by rwa [hlength]), pure_bind_eq_ok, patch_frameCount (by rwa [hlength]), pure_bind_eq_ok]
  constructor
  · rintro ⟨⟩
    rfl
  · rintro rfl
    rfl

/-- What the writer accepts and what it leaves. -/
theorem writeFile_eq_ok {file : List UInt8} :
    writeFile channelCount sampleRate frames footer = .ok file ↔
      ∃ rate, dstRateFromSampleRate sampleRate = .ok rate ∧ isLegalDstChannelCount channelCount = true ∧
        (∀ frame ∈ frames, Writable channelCount rate frame) ∧ frames.length < 2 ^ 32 ∧
        fileLength channelCount frames (footer.getD []) ≤ usizeMax ∧
        file = fileBytes channelCount sampleRate frames (footer.getD []) := by
  have hmax : usizeMax = 18446744073709551615 := rfl
  have hfooter : ∀ rate, (written channelCount sampleRate rate frames none).withFooter footer =
      written channelCount sampleRate rate frames footer := by
    intro rate
    cases footer <;> rfl
  have hstart : ∀ {n}, n ≤ 6 → (frontBytes n sampleRate 0 ++ dstBytes 0 0 []).length ≤ usizeMax := by
    intro n hn
    rw [List.length_append, length_frontBytes, length_dstBytes, hmax, show (bytesOf (bodyChunks [])).length = 0 from rfl]
    omega
  rw [writeFile, bind_eq_ok]
  constructor
  · rintro ⟨w, hnew, h⟩
    obtain ⟨rate, hrate, hlegal, rfl⟩ := new_eq_ok.1 hnew
    obtain ⟨w, hframes, h⟩ := bind_eq_ok.1 h
    obtain ⟨hwritable, -, rfl⟩ := (writeFrames_eq_ok (hstart (of_decide_eq_true hlegal).2)).1 hframes
    rw [List.nil_append, hfooter, finish_eq_ok] at h
    exact ⟨rate, hrate, hlegal, hwritable, h⟩
  · rintro ⟨rate, hrate, hlegal, hwritable, hcount, hlength, rfl⟩
    refine ⟨_, new_eq_ok.2 ⟨rate, hrate, hlegal, rfl⟩, bind_eq_ok.2
      ⟨_, (writeFrames_eq_ok (hstart (of_decide_eq_true hlegal).2)).2 ⟨hwritable, ?_, rfl⟩, ?_⟩⟩
    · rw [fileLength, dstSize] at hlength
      rw [List.nil_append, List.length_append, length_frontBytes, length_dstBytes]
      omega
    · rw [List.nil_append, hfooter, finish_eq_ok]
      exact ⟨hcount, hlength, rfl⟩

end DffDstWriter

end Container
