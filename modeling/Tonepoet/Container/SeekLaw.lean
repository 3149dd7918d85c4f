import Tonepoet.Container.PlaceKeeping

/-!
# Seeking is skipping

The adapter counts the decoded frames beside the reader it decodes from, which has moved on when a frame is refused.
-/

namespace Container

open Rust ByteFile ChunkFile SeekableStream Dst DffDstWriter

/-! ## DSDIFF/DST -/

namespace DstDsdiffStreamReader

variable {r s s' : DstDsdiffStreamReader} {k : ℕ}

theorem nextDstFrame_none : s.nextDstFrame = .ok (none, s') ↔ s.frames.length ≤ s.nextIndex ∧ s' = s := by
  unfold nextDstFrame
  cases hdesc : s.frames[s.nextIndex]? with
  | none =>
    rw [List.getElem?_eq_none_iff] at hdesc
    simp only [Except.ok.injEq, Prod.mk.injEq, true_and, hdesc]
    exact eq_comm
  | some desc =>
    have hlt := (List.getElem?_eq_some_iff.1 hdesc).1
    refine ⟨fun h => ?_, fun h => absurd h.1 (not_le.2 hlt)⟩
    obtain ⟨encoded, -, hframe⟩ := bind_eq_ok.1 h
    cases hframe

/-- A frame is the one at the index, and the reader moves on by one. -/
theorem nextDstFrame_some {frame : DstFrame} (h : s.nextDstFrame = .ok (some frame, s')) :
    s.nextIndex < s.frames.length ∧ frame.frameIndex = s.nextIndex ∧ s' = { s with nextIndex := s.nextIndex + 1 } := by
  unfold nextDstFrame at h
  cases hdesc : s.frames[s.nextIndex]? with
  | none =>
    rw [hdesc] at h
    cases h
  | some desc =>
    rw [hdesc] at h
    obtain ⟨encoded, -, hframe⟩ := bind_eq_ok.1 h
    cases hframe
    exact ⟨(List.getElem?_eq_some_iff.1 hdesc).1, rfl, rfl⟩

theorem seekFrame_eq_ok {target : ℕ} {result : Unit × DstDsdiffStreamReader} (h : s.seekFrame target = .ok result) :
    result.2 = { s with nextIndex := target } ∧ target ≤ s.frames.length := by
  unfold seekFrame at h
  simp only [bind_eq_ok, ensure_eq_ok] at h
  obtain ⟨-, hle, hresult⟩ := h
  cases hresult
  exact ⟨rfl, hle⟩

/-- A reader of the same file. -/
def SameFile (r s : DstDsdiffStreamReader) : Prop := ∃ nextIndex, s = { r with nextIndex }

/-- The reader stands at frame `k`, which is one of the file or its end. -/
def At (r : DstDsdiffStreamReader) (k : ℕ) (s : DstDsdiffStreamReader) : Prop := s = { r with nextIndex := k } ∧ k ≤ r.frames.length

/-- A call that succeeds moves on at most by one frame. -/
theorem nextDstFrame_at {result : Option DstFrame × DstDsdiffStreamReader} (hs : At r k s) (h : s.nextDstFrame = .ok result) :
    ∃ j, At r j result.2 := by
  obtain ⟨rfl, hk⟩ := hs
  obtain ⟨frame, s'⟩ := result
  cases frame with
  | none =>
    obtain ⟨-, rfl⟩ := nextDstFrame_none.1 h
    exact ⟨k, rfl, hk⟩
  | some frame =>
    obtain ⟨hlt, -, rfl⟩ := nextDstFrame_some h
    exact ⟨k + 1, rfl, hlt⟩

theorem nextDstFrame_sameFile {result : Option DstFrame × DstDsdiffStreamReader} (h : s.nextDstFrame = .ok result) : SameFile s result.2 := by
  obtain ⟨frame, s'⟩ := result
  cases frame with
  | none =>
    obtain ⟨-, rfl⟩ := nextDstFrame_none.1 h
    exact ⟨_, rfl⟩
  | some frame =>
    obtain ⟨-, -, rfl⟩ := nextDstFrame_some h
    exact ⟨_, rfl⟩

theorem placed (r : DstDsdiffStreamReader) : Placed stream (SameFile r) (At r) where
  inside := by
    rintro k s ⟨rfl, -⟩
    exact ⟨_, rfl⟩
  position := by
    rintro k s ⟨rfl, -⟩
    rfl
  agree := by
    rintro k s t ⟨rfl, -⟩ ⟨rfl, -⟩
    rfl
  next_inside := by
    rintro s ⟨_, rfl⟩
    exact mutating_snd (fun _ _ hcall => nextDstFrame_sameFile hcall) ⟨_, rfl⟩
  next_at := by
    intro k s hs _
    exact mutating_snd (P := fun r' => ∃ j, At r j r') (fun _ _ hcall => nextDstFrame_at hs hcall) ⟨k, hs⟩
  number := by
    rintro k s f ⟨rfl, -⟩ hf
    obtain ⟨r', hcall⟩ := mutating_fst_eq_ok.1 hf
    exact (nextDstFrame_some hcall).2.1
  ended := by
    rintro k s n ⟨rfl, hk⟩ hn
    cases hn
    constructor
    · intro hf
      obtain ⟨r', hcall⟩ := mutating_fst_eq_ok.1 hf
      exact le_antisymm hk (nextDstFrame_none.1 hcall).1
    · intro hend
      exact mutating_fst_eq_ok.2 ⟨_, nextDstFrame_none.2 ⟨hend.ge, rfl⟩⟩
  seek_at := by
    rintro target s ⟨_, rfl⟩ hseek
    obtain ⟨r', hcall⟩ := mutating_fst_eq_ok.1 hseek
    obtain ⟨hstand, hle⟩ := seekFrame_eq_ok hcall
    exact ⟨(congrArg Prod.snd (mutating_ok hcall)).trans hstand, hle⟩
  seek_error := by
    intro target s e hseek
    exact congrArg Prod.snd (mutating_error (mutating_fst_eq_error.1 hseek))
  refuses := by
    rintro s - n target hn hlt
    refine mutating_refuses fun result hcall => ?_
    obtain ⟨-, hle⟩ := seekFrame_eq_ok hcall
    cases hn
    omega

theorem new_nextIndex {file : List UInt8} (h : new file = .ok r) : r.nextIndex = 0 := by
  unfold new at h
  simp only [bind_eq_ok] at h
  obtain ⟨info, -, -, -, -, -, frameScan, -, hr⟩ := h
  cases hr
  rfl

theorem at_start (h : r.nextIndex = 0) : At r 0 r := by
  refine ⟨?_, Nat.zero_le _⟩
  cases r
  cases h
  rfl

theorem keepsPlace {file : List UInt8} (h : new file = .ok r) : KeepsPlace stream r := (placed r).keepsPlace (at_start (new_nextIndex h))

end DstDsdiffStreamReader

/-! ## The adapter -/

section
variable {d : DstDecoder} {input output output' : List UInt8}

theorem orDst_eq_ok {α : Type} {x : Outcome DstError α} {a : α} : orDst x = .ok a ↔ x = .ok a := by
  cases x <;> simp [orDst, Except.mapError]

/-- The decoder keeps the length of the buffer. -/
theorem decodeFrameInto_length (h : d.Built) {r : ℕ × List UInt8} (hr : d.decodeFrameInto input output = .ok r) :
    r.2.length = output.length := by
  by_cases hfits : input.length * 8 ≤ usizeMax
  · exact ((DstDecoder.decodeFrameInto_sound h hfits).of_ok hr).2.1
  · by_cases hbuffer : d.frameBytesPerChannel * d.channelCount ≤ output.length
    · rw [DstDecoder.decodeFrameInto_uncountable h (not_le.1 hfits) hbuffer] at hr
      cases hr
    · unfold DstDecoder.decodeFrameInto DstDecoder.dsdFrameBytes at hr
      rw [checkedMul_of_le h.frame_le_usizeMax, okOr_some, pure_bind, if_pos (not_le.1 hbuffer)] at hr
      cases hr

/-- A buffer that is long enough only keeps what is behind the frame. -/
theorem decodeFrameInto_eq (h : d.Built) (input : List UInt8) : ∃ decoded : Outcome DstError (List UInt8), ∀ output : List UInt8,
    d.decodeFrameInto input output =
      if output.length < d.frameBytesPerChannel * d.channelCount then
        fail (.outputBufferTooSmall (d.frameBytesPerChannel * d.channelCount) output.length)
      else decoded.map fun out => (d.frameBytesPerChannel * d.channelCount, out ++ output.drop (d.frameBytesPerChannel * d.channelCount)) := by
  refine ⟨if input = [] then fail (.unexpectedEof 0)
    else (StateT.run (do
      if ← BitReader.readBit then d.decodeCompressedDstPayload (List.replicate (d.frameBytesPerChannel * d.channelCount) 0)
      else DstDecoder.decodeUncompressedDstPayload (List.replicate (d.frameBytesPerChannel * d.channelCount) 0))
      (BitReader.new input)).map Prod.fst, fun output => ?_⟩
  unfold DstDecoder.decodeFrameInto DstDecoder.dsdFrameBytes
  rw [checkedMul_of_le h.frame_le_usizeMax, okOr_some, pure_bind]
  by_cases hbuffer : output.length < d.frameBytesPerChannel * d.channelCount
  · rw [if_pos hbuffer, if_pos hbuffer]
  · rw [if_neg hbuffer, if_neg hbuffer]
    by_cases hinput : input = []
    · rw [if_pos hinput, if_pos hinput]
      rfl
    · rw [if_neg hinput, if_neg hinput]
      dsimp only
      generalize StateT.run _ (BitReader.new input) = run
      cases run <;> rfl

/-- What it decodes does not depend on what the buffer held. -/
theorem decodeFrameInto_agree (h : d.Built) (hlen : output.length = output'.length) :
    (d.decodeFrameInto input output).map (fun r => (r.1, r.2.take r.1)) = (d.decodeFrameInto input output').map (fun r => (r.1, r.2.take r.1)) := by
  obtain ⟨decoded, heq⟩ := decodeFrameInto_eq h input
  have hkept := @decodeFrameInto_length d input output h
  rw [heq] at hkept
  rw [heq, heq, ← hlen]
  split_ifs at hkept ⊢ with hbuffer
  · rfl
  · cases decoded with
    | error e => rfl
    | ok out =>
      have hout := hkept rfl
      rw [List.length_append, List.length_drop] at hout
      have hexact : out.length = d.frameBytesPerChannel * d.channelCount := by omega
      show Except.ok (_, List.take _ (out ++ _)) = Except.ok (_, List.take _ (out ++ _))
      rw [← hexact, List.take_left, List.take_left]

end

namespace DstToDsdAdapter

/-- An adapter of the same file: the buffer, the counters and the last checksum may differ. -/
structure SameFile (r s : DstToDsdAdapter) : Prop where
  inner : DstDsdiffStreamReader.SameFile r.inner s.inner
  decoder : s.decoder = r.decoder
  expected : s.expectedDecodedLen = r.expectedDecodedLen
  buffer : s.decodeBuffer.length = r.decodeBuffer.length

/-- The adapter and its reader stand at frame `k`. -/
structure At (r : DstToDsdAdapter) (k : ℕ) (s : DstToDsdAdapter) : Prop extends SameFile r s where
  reader : DstDsdiffStreamReader.At r.inner k s.inner
  counted : s.decodedFrameIndex = k

variable {r s t : DstToDsdAdapter} {k : ℕ} {scribble : List UInt8 → List UInt8 → List UInt8}

/-- How a frame that is accepted leaves the adapter. -/
theorem decodeNext_eq_ok {frame : DstFrame} {result : Option DsdFrame × DstToDsdAdapter} (h : decodeNext s frame = .ok result) :
    ∃ decodedLen decodeBuffer crcStatus, s.decoder.decodeFrameInto frame.encoded s.decodeBuffer = .ok (decodedLen, decodeBuffer) ∧
      result.2 = { s with decodeBuffer, decodedFrameIndex := s.decodedFrameIndex + 1, lastCrcStatus := some crcStatus } ∧
      ∃ f, result.1 = some f ∧ f.frameIndex = s.decodedFrameIndex := by
  unfold decodeNext at h
  simp only [bind_eq_ok, ensure_eq_ok, orError_eq_ok, checkedAdd_eq_some_iff] at h
  obtain ⟨⟨decodedLen, decodeBuffer⟩, hdecode, -, -, -, -, -, ⟨-, rfl⟩, hresult⟩ := h
  cases hresult
  exact ⟨decodedLen, decodeBuffer, _, orDst_eq_ok.1 hdecode, rfl, _, rfl, rfl⟩

/-- The frame does not depend on what the buffer held. -/
theorem decodeNext_agree (h : s.decoder.Built) {buffer : List UInt8} {status : Option DstCrcStatus} (hlen : s.decodeBuffer.length = buffer.length)
    (frame : DstFrame) :
    (decodeNext s frame).map Prod.fst = (decodeNext { s with decodeBuffer := buffer, lastCrcStatus := status } frame).map Prod.fst := by
  have hagree := @decodeFrameInto_agree s.decoder frame.encoded s.decodeBuffer buffer h hlen
  unfold decodeNext
  dsimp only
  cases hs : s.decoder.decodeFrameInto frame.encoded s.decodeBuffer with
  | error e =>
    rw [hs] at hagree
    cases ht : s.decoder.decodeFrameInto frame.encoded buffer with
    | error e' =>
      rw [ht] at hagree
      cases hagree
      rfl
    | ok decoded =>
      rw [ht] at hagree
      cases hagree
  | ok decoded =>
    rw [hs] at hagree
    cases ht : s.decoder.decodeFrameInto frame.encoded buffer with
    | error e' =>
      rw [ht] at hagree
      cases hagree
    | ok decoded' =>
      rw [ht] at hagree
      obtain ⟨n, out⟩ := decoded
      obtain ⟨n', out'⟩ := decoded'
      obtain ⟨hn, htake⟩ := Prod.ext_iff.1 (Except.ok.inj hagree)
      dsimp only at hn htake
      subst hn
      show Except.map Prod.fst (ensure _ _ >>= _) = Except.map Prod.fst (ensure _ _ >>= _)
      rw [← htake]
      cases ensure (n = s.expectedDecodedLen) _ with
      | error e => rfl
      | ok u =>
        show Except.map Prod.fst (ensure _ _ >>= _) = Except.map Prod.fst (ensure _ _ >>= _)
        cases ensure (crcFailed (.verify frame.dstc (out.take n)) = false) _ with
        | error e => rfl
        | ok u =>
          show Except.map Prod.fst (orError _ _ >>= _) = Except.map Prod.fst (orError _ _ >>= _)
          cases orError _ (checkedAdd s.decodedFrameIndex 1) <;> rfl

/-- A call that succeeds gives no frame where the reader has none, or the frame the reader has next. -/
theorem nextDsdFrame_eq_ok {result : Option DsdFrame × DstToDsdAdapter} : s.nextDsdFrame = .ok result ↔
    (∃ inner, s.inner.nextDstFrame = .ok (none, inner) ∧ result = (none, { s with inner })) ∨
      ∃ frame inner, s.inner.nextDstFrame = .ok (some frame, inner) ∧ decodeNext { s with inner } frame = .ok result := by
  unfold nextDsdFrame
  cases s.inner.nextDstFrame with
  | error e => exact ⟨nofun, fun h => by simp at h⟩
  | ok read =>
    obtain ⟨frame, inner⟩ := read
    cases frame with
    | none =>
      constructor
      · intro h
        cases h
        exact .inl ⟨inner, rfl, rfl⟩
      · rintro (⟨_, hread, rfl⟩ | ⟨_, _, hread, _⟩)
        · cases hread
          rfl
        · cases hread
    | some frame =>
      constructor
      · intro h
        exact .inr ⟨frame, inner, rfl, h⟩
      · rintro (⟨_, hread, _⟩ | ⟨_, _, hread, h⟩)
        · cases hread
        · cases hread
          exact h

theorem SameFile.nextDsdFrame (h : SameFile r s) (hbuilt : r.decoder.Built) {result : Option DsdFrame × DstToDsdAdapter}
    (hcall : s.nextDsdFrame = .ok result) : SameFile r result.2 := by
  obtain ⟨⟨k, hinner⟩, hdecoder, hexpected, hbuffer⟩ := h
  rcases nextDsdFrame_eq_ok.1 hcall with ⟨inner, hread, rfl⟩ | ⟨frame, inner, hread, hdecode⟩
  · obtain ⟨-, rfl⟩ := DstDsdiffStreamReader.nextDstFrame_none.1 hread
    exact ⟨⟨k, hinner⟩, hdecoder, hexpected, hbuffer⟩
  · obtain ⟨-, -, rfl⟩ := DstDsdiffStreamReader.nextDstFrame_some hread
    obtain ⟨decodedLen, decodeBuffer, crcStatus, hinto, hresult, -⟩ := decodeNext_eq_ok hdecode
    have hlength := decodeFrameInto_length (hdecoder ▸ hbuilt) hinto
    rw [hresult, hinner]
    exact ⟨⟨_, rfl⟩, hdecoder, hexpected, hlength.trans hbuffer⟩

theorem SameFile.leftByError (h : SameFile r s) (hbuilt : r.decoder.Built) : SameFile r (s.leftByError scribble) := by
  obtain ⟨⟨k, hinner⟩, hdecoder, hexpected, hbuffer⟩ := h
  unfold DstToDsdAdapter.leftByError
  split
  · next frame inner hread =>
    obtain ⟨-, -, rfl⟩ := DstDsdiffStreamReader.nextDstFrame_some hread
    split
    · rw [hinner]
      exact ⟨⟨_, rfl⟩, hdecoder, hexpected, (List.takeD_length _ _ _).trans hbuffer⟩
    · next decodedLen decodeBuffer hinto =>
      have hlength := decodeFrameInto_length (hdecoder ▸ hbuilt) hinto
      dsimp only
      rw [hinner]
      split
      · exact ⟨⟨_, rfl⟩, hdecoder, hexpected, hlength.trans hbuffer⟩
      · exact ⟨⟨_, rfl⟩, hdecoder, hexpected, hlength.trans hbuffer⟩
  · exact ⟨⟨k, hinner⟩, hdecoder, hexpected, hbuffer⟩

theorem At.next (h : At r k s) (hbuilt : r.decoder.Built) (htrips : ¬ s.Trips) : ∃ j, At r j (mutating s.nextDsdFrame (s.leftByError scribble)).2 := by
  cases hread : s.inner.nextDstFrame with
  | error e =>
    have hcall : s.nextDsdFrame = .error e := by
      rw [nextDsdFrame, hread]
      rfl
    have hleft : s.leftByError scribble = s := by rw [DstToDsdAdapter.leftByError, hread]
    rw [mutating_error hcall, hleft]
    exact ⟨k, h⟩
  | ok read =>
    obtain ⟨frame, inner⟩ := read
    cases frame with
    | none =>
      have hcall := nextDsdFrame_eq_ok.2 (.inl ⟨inner, hread, rfl⟩)
      obtain ⟨-, rfl⟩ := DstDsdiffStreamReader.nextDstFrame_none.1 hread
      rw [mutating_ok hcall]
      exact ⟨k, h⟩
    | some frame =>
      obtain ⟨result, hdecode⟩ : ∃ result, decodeNext { s with inner } frame = .ok result := by
        by_contra hnone
        exact htrips ⟨frame, inner, hread, fun result hresult => hnone ⟨result, hresult⟩⟩
      have hcall := nextDsdFrame_eq_ok.2 (.inr ⟨frame, inner, hread, hdecode⟩)
      have hsame := h.toSameFile.nextDsdFrame hbuilt hcall
      obtain ⟨hlt, -, rfl⟩ := DstDsdiffStreamReader.nextDstFrame_some hread
      obtain ⟨hinner, -⟩ := h.reader
      obtain ⟨decodedLen, decodeBuffer, crcStatus, -, hresult, -⟩ := decodeNext_eq_ok hdecode
      rw [mutating_ok hcall]
      rw [hinner] at hlt
      refine ⟨k + 1, hsame, ?_, ?_⟩
      · rw [hresult, hinner]
        exact ⟨rfl, hlt⟩
      · rw [hresult]
        exact congrArg (· + 1) h.counted

theorem seekFrame_eq_ok {target : ℕ} {result : Unit × DstToDsdAdapter} (h : s.seekFrame target = .ok result) :
    result.2 = { s with inner := { s.inner with nextIndex := target }, decodedFrameIndex := target } ∧ target ≤ s.inner.frames.length := by
  unfold seekFrame at h
  obtain ⟨⟨_, inner⟩, hseek, hresult⟩ := bind_eq_ok.1 h
  obtain ⟨rfl, hle⟩ := DstDsdiffStreamReader.seekFrame_eq_ok hseek
  cases hresult
  exact ⟨rfl, hle⟩

theorem placed (h : r.decoder.Built) : Placed (stream scribble) (SameFile r) (At r) where
  inside hs := hs.toSameFile
  position hs := hs.counted
  agree := by
    intro k s t hs ht
    have hinner : t.inner = s.inner := ht.reader.1.trans hs.reader.1.symm
    have ht' : t = { s with decodeBuffer := t.decodeBuffer, lastCrcStatus := t.lastCrcStatus } := by
      have hdecoder : t.decoder = s.decoder := ht.decoder.trans hs.decoder.symm
      have hexpected : t.expectedDecodedLen = s.expectedDecodedLen := ht.expected.trans hs.expected.symm
      have hcounted : t.decodedFrameIndex = s.decodedFrameIndex := ht.counted.trans hs.counted.symm
      cases t
      cases hinner
      cases hdecoder
      cases hexpected
      cases hcounted
      rfl
    show (mutating s.nextDsdFrame (s.leftByError scribble)).1 = (mutating t.nextDsdFrame (t.leftByError scribble)).1
    rw [mutating_fst, mutating_fst, ht']
    unfold nextDsdFrame
    cases s.inner.nextDstFrame with
    | error e => rfl
    | ok read =>
      obtain ⟨frame, inner⟩ := read
      cases frame with
      | none => rfl
      | some frame => exact decodeNext_agree (s := { s with inner }) (hs.decoder ▸ h) (hs.buffer.trans ht.buffer.symm) frame
  next_inside := by
    intro s hs
    exact mutating_snd (fun _ _ hcall => hs.nextDsdFrame h hcall) (hs.leftByError h)
  next_at hs htrips := hs.next h htrips
  number := by
    intro k s f hs hf
    obtain ⟨r', hcall⟩ := mutating_fst_eq_ok.1 hf
    rcases nextDsdFrame_eq_ok.1 hcall with ⟨inner, -, hresult⟩ | ⟨frame, inner, hread, hdecode⟩
    · cases hresult
    · obtain ⟨_, _, _, -, -, f', hf', hindex⟩ := decodeNext_eq_ok hdecode
      cases hf'
      exact hindex.trans hs.counted
  ended := by
    intro k s n hs hn
    obtain ⟨hinner, hk⟩ := hs.reader
    have hplaced := (DstDsdiffStreamReader.placed r.inner).ended hs.reader hn
    rw [← hplaced]
    constructor
    · intro hf
      obtain ⟨r', hcall⟩ := mutating_fst_eq_ok.1 hf
      rcases nextDsdFrame_eq_ok.1 hcall with ⟨inner, hread, -⟩ | ⟨frame, inner, hread, hdecode⟩
      · exact mutating_fst_eq_ok.2 ⟨inner, hread⟩
      · obtain ⟨_, _, _, -, -, f', hf', -⟩ := decodeNext_eq_ok hdecode
        cases hf'
    · intro hf
      obtain ⟨inner, hread⟩ := mutating_fst_eq_ok.1 hf
      exact mutating_fst_eq_ok.2 ⟨_, nextDsdFrame_eq_ok.2 (.inl ⟨inner, hread, rfl⟩)⟩
  seek_at := by
    intro target s hs hseek
    obtain ⟨r', hcall⟩ := mutating_fst_eq_ok.1 hseek
    obtain ⟨hstand, hle⟩ := seekFrame_eq_ok hcall
    obtain ⟨⟨k, hinner⟩, hdecoder, hexpected, hbuffer⟩ := hs
    rw [hinner] at hstand hle
    have hleft : ((stream scribble).seek target s).2 = ((), r').2 := congrArg Prod.snd (mutating_ok hcall)
    rw [hleft, hstand]
    exact ⟨⟨⟨_, rfl⟩, hdecoder, hexpected, hbuffer⟩, ⟨rfl, hle⟩, rfl⟩
  seek_error := by
    intro target s e hseek
    exact congrArg Prod.snd (mutating_error (mutating_fst_eq_error.1 hseek))
  refuses := by
    rintro s - n target hn hlt
    refine mutating_refuses fun result hcall => ?_
    obtain ⟨-, hle⟩ := seekFrame_eq_ok hcall
    cases hn
    omega

theorem keepsPlace {file : List UInt8} {inner : DstDsdiffStreamReader} (hinner : DstDsdiffStreamReader.new file = .ok inner)
    (h : new inner = .ok r) : KeepsPlace (stream scribble) r := by
  unfold new at h
  simp only [bind_eq_ok] at h
  obtain ⟨channels, -, rate, -, expected, -, decoder, hdecoder, hr⟩ := h
  cases hr
  have hbuilt := ((DstDecoder.new_built channels rate).of_ok (orDst_eq_ok.1 hdecoder)).1
  exact (placed hbuilt).keepsPlace ⟨⟨⟨_, rfl⟩, rfl, rfl, rfl⟩,
    DstDsdiffStreamReader.at_start (DstDsdiffStreamReader.new_nextIndex hinner), rfl⟩

end DstToDsdAdapter

/-! ## All readers -/

section
variable {r : DstDsdiffStreamReader}

/-- An adapter of a mono stream. -/
theorem DstToDsdAdapter.new_mono (hchannels : r.info.channelCount = 1) (hrate : r.info.sampleRate = 2822400) :
    DstToDsdAdapter.new r = .ok ⟨r, ⟨1, .dsd64, 4704, 37632⟩, List.replicate 4704 0, 4704, 0, none⟩ := by
  have hchecked : checkedDstChannelCount r.info = .ok 1 := by
    rw [checkedDstChannelCount, nonzeroChannelCount, hchannels]
    rfl
  rw [DstToDsdAdapter.new, hchecked, hrate]
  rfl

/-- A frame the decoder refuses: the reader inside has moved on, the count of decoded frames has not. -/
theorem DstToDsdAdapter.run_of_refused {reader : DstToDsdAdapter} {scribble : List UInt8 → List UInt8 → List UInt8} {frame : DstFrame}
    {after : DstDsdiffStreamReader} {e : Fault DstError} (hnext : reader.inner.nextDstFrame = .ok (some frame, after))
    (hdecode : reader.decoder.decodeFrameInto frame.encoded reader.decodeBuffer = .error e) :
    ((stream scribble).run reader [.next]).1 = { reader with
      inner := after
      decodeBuffer := (scribble frame.encoded reader.decodeBuffer).takeD reader.decodeBuffer.length 0 } := by
  have hcall : reader.nextDsdFrame = .error (.dst e) := by
    rw [nextDsdFrame, hnext]
    show (orDst (reader.decoder.decodeFrameInto frame.encoded reader.decodeBuffer) >>= _) = _
    rw [hdecode]
    rfl
  show (mutating reader.nextDsdFrame (reader.leftByError scribble)).2 = _
  rw [mutating_error hcall, leftByError, hnext]
  dsimp only
  rw [hdecode]

/-- A mono file with one frame that ends too early. -/
def truncatedFrame : List UInt8 := fileBytes 1 2822400 [([129], [])] (footerOf [])

/-- The decoder runs out of bits. -/
theorem decodeFrameInto_truncatedFrame : ∃ e, DstDecoder.decodeFrameInto ⟨1, .dsd64, 4704, 37632⟩ [129] (List.replicate 4704 0) = .error e := by
  have hfails : (DstDecoder.decodeFrameInto ⟨1, .dsd64, 4704, 37632⟩ [129] (List.replicate 4704 0)).isOk = false := by decide +kernel
  generalize DstDecoder.decodeFrameInto ⟨1, .dsd64, 4704, 37632⟩ [129] (List.replicate 4704 0) = result at hfails ⊢
  cases result with
  | error e => exact ⟨e, rfl⟩
  | ok r => cases hfails

theorem opened_truncatedFrame : ∃ inner reader, DstDsdiffStreamReader.new truncatedFrame = .ok inner ∧
    DstToDsdAdapter.new inner = .ok reader ∧ reader.inner.frames.length = 1 ∧ reader.decodedFrameIndex = 0 ∧
    ∃ frame after e, reader.inner.nextDstFrame = .ok (some frame, after) ∧
      reader.decoder.decodeFrameInto frame.encoded reader.decodeBuffer = .error e := by
  have hlength : fileLength 1 [([129], [])] (footerOf []) ≤ usizeMax := by
    rw [fileLength, dstSize, bodyChunks_cons, frameChunks_bytes]
    simp only [List.length_append, Chunk.length_bytes, chunk_data, length_beBytes, dstiChunk, length_indexBytes, length_indexEntries]
    decide
  have hdsdiff : IsDsdiff truncatedFrame 2822400 1 _ _ (dstChunk [([129], [])]) _ := isDsdiff_fileBytes (by decide) (by decide) hlength
  obtain ⟨inner, produced, hread⟩ := hdsdiff.readsBack (by decide) (by decide) (fun frame hframe => by
    rw [List.mem_singleton.1 hframe]
    decide)
  obtain ⟨hchannels, hrate⟩ := hread.format
  have hpayloads := hread.payloads
  have hyields := hread.yields
  obtain ⟨frame, rfl, hframe⟩ := List.map_eq_singleton_iff.1 hpayloads
  obtain ⟨e, hdecode⟩ := decodeFrameInto_truncatedFrame
  cases hyields with
  | @more _ after _ _ hnext hrest =>
    cases hrest with
    | done hend =>
      have hstart := DstDsdiffStreamReader.new_nextIndex hread.opened
      obtain ⟨hlt, -, rfl⟩ := DstDsdiffStreamReader.nextDstFrame_some hnext
      obtain ⟨hle, -⟩ := DstDsdiffStreamReader.nextDstFrame_none.1 hend
      dsimp only at hle
      refine ⟨inner, _, hread.opened, DstToDsdAdapter.new_mono hchannels hrate, ?_, rfl, frame, _, e, hnext, ?_⟩
      · show inner.frames.length = 1
        omega
      · rw [hframe]
        exact hdecode

end

end Container
