import Tonepoet.Container.DstRoundTrip
import Tonepoet.Container.SeekableReaders
import Tonepoet.Dst.Totality

/-!
# Where the readers stand

The state of a reader at a frame is written down once; what the calls do there and the rule of places give the law.
-/

namespace Container

open Rust ByteFile SeekableStream

section
variable {α ρ : Type} {call : Except DsdReadError (α × ρ)} {left r : ρ} {a : α}

theorem mutating_ok (h : call = .ok (a, r)) : mutating call left = (.ok a, r) := by rw [h, mutating]

theorem mutating_error {e : DsdReadError} (h : call = .error e) : mutating call left = (.error e, left) := by rw [h, mutating]

theorem mutating_fst : (mutating call left).1 = call.map Prod.fst := by cases call <;> rfl

theorem mutating_fst_eq_ok : (mutating call left).1 = .ok a ↔ ∃ r, call = .ok (a, r) := by
  cases hcall : call with
  | error e => simp [mutating]
  | ok result => simp [mutating, Prod.ext_iff]

theorem mutating_fst_eq_error {e : DsdReadError} : (mutating call left).1 = .error e ↔ call = .error e := by
  cases hcall : call with
  | error e' => simp [mutating]
  | ok result => simp [mutating]

/-- A call that cannot succeed, and fails before it changes anything. -/
theorem mutating_refuses (h : ∀ result, call ≠ .ok result) : (∃ e, (mutating call left).1 = .error e) ∧ (mutating call left).2 = left := by
  cases hcall : call with
  | error e => exact ⟨⟨e, rfl⟩, rfl⟩
  | ok result => exact absurd hcall (h result)

/-- Whatever the call returns, the reader afterwards has a property that both ways out give it. -/
theorem mutating_snd {P : ρ → Prop} (hok : ∀ a r, call = .ok (a, r) → P r) (herror : P left) : P (mutating call left).2 := by
  cases hcall : call with
  | error e => exact herror
  | ok result => exact hok result.1 result.2 hcall

end

theorem ensure_eq_ok {ε : Type} {condition : Prop} [Decidable condition] {e : ε} {u : Unit} : ensure condition e = .ok u ↔ condition := by
  unfold ensure
  split_ifs with h
  · exact ⟨fun _ => h, fun _ => rfl⟩
  · exact ⟨nofun, fun h' => absurd h' h⟩

theorem orError_eq_ok {ε α : Type} {e : ε} {o : Option α} {a : α} : orError e o = .ok a ↔ o = some a := by
  cases o <;> simp [orError]

theorem checkedMul_eq_some_iff {a b n : ℕ} : checkedMul a b = some n ↔ a * b ≤ usizeMax ∧ n = a * b := by
  unfold checkedMul
  split_ifs with h
  · rw [Option.some.injEq, and_iff_right h, eq_comm]
  · exact ⟨nofun, fun h' => absurd h'.1 h⟩

theorem nonzeroChannelCount_eq_ok {info : DsdContainerInfo} {channels : ℕ} :
    nonzeroChannelCount info = .ok channels ↔ info.channelCount ≠ 0 ∧ channels = info.channelCount := by
  unfold nonzeroChannelCount
  split_ifs with h
  · exact ⟨nofun, fun h' => absurd h h'.1⟩
  · rw [Except.ok.injEq, and_iff_right h, eq_comm]

theorem ceilDivU64_eq_ok {n d v : ℕ} : ceilDivU64 n d = .ok v ↔ d ≠ 0 ∧ n + (d - 1) ≤ usizeMax ∧ v = (n + (d - 1)) / d := by
  rw [ceilDivU64, ensure_bind_eq_ok, orError_bind_eq_ok]
  refine and_congr_right fun _ => ?_
  constructor
  · rintro ⟨a, ha, hv⟩
    obtain ⟨hle, rfl⟩ := checkedAdd_eq_some_iff.1 ha
    cases hv
    exact ⟨hle, rfl⟩
  · rintro ⟨hle, rfl⟩
    exact ⟨_, checkedAdd_of_le hle, rfl⟩

theorem toOption_eq_some {ε α : Type} {x : Except ε α} {a : α} : x.toOption = some a ↔ x = .ok a := by
  cases x <;> simp [Except.toOption]

/-- An item stands before the end when its bytes begin there, and the count is the first one that does not. -/
theorem count_eq_iff {k size unit n : ℕ} (hunit : unit ≠ 0) (hk : k * unit < size + unit) (hn : n = (size + (unit - 1)) / unit) :
    size ≤ k * unit ↔ k = n := by
  have hpos : 0 < unit := Nat.pos_of_ne_zero hunit
  have hle : k ≤ n := by
    rw [hn, Nat.le_div_iff_mul_le hpos]
    omega
  have hend : size ≤ k * unit ↔ n ≤ k := by
    have hsucc : n ≤ k ↔ n < k + 1 := Nat.lt_succ_iff.symm
    rw [hsucc, hn, Nat.div_lt_iff_lt_mul hpos, Nat.succ_mul]
    omega
  rw [hend]
  omega

theorem lt_of_le_count {k size unit n : ℕ} (hunit : unit ≠ 0) (hn : n = (size + (unit - 1)) / unit) (hk : k ≤ n) :
    k * unit < size + unit := by
  rw [hn, Nat.le_div_iff_mul_le (Nat.pos_of_ne_zero hunit)] at hk
  omega

/-! ## DSF -/

namespace DsfStreamReader

/-- What the constructor has found. -/
structure Fresh (r : DsfStreamReader) : Prop where
  channels : r.info.channelCount ≠ 0
  block : r.blockSizePerChannel = dsfCanonicalBlockSizePerChannel
  total : r.bytesPerChannelTotal ≤ usizeMax / 8
  position : r.position = r.info.dataOffset
  unread : r.bytesPerChannelRead = 0 ∧ r.frameIndex = 0

theorem fresh_of_new {file : List UInt8} {r : DsfStreamReader} (h : new file = .ok r) : Fresh r := by
  unfold new at h
  simp only [bind_eq_ok, ensure_eq_ok, orError_eq_ok, nonzeroChannelCount_eq_ok] at h
  obtain ⟨info, -, -, -, -, -, channels, ⟨hzero, -⟩, -, -, -, hblock, sampleCount, -, total, htotal, -, -, -, -, hr⟩ := h
  cases hr
  obtain ⟨-, hle, rfl⟩ := ceilDivU64_eq_ok.1 htotal
  exact ⟨hzero, hblock, Nat.div_le_div_right hle, rfl, rfl, rfl⟩

/-- The reader at frame `k`. -/
def standAt (r : DsfStreamReader) (k : ℕ) : DsfStreamReader := { r with
  position := r.info.dataOffset + k * r.blockSizePerChannel * r.info.channelCount
  bytesPerChannelRead := min (k * r.blockSizePerChannel) r.bytesPerChannelTotal
  frameIndex := k }

def frameAt (r : DsfStreamReader) (k : ℕ) (blocks : List (List UInt8)) : DsdFrame := {
  frameIndex := k
  data := interleave r.info.channelCount (r.standAt k).usefulPerChannel blocks
  channelCount := r.info.channelCount
  sampleRate := r.info.sampleRate
  byteOrder := .msbFirst
  isFinal := min ((k + 1) * r.blockSizePerChannel) r.bytesPerChannelTotal ≥ r.bytesPerChannelTotal }

variable {r s : DsfStreamReader} {k : ℕ}

theorem Fresh.standAt_zero (h : Fresh r) : r.standAt 0 = r := by
  obtain ⟨-, -, -, hposition, hread, hindex⟩ := h
  cases r
  simp_all [standAt]

theorem Fresh.block_ne_zero (h : Fresh r) : r.blockSizePerChannel ≠ 0 := by
  rw [h.block]
  decide

/-- The next call at frame `k`. -/
theorem Fresh.nextDsdFrame_standAt (h : Fresh r) : (r.standAt k).nextDsdFrame =
    if r.bytesPerChannelTotal ≤ k * r.blockSizePerChannel then .ok (none, r.standAt k)
    else (r.standAt k).nextBlocks >>= fun blocks => .ok (some (r.frameAt k blocks), r.standAt (k + 1)) := by
  have hblock := h.block
  have htotal := h.total
  by_cases hend : r.bytesPerChannelTotal ≤ k * r.blockSizePerChannel
  · rw [if_pos hend, nextDsdFrame, if_pos (by simp only [standAt]; omega)]
  · have hchannels : nonzeroChannelCount r.info = .ok r.info.channelCount := if_neg h.channels
    have hsub : checkedSub r.bytesPerChannelTotal (min (k * r.blockSizePerChannel) r.bytesPerChannelTotal) =
        some (r.bytesPerChannelTotal - min (k * r.blockSizePerChannel) r.bytesPerChannelTotal) := checkedSub_of_le (by omega)
    have hread : min (k * r.blockSizePerChannel) r.bytesPerChannelTotal + (r.standAt k).usefulPerChannel =
        min ((k + 1) * r.blockSizePerChannel) r.bytesPerChannelTotal := by
      simp only [usefulPerChannel, standAt, Nat.succ_mul]
      omega
    have hadd : checkedAdd (min (k * r.blockSizePerChannel) r.bytesPerChannelTotal) (r.standAt k).usefulPerChannel =
        some (min ((k + 1) * r.blockSizePerChannel) r.bytesPerChannelTotal) := by
      rw [checkedAdd_of_le (by rw [hread]; unfold usizeMax at *; omega), hread]
    have hcount : checkedAdd k 1 = some (k + 1) := by
      refine checkedAdd_of_le ?_
      rw [hblock, dsfCanonicalBlockSizePerChannel] at hend
      unfold usizeMax at *
      omega
    have hposition : r.info.dataOffset + k * r.blockSizePerChannel * r.info.channelCount + r.info.channelCount * r.blockSizePerChannel =
        r.info.dataOffset + (k + 1) * r.blockSizePerChannel * r.info.channelCount := by ring
    rw [if_neg hend, nextDsdFrame, if_neg (by simp only [standAt]; omega)]
    show (nonzeroChannelCount r.info >>= _) = _
    rw [hchannels]
    show (orError _ (checkedSub r.bytesPerChannelTotal (min (k * r.blockSizePerChannel) r.bytesPerChannelTotal)) >>= _) = _
    rw [hsub]
    show ((r.standAt k).nextBlocks >>= _) = _
    cases hblocks : (r.standAt k).nextBlocks with
    | error e => rfl
    | ok blocks =>
      show (orError _ (checkedAdd (min (k * r.blockSizePerChannel) r.bytesPerChannelTotal) (r.standAt k).usefulPerChannel) >>= _) = _
      rw [hadd]
      show (orError _ (checkedAdd k 1) >>= _) = _
      rw [hcount]
      show Except.ok (some (r.frameAt k blocks), { r.standAt k with
        position := r.info.dataOffset + k * r.blockSizePerChannel * r.info.channelCount + r.info.channelCount * r.blockSizePerChannel
        bytesPerChannelRead := min ((k + 1) * r.blockSizePerChannel) r.bytesPerChannelTotal
        frameIndex := k + 1 }) = _
      rw [hposition]
      rfl

/-- A reader of the same file. -/
def SameFile (r s : DsfStreamReader) : Prop := ∃ position bytesPerChannelRead frameIndex, s = { r with position, bytesPerChannelRead, frameIndex }

theorem nextDsdFrame_sameFile {result : Option DsdFrame × DsfStreamReader} (h : s.nextDsdFrame = .ok result) : SameFile s result.2 := by
  unfold nextDsdFrame at h
  split_ifs at h with hend
  · cases h
    exact ⟨_, _, _, rfl⟩
  · simp only [bind_eq_ok] at h
    obtain ⟨channels, -, remaining, -, blocks, -, read, -, frameIndex, -, hresult⟩ := h
    cases hresult
    exact ⟨_, _, _, rfl⟩

theorem leftByError_sameFile (s : DsfStreamReader) : SameFile s s.leftByError := by
  unfold leftByError
  split
  · exact ⟨_, _, _, rfl⟩
  · dsimp only
    split
    · exact ⟨_, _, _, rfl⟩
    · split
      · exact ⟨_, _, _, rfl⟩
      · exact ⟨_, _, _, rfl⟩

theorem seekFrame_eq_ok {target : ℕ} {result : Unit × DsfStreamReader} (h : s.seekFrame target = .ok result) :
    result.2 = s.standAt target ∧ ∃ total, s.totalFrameCount = .ok total ∧ target ≤ total := by
  unfold seekFrame at h
  simp only [bind_eq_ok, ensure_eq_ok, orError_eq_ok, checkedAddAt, nonzeroChannelCount_eq_ok, Option.bind_eq_some_iff,
    checkedMul_eq_some_iff, checkedAdd_eq_some_iff] at h
  obtain ⟨total, htotal, -, hle, channels, ⟨-, rfl⟩, -, ⟨-, rfl⟩, -, ⟨-, ⟨-, rfl⟩, -, rfl⟩, -, ⟨-, rfl⟩, hresult⟩ := h
  cases hresult
  exact ⟨rfl, total, htotal, hle⟩

/-- The reader stands at frame `k`, which is one of the file or its end. -/
def At (r : DsfStreamReader) (k : ℕ) (s : DsfStreamReader) : Prop :=
  s = r.standAt k ∧ k * r.blockSizePerChannel < r.bytesPerChannelTotal + r.blockSizePerChannel

theorem Fresh.placed (h : Fresh r) : Placed stream (SameFile r) (At r) where
  inside := by
    rintro k s ⟨rfl, -⟩
    exact ⟨_, _, _, rfl⟩
  position := by
    rintro k s ⟨rfl, -⟩
    rfl
  agree := by
    rintro k s t ⟨rfl, -⟩ ⟨rfl, -⟩
    rfl
  next_inside := by
    rintro s ⟨_, _, _, rfl⟩
    exact mutating_snd (fun _ _ hcall => nextDsdFrame_sameFile hcall) (leftByError_sameFile _)
  next_at := by
    rintro k s ⟨rfl, hk⟩ htrips
    have hnext := h.nextDsdFrame_standAt (k := k)
    by_cases hend : r.bytesPerChannelTotal ≤ k * r.blockSizePerChannel
    · rw [if_pos hend] at hnext
      exact ⟨k, congrArg Prod.snd (mutating_ok hnext), hk⟩
    · rw [if_neg hend] at hnext
      obtain ⟨blocks, hblocks⟩ : ∃ blocks, (r.standAt k).nextBlocks = .ok blocks := by
        by_contra hnone
        refine htrips ⟨?_, fun blocks hblocks => hnone ⟨blocks, hblocks⟩⟩
        simp only [standAt]
        omega
      rw [hblocks] at hnext
      refine ⟨k + 1, congrArg Prod.snd (mutating_ok hnext), ?_⟩
      rw [Nat.succ_mul]
      omega
  number := by
    rintro k s f ⟨rfl, -⟩ hf
    obtain ⟨r', hcall⟩ := mutating_fst_eq_ok.1 hf
    rw [h.nextDsdFrame_standAt] at hcall
    split_ifs at hcall
    · cases hcall
    · obtain ⟨blocks, -, hframe⟩ := bind_eq_ok.1 hcall
      cases hframe
      rfl
  ended := by
    rintro k s n ⟨rfl, hk⟩ hn
    obtain ⟨-, -, hcount⟩ := ceilDivU64_eq_ok.1 (toOption_eq_some.1 hn)
    rw [← count_eq_iff h.block_ne_zero hk hcount]
    constructor
    · intro hf
      obtain ⟨r', hcall⟩ := mutating_fst_eq_ok.1 hf
      rw [h.nextDsdFrame_standAt] at hcall
      split_ifs at hcall with hend
      · exact hend
      · obtain ⟨blocks, -, hframe⟩ := bind_eq_ok.1 hcall
        cases hframe
    · intro hend
      have hnext := h.nextDsdFrame_standAt (k := k)
      rw [if_pos hend] at hnext
      exact mutating_fst_eq_ok.2 ⟨_, hnext⟩
  seek_at := by
    rintro target s ⟨_, _, _, rfl⟩ hseek
    obtain ⟨r', hcall⟩ := mutating_fst_eq_ok.1 hseek
    obtain ⟨hstand, total, htotal, hle⟩ := seekFrame_eq_ok hcall
    obtain ⟨-, -, hcount⟩ := ceilDivU64_eq_ok.1 htotal
    exact ⟨(congrArg Prod.snd (mutating_ok hcall)).trans hstand, lt_of_le_count h.block_ne_zero hcount hle⟩
  seek_error := by
    intro target s e hseek
    exact congrArg Prod.snd (mutating_error (mutating_fst_eq_error.1 hseek))
  refuses := by
    rintro s - n target hn hlt
    refine mutating_refuses fun result hcall => ?_
    obtain ⟨-, total, htotal, hle⟩ := seekFrame_eq_ok hcall
    rw [toOption_eq_some.1 hn] at htotal
    cases htotal
    omega

theorem keepsPlace {file : List UInt8} (h : new file = .ok r) : KeepsPlace stream r := by
  have hfresh := fresh_of_new h
  refine hfresh.placed.keepsPlace ⟨hfresh.standAt_zero.symm, ?_⟩
  have hblock := hfresh.block_ne_zero
  omega

end DsfStreamReader

/-! ## DSDIFF/DSD -/

namespace DsdDsdiffStreamReader

/-- What the constructor has found. -/
structure Fresh (r : DsdDsdiffStreamReader) : Prop where
  frame : r.frameBytes ≠ 0
  position : r.position = r.info.dataOffset
  unread : r.remainingPayloadBytes = r.info.dataSize ∧ r.frameIndex = 0

theorem fresh_of_withFrameBytes {file : List UInt8} {frameBytes : ℕ} {r : DsdDsdiffStreamReader} (h : withFrameBytes file frameBytes = .ok r) :
    Fresh r := by
  unfold withFrameBytes at h
  simp only [bind_eq_ok, ensure_eq_ok] at h
  obtain ⟨info, -, -, -, -, -, -, -, channels, -, -, -, bytes, -, -, hne, -, -, hr⟩ := h
  cases hr
  exact ⟨hne, rfl, rfl, rfl⟩

/-- The reader at frame `k`. -/
def standAt (r : DsdDsdiffStreamReader) (k : ℕ) : DsdDsdiffStreamReader := { r with
  position := r.info.dataOffset + min (k * r.frameBytes) r.info.dataSize
  remainingPayloadBytes := r.info.dataSize - min (k * r.frameBytes) r.info.dataSize
  frameIndex := k }

def frameAt (r : DsdDsdiffStreamReader) (k : ℕ) (data : List UInt8) : DsdFrame := {
  frameIndex := k
  data
  channelCount := r.info.channelCount
  sampleRate := r.info.sampleRate
  byteOrder := .msbFirst
  isFinal := r.info.dataSize - min ((k + 1) * r.frameBytes) r.info.dataSize = 0 }

variable {r s : DsdDsdiffStreamReader} {k : ℕ}

theorem Fresh.standAt_zero (h : Fresh r) : r.standAt 0 = r := by
  obtain ⟨-, hposition, hremaining, hindex⟩ := h
  cases r
  simp_all [standAt]

/-- The bytes of the next frame. -/
def nextBytes (self : DsdDsdiffStreamReader) : Except DsdReadError (List UInt8) :=
  readExact self.reader self.position (min self.remainingPayloadBytes self.frameBytes)

/-- The next call at frame `k`. -/
theorem nextDsdFrame_standAt : (r.standAt k).nextDsdFrame =
    if r.info.dataSize ≤ k * r.frameBytes then .ok (none, r.standAt k)
    else (r.standAt k).nextBytes >>= fun data =>
      orError (.malformed r.info.dataOffset "DSDIFF/DSD frame index overflow") (checkedAdd k 1) >>= fun _ =>
        .ok (some (r.frameAt k data), r.standAt (k + 1)) := by
  by_cases hend : r.info.dataSize ≤ k * r.frameBytes
  · rw [if_pos hend, nextDsdFrame, if_pos (by simp only [standAt]; omega)]
  · have hremaining : r.info.dataSize - min (k * r.frameBytes) r.info.dataSize -
        min (r.info.dataSize - min (k * r.frameBytes) r.info.dataSize) r.frameBytes =
        r.info.dataSize - min ((k + 1) * r.frameBytes) r.info.dataSize := by
      rw [Nat.succ_mul]
      omega
    have hposition : r.info.dataOffset + min (k * r.frameBytes) r.info.dataSize +
        min (r.info.dataSize - min (k * r.frameBytes) r.info.dataSize) r.frameBytes =
        r.info.dataOffset + min ((k + 1) * r.frameBytes) r.info.dataSize := by
      rw [Nat.succ_mul]
      omega
    rw [if_neg hend, nextDsdFrame, if_neg (by simp only [standAt]; omega)]
    show ((r.standAt k).nextBytes >>= _) = _
    cases hdata : (r.standAt k).nextBytes with
    | error e => rfl
    | ok data =>
      show (orError _ (checkedAdd k 1) >>= _) = (orError _ (checkedAdd k 1) >>= _)
      cases hcount : checkedAdd k 1 with
      | none => rfl
      | some n =>
        obtain rfl := checkedAdd_eq_some hcount
        show Except.ok (some { r.frameAt k data with
            isFinal := decide (r.info.dataSize - min (k * r.frameBytes) r.info.dataSize -
              min (r.info.dataSize - min (k * r.frameBytes) r.info.dataSize) r.frameBytes = 0) },
          { r.standAt k with
            position := r.info.dataOffset + min (k * r.frameBytes) r.info.dataSize +
              min (r.info.dataSize - min (k * r.frameBytes) r.info.dataSize) r.frameBytes
            remainingPayloadBytes := r.info.dataSize - min (k * r.frameBytes) r.info.dataSize -
              min (r.info.dataSize - min (k * r.frameBytes) r.info.dataSize) r.frameBytes
            frameIndex := k + 1 }) = _
        rw [hremaining, hposition]
        rfl

/-- A reader of the same file. -/
def SameFile (r s : DsdDsdiffStreamReader) : Prop :=
  ∃ position remainingPayloadBytes frameIndex, s = { r with position, remainingPayloadBytes, frameIndex }

theorem nextDsdFrame_sameFile {result : Option DsdFrame × DsdDsdiffStreamReader} (h : s.nextDsdFrame = .ok result) : SameFile s result.2 := by
  unfold nextDsdFrame at h
  split_ifs at h with hend
  · cases h
    exact ⟨_, _, _, rfl⟩
  · simp only [bind_eq_ok] at h
    obtain ⟨data, -, frameIndex, -, hresult⟩ := h
    cases hresult
    exact ⟨_, _, _, rfl⟩

theorem leftByError_sameFile (s : DsdDsdiffStreamReader) : SameFile s s.leftByError := by
  unfold leftByError
  dsimp only
  split
  · exact ⟨_, _, _, rfl⟩
  · exact ⟨_, _, _, rfl⟩

theorem seekFrame_eq_ok {target : ℕ} {result : Unit × DsdDsdiffStreamReader} (h : s.seekFrame target = .ok result) :
    result.2 = s.standAt target ∧ ∃ total, s.totalFrameCount = .ok total ∧ target ≤ total := by
  unfold seekFrame at h
  simp only [bind_eq_ok, ensure_eq_ok, orError_eq_ok, checkedAddAt, checkedMul_eq_some_iff, checkedAdd_eq_some_iff] at h
  obtain ⟨total, htotal, -, hle, -, ⟨-, rfl⟩, -, ⟨-, rfl⟩, hresult⟩ := h
  cases hresult
  exact ⟨rfl, total, htotal, hle⟩

/-- The reader stands at frame `k`, which is one of the file or its end. -/
def At (r : DsdDsdiffStreamReader) (k : ℕ) (s : DsdDsdiffStreamReader) : Prop :=
  s = r.standAt k ∧ k * r.frameBytes < r.info.dataSize + r.frameBytes

theorem Fresh.placed (h : Fresh r) : Placed stream (SameFile r) (At r) where
  inside := by
    rintro k s ⟨rfl, -⟩
    exact ⟨_, _, _, rfl⟩
  position := by
    rintro k s ⟨rfl, -⟩
    rfl
  agree := by
    rintro k s t ⟨rfl, -⟩ ⟨rfl, -⟩
    rfl
  next_inside := by
    rintro s ⟨_, _, _, rfl⟩
    exact mutating_snd (fun _ _ hcall => nextDsdFrame_sameFile hcall) (leftByError_sameFile _)
  next_at := by
    rintro k s ⟨rfl, hk⟩ htrips
    have hnext := nextDsdFrame_standAt (r := r) (k := k)
    by_cases hend : r.info.dataSize ≤ k * r.frameBytes
    · rw [if_pos hend] at hnext
      exact ⟨k, congrArg Prod.snd (mutating_ok hnext), hk⟩
    · rw [if_neg hend] at hnext
      have hmore : (r.standAt k).remainingPayloadBytes ≠ 0 := by
        simp only [standAt]
        omega
      obtain ⟨hread, hcount⟩ := not_or.1 (not_and.1 htrips hmore)
      obtain ⟨data, hdata⟩ := Option.ne_none_iff_exists'.1 hread
      have hdata : (r.standAt k).nextBytes = .ok data := by rw [nextBytes, readExact, hdata]
      rw [hdata, checkedAdd_of_le (not_le.1 hcount)] at hnext
      refine ⟨k + 1, congrArg Prod.snd (mutating_ok hnext), ?_⟩
      rw [Nat.succ_mul]
      omega
  number := by
    rintro k s f ⟨rfl, -⟩ hf
    obtain ⟨r', hcall⟩ := mutating_fst_eq_ok.1 hf
    rw [nextDsdFrame_standAt] at hcall
    split_ifs at hcall
    · cases hcall
    · obtain ⟨data, -, hframe⟩ := bind_eq_ok.1 hcall
      obtain ⟨n, -, hframe⟩ := bind_eq_ok.1 hframe
      cases hframe
      rfl
  ended := by
    rintro k s n ⟨rfl, hk⟩ hn
    obtain ⟨-, -, hcount⟩ := ceilDivU64_eq_ok.1 (toOption_eq_some.1 hn)
    rw [← count_eq_iff h.frame hk hcount]
    constructor
    · intro hf
      obtain ⟨r', hcall⟩ := mutating_fst_eq_ok.1 hf
      rw [nextDsdFrame_standAt] at hcall
      split_ifs at hcall with hend
      · exact hend
      · obtain ⟨data, -, hframe⟩ := bind_eq_ok.1 hcall
        obtain ⟨n, -, hframe⟩ := bind_eq_ok.1 hframe
        cases hframe
    · intro hend
      have hnext := nextDsdFrame_standAt (r := r) (k := k)
      rw [if_pos hend] at hnext
      exact mutating_fst_eq_ok.2 ⟨_, hnext⟩
  seek_at := by
    rintro target s ⟨_, _, _, rfl⟩ hseek
    obtain ⟨r', hcall⟩ := mutating_fst_eq_ok.1 hseek
    obtain ⟨hstand, total, htotal, hle⟩ := seekFrame_eq_ok hcall
    obtain ⟨-, -, hcount⟩ := ceilDivU64_eq_ok.1 htotal
    exact ⟨(congrArg Prod.snd (mutating_ok hcall)).trans hstand, lt_of_le_count h.frame hcount hle⟩
  seek_error := by
    intro target s e hseek
    exact congrArg Prod.snd (mutating_error (mutating_fst_eq_error.1 hseek))
  refuses := by
    rintro s - n target hn hlt
    refine mutating_refuses fun result hcall => ?_
    obtain ⟨-, total, htotal, hle⟩ := seekFrame_eq_ok hcall
    rw [toOption_eq_some.1 hn] at htotal
    cases htotal
    omega

theorem keepsPlace {file : List UInt8} {frameBytes : ℕ} (h : withFrameBytes file frameBytes = .ok r) : KeepsPlace stream r := by
  have hfresh := fresh_of_withFrameBytes h
  refine hfresh.placed.keepsPlace ⟨hfresh.standAt_zero.symm, ?_⟩
  have hframe := hfresh.frame
  omega

end DsdDsdiffStreamReader

end Container
