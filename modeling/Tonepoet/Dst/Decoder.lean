import Tonepoet.Dst.Syntax

/-!
# `DstDecoder` (dst/decoder.rs:41-367)
-/

namespace Dst

open Rust BitString BitReader

inductive DstRate where
  | dsd64
  | dsd128
  | dsd256
  deriving DecidableEq

namespace DstRate

def fs44 : DstRate → ℕ
  | dsd64 => 64
  | dsd128 => 128
  | dsd256 => 256

/-- `frame_bytes_per_channel` (decoder.rs:71). -/
def frameBytesPerChannel (rate : DstRate) : Outcome DstError ℕ :=
  okOr (.arithmeticDecodeFailure "DST frame byte geometry overflow")
    ((checkedMul 588 rate.fs44).map (· / 8))

/-- `frame_bits_per_channel` (decoder.rs:80). -/
def frameBitsPerChannel (rate : DstRate) : Outcome DstError ℕ := do
  let bytes ← rate.frameBytesPerChannel
  okOr (.arithmeticDecodeFailure "DST frame bit geometry overflow") (checkedMul bytes 8)

end DstRate

/-- One entry of `build_filters` (decoder.rs:984): a history bit counts as `+1` or `-1`, the sum is cast to `i16`.
    The coefficient index is below 128, so it is inside the fixed-size table. -/
def filterEntry (fsets : Table) (element : ℕ) : FilterLut := fun byteTap history =>
  let base := byteTap.val * 8
  let available := min (fsets.length.getD element 0 - base) 8
  let total := (List.range available).foldl (fun total bit =>
    let historyBit := if history.toNat.testBit bit then 1 else -1
    total + historyBit * (fsets.coeff.getD element []).getD (base + bit) 0) (0 : ℤ)
  total.bmod (2 ^ 16)

/-- `total += history_bit * fsets.coeff[element][base + bit]`. -/
def addTap (fsets : Table) (element base history : ℕ) (total : ℤ) (bit : ℕ) : Outcome DstError ℤ := do
  let historyBit := if history.testBit bit then 1 else -1
  let product ← i32 (historyBit * (← index2 fsets.coeff element (base + bit)))
  i32 (total + product)

/-- The sum of one entry, step by step. -/
def filterTotal (fsets : Table) (element byteTap history : ℕ) : Outcome DstError ℤ :=
  let base := byteTap * 8
  let available := min (fsets.length.getD element 0 - base) 8
  (List.range available).foldlM (addTap fsets element base history) 0

/-- The tables of `build_filters`. -/
def filterTables (fsets : Table) : List FilterLut :=
  (List.range maxElements).map fun element => if element < fsets.elements then filterEntry fsets element else fun _ _ => 0

/-- `build_filters` (decoder.rs:975): the loops are run for their sums' overflows. -/
def buildFilters (fsets : Table) : Outcome DstError (List FilterLut) := do
  forRange 0 fsets.elements () fun _ element => forRange 0 16 () fun _ byteTap => forRange 0 256 () fun _ history => do
    let _ ← filterTotal fsets element byteTap history
  return filterTables fsets

/-- Coefficients of twenty bits keep the sums of `build_filters` in their range. -/
theorem filterTotal_ok {fsets : Table} {element : ℕ} (h : ∀ i < fsets.length.getD element 0,
    ∃ z, at2 fsets.coeff element i = some z ∧ |z| ≤ 2 ^ 20) (byteTap history : ℕ) :
    ∃ total, filterTotal fsets element byteTap history = .ok total := by
  unfold filterTotal
  obtain ⟨n, hn⟩ : ∃ n, min (fsets.length.getD element 0 - byteTap * 8) 8 = n := ⟨_, rfl⟩
  simp only [hn]
  obtain ⟨total, htotal, -⟩ := foldlM_inv (fun k (total : ℤ) => |total| ≤ k * 2 ^ 20)
    (addTap fsets element (byteTap * 8) history) (List.range n) 0 (0 : ℤ) (by simp) (by
    intro k hk total hI
    rw [List.length_range] at hk
    rw [List.getElem_range]
    obtain ⟨z, hz, hbound⟩ := h (byteTap * 8 + k) (by omega)
    obtain ⟨b, hb⟩ : ∃ b : ℤ, (if history.testBit k then 1 else -1) = b := ⟨_, rfl⟩
    have hsign : |b * z| ≤ 2 ^ 20 := by
      rw [← hb]
      split <;> simpa using hbound
    have hsum : |total + b * z| ≤ ((k + 1 : ℕ) : ℤ) * 2 ^ 20 := by
      rw [Nat.zero_add] at hI
      refine (abs_add_le _ _).trans ?_
      push_cast
      linarith
    have hk8 : ((k + 1 : ℕ) : ℤ) ≤ 8 := by omega
    have h1 := abs_le.1 hsign
    have h2 := abs_le.1 hsum
    refine ⟨total + b * z, ?_, by simpa using hsum⟩
    rw [addTap, hb, index2_of_at2 hz, pure_bind, i32_of_fits (by omega) (by omega), pure_bind, i32_of_fits (by omega) (by omega)]
    rfl)
  exact ⟨total, htotal⟩

theorem buildFilters_ok {fsets : Table} (h : ∀ element < fsets.elements, ∀ i < fsets.length.getD element 0,
    ∃ z, at2 fsets.coeff element i = some z ∧ |z| ≤ 2 ^ 20) : buildFilters fsets = .ok (filterTables fsets) := by
  have hloop : ∀ {n : ℕ} {f : ℕ → Outcome DstError Unit}, (∀ i < n, f i = .ok ()) → forRange 0 n () (fun _ i => f i) = .ok () := by
    intro n f hf
    obtain ⟨u, hu, -⟩ := forRange_inv (f := fun _ i => f i) (fun _ _ => True) (Nat.zero_le n)
      (fun i _ hi _ _ => ⟨(), hf i hi, trivial⟩) (s := ()) trivial
    exact hu
  have htap : ∀ element < fsets.elements, ∀ byteTap < 16, forRange 0 256 () (fun _ history => do
      let _ ← filterTotal fsets element byteTap history) = (.ok () : Outcome DstError Unit) := by
    intro element helement byteTap _
    refine hloop fun history _ => ?_
    obtain ⟨total, htotal⟩ := filterTotal_ok (h element helement) byteTap history
    rw [htotal]
    rfl
  unfold buildFilters
  rw [hloop fun element helement => hloop fun byteTap hb => htap element helement byteTap hb]
  rfl

/-- The byte loop of `push_status_bit`, from the newest byte on. -/
def pushStatusBitFrom : UInt8 → List UInt8 → List UInt8
  | _, [] => []
  | carry, byte :: status => (byte <<< 1 ||| carry) :: pushStatusBitFrom ((byte >>> 7) &&& 1) status

/-- `push_status_bit` (decoder.rs:998, encoder.rs:1450). -/
def pushStatusBit (status : List UInt8) (bit : Bool) : List UInt8 := pushStatusBitFrom (if bit then 1 else 0) status

/-- `[[0xAA; 16]; MAX_CHANNELS]`. -/
def initialStatus : List (List UInt8) := List.replicate maxChannels (List.replicate 16 0xAA)

/-- The sixteen table lookups, summed. -/
def predictFromLut (filterLut : FilterLut) (status : List UInt8) : ℤ :=
  (List.finRange 16).foldl (fun total tap => total + filterLut tap (status.getD tap 0)) 0

/-- `(predict >> 15) & 1`: one for a negative prediction. -/
def predictedBit (predict : ℤ) : Bool := (predict >>> 15) % 2 == 1

/-- `checked_decoded_output_index` (decoder.rs:331). -/
def checkedDecodedOutputIndex (byteBase channel outputLen : ℕ) : Outcome DstError ℕ := do
  let index ← okOr (.arithmeticDecodeFailure "DST output byte index overflow") (checkedAdd byteBase channel)
  if outputLen ≤ index then fail (.outputOverflow outputLen) else pure index

structure DstDecoder where
  channelCount : ℕ
  rate : DstRate
  frameBytesPerChannel : ℕ
  frameBitsPerChannel : ℕ

/-- What the bit loop carries along. -/
structure DecodeState where
  arithmetic : ArithmeticCoder
  filterCursor : SegmentCursorSet
  probabilityCursor : SegmentCursorSet
  status : List (List UInt8)
  out : List UInt8

namespace DstDecoder

/-- `validate_channel_count` (decoder.rs:324). -/
def validateChannelCount (channelCount : ℕ) : Outcome DstError ℕ :=
  if 1 ≤ channelCount ∧ channelCount ≤ 6 then pure channelCount else fail (.invalidChannelCount channelCount)

def new (channelCount : ℕ) (rate : DstRate) : Outcome DstError DstDecoder := do
  let channels ← validateChannelCount channelCount
  let frameBytesPerChannel ← rate.frameBytesPerChannel
  let frameBitsPerChannel ← rate.frameBitsPerChannel
  return ⟨channels, rate, frameBytesPerChannel, frameBitsPerChannel⟩

/-- `dsd_frame_bytes` (decoder.rs:176). -/
def dsdFrameBytes (d : DstDecoder) : Outcome DstError ℕ :=
  okOr (.arithmeticDecodeFailure "DST decoded frame byte count overflow")
    (checkedMul d.frameBytesPerChannel d.channelCount)

/-- The probability of a residual bit (decoder.rs:279): one half inside the half-probability range, else
    the entry of the segment's table for the size of the prediction. -/
def residualProbability (d : DstDecoder) (syn : CompressedSyntax) (cursor : SegmentCursorSet) (bitIndex ch : ℕ)
    (predict : ℤ) : Outcome DstError (ℤ × SegmentCursorSet) := do
  let half ← index syn.halfProbability ch
  let halfBits ← index syn.halfProbabilityBits ch
  if half ∧ bitIndex < halfBits then return (128, cursor)
  else
    let (element, cursor) ← cursor.tableForBit syn.probabilitySegments ch bitIndex d.frameBitsPerChannel
      syn.probabilityTables.elements .probability
    let length ← index syn.probabilityTables.length element
    if length = 0 then fail (.invalidProbabilityTable "empty probability table")
    else
      let idx := min (predict.natAbs >>> 3) (length - 1)
      let value ← index2 syn.probabilityTables.coeff element idx
      if ¬ (1 ≤ value ∧ value ≤ 128) then
        fail (.invalidProbabilityTable "probability coefficient out of range")
      else return (value, cursor)

/-- `out[i] |= 1u8 << b`. -/
def setOutputBit (out : List UInt8) (i b : ℕ) : List UInt8 := out.modify i fun byte => byte ||| UInt8.ofNat (1 <<< b)

/-- The body of the loop over `bit_index` and `ch` (decoder.rs:263). -/
def decodeBit (d : DstDecoder) (syn : CompressedSyntax) (filters : List FilterLut) (bitIndex byteBase : ℕ)
    (s : DecodeState) (ch : ℕ) : Parse DecodeState := do
  let bitInByte := 7 - bitIndex % 8
  let (filterElement, filterCursor) ← liftM (s.filterCursor.tableForBit syn.filterSegments ch bitIndex
    d.frameBitsPerChannel syn.filterTables.elements .filter)
  let filter ← index filters filterElement
  let history ← index s.status ch
  let predict := predictFromLut filter history
  let (probability, probabilityCursor) ← liftM (d.residualProbability syn s.probabilityCursor bitIndex ch predict)
  let (residual, arithmetic) ← s.arithmetic.get probability
  let dsdBit := predictedBit predict ^^ residual
  let outputIndex ← liftM (checkedDecodedOutputIndex byteBase ch s.out.length)
  let out := if dsdBit then setOutputBit s.out outputIndex bitInByte else s.out
  let status ← assign s.status ch (pushStatusBit history dsdBit)
  return ⟨arithmetic, filterCursor, probabilityCursor, status, out⟩

/-- `for ch in 0..self.channel_count` at one bit index. -/
def decodeBits (d : DstDecoder) (syn : CompressedSyntax) (filters : List FilterLut) (s : DecodeState) (bitIndex : ℕ) :
    Parse DecodeState := do
  let byteBase ← okOr (.arithmeticDecodeFailure "DST output byte index overflow")
    (checkedMul (bitIndex >>> 3) d.channelCount)
  forRange 0 d.channelCount s (d.decodeBit syn filters bitIndex byteBase)

/-- The bit loop, after the header and the code's marker bit. -/
def decodeResiduals (d : DstDecoder) (syn : CompressedSyntax) (out : List UInt8) : Parse (List UInt8) := do
  let arithmetic ← ArithmeticCoder.new
  let filters ← liftM (buildFilters syn.filterTables)
  let filterCursor ← liftM (SegmentCursorSet.new syn.filterSegments d.channelCount d.frameBitsPerChannel
    syn.filterTables.elements .filter)
  let probabilityCursor ← liftM (SegmentCursorSet.new syn.probabilitySegments d.channelCount d.frameBitsPerChannel
    syn.probabilityTables.elements .probability)
  let firstProbability := probDstXBit (← index2 syn.filterTables.coeff 0 0)
  let (_, arithmetic) ← arithmetic.get firstProbability
  let s ← forRange 0 d.frameBitsPerChannel ⟨arithmetic, filterCursor, probabilityCursor, initialStatus, out⟩
    (d.decodeBits syn filters)
  return s.out

/-- `decode_compressed_dst_payload` (decoder.rs:223). -/
def decodeCompressedDstPayload (d : DstDecoder) (out : List UInt8) : Parse (List UInt8) := do
  let syn ← CompressedSyntax.read d.channelCount d.frameBytesPerChannel
  if ← hasPhysicalBitsRemaining then
    if ← readBit then fail .invalidArithmeticCode
  d.decodeResiduals syn out

/-- `read_bit`, with `Err(UnexpectedEof)` caught. -/
def readBitBeforeEnd : Parse (Option Bool) :=
  tryCatch (do pure (some (← readBit))) fun
    | .err (.unexpectedEof _) => pure none
    | fault => throw fault

/-- The `loop` of `ensure_remaining_bits_are_zero`. -/
def ensureRemainingBitsAreZeroLoop : ℕ → Parse Unit
  | 0 => throw .stuck
  | fuel + 1 => do
    match ← readBitBeforeEnd with
    | some false => ensureRemainingBitsAreZeroLoop fuel
    | some true => fail (.malformedFrame "non-zero DST stuffing bits")
    | none => return ()

/-- `ensure_remaining_bits_are_zero` (decoder.rs:366). The reader does not pad here, so every turn but the last moves
    over a bit of the slice and the fuel is never used up (`ensureRemainingBitsAreZero_meets`). -/
def ensureRemainingBitsAreZero : Parse Unit := do
  let r ← get
  ensureRemainingBitsAreZeroLoop (r.input.length * 8 - r.bitPos + 1)

/-- `decode_uncompressed_dst_payload` (decoder.rs:346). -/
def decodeUncompressedDstPayload (out : List UInt8) : Parse (List UInt8) := do
  let _marker ← readBit
  let _reserved ← readBits 6
  let out ← forRange 0 out.length out fun out i => do
    let v ← readBits 8
    assign out i (UInt8.ofNat v)
  ensureRemainingBitsAreZero
  return out

/-- `decode_frame_into` (decoder.rs:199): the number of bytes written, and the buffer after the call. -/
def decodeFrameInto (d : DstDecoder) (input output : List UInt8) : Outcome DstError (ℕ × List UInt8) := do
  let expected ← d.dsdFrameBytes
  if output.length < expected then fail (.outputBufferTooSmall expected output.length)
  else if input = [] then fail (.unexpectedEof 0)
  else
    let out := List.replicate expected (0 : UInt8)
    let (out, _) ← StateT.run (do
      if ← readBit then d.decodeCompressedDstPayload out else decodeUncompressedDstPayload out) (BitReader.new input)
    return (expected, out ++ output.drop expected)

/-- `decode_frame` (decoder.rs:184). -/
def decodeFrame (d : DstDecoder) (input : List UInt8) : Outcome DstError (List UInt8) := do
  let expected ← d.dsdFrameBytes
  let (written, out) ← d.decodeFrameInto input (List.replicate expected 0)
  if written ≠ expected then fail (.outputSizeMismatch expected written) else return out

end DstDecoder

/-- `decode_frame_with_rate` (decoder.rs:115). -/
def decodeFrameWithRate (input : List UInt8) (channelCount : ℕ) (rate : DstRate) : Outcome DstError (List UInt8) := do
  let decoder ← DstDecoder.new channelCount rate
  decoder.decodeFrame input

end Dst
