import Tonepoet.Dst.Decoder

/-!
# The predictive encoder (dst/encoder.rs)

`encodePredictiveCandidate` writes one frame from a choice of filters; `encodePredictiveSearch` tries a
matrix of such choices. The floating-point fit that proposes coefficients is a parameter (`Fit`): the
search quantises whatever it returns.
-/

namespace Dst

open Rust BitReader

def minCompressedChannels : ℕ := 2
def maxCompressedChannels : ℕ := 6
def probabilityTableLen : ℕ := 64
def maxPredCoeffAbs : ℤ := 255

/-- `DstEncodeError` (encoder.rs:43). -/
inductive DstEncodeError where
  | invalidChannelCount (channelCount : ℕ)
  | unsupportedRate (sampleRate : ℕ)
  | predictiveUnsupportedLayout (channelCount : ℕ) (rate : DstRate)
  | invalidFrameLength (expected actual : ℕ)
  | invalidPredictionOrder (predictionOrder : ℕ)
  | predictiveUnsupportedChannelCount (channelCount : ℕ)
  | compressionNotBeneficial (predictiveLen rawLen minimumSavingsBytes : ℕ)
  | verificationFailed
  deriving DecidableEq

inductive DstVerificationFailureKind where
  | decodeError
  | decodedDsdMismatch
  deriving DecidableEq

inductive DstTableStrategy where
  | shared
  | perChannel
  deriving DecidableEq

/-- `table_for_channel` (encoder.rs:326). -/
def DstTableStrategy.tableForChannel : DstTableStrategy → ℕ → List ℕ
  | shared, channels => List.replicate channels 0
  | perChannel, channels => List.range channels

/-- `uses_per_channel_tables` (encoder.rs:333). -/
def DstTableStrategy.usesPerChannelTables : DstTableStrategy → Bool
  | shared => false
  | perChannel => true

/-! ## Header fields -/

/-- `write_segment_header` (encoder.rs:1161): one segment to the frame's end, for both kinds and all channels. -/
def writeSegmentHeader (w : BitWriter) : BitWriter := ((w.writeBit true).writeBit true).writeBit true

/-- `write_table_map` (encoder.rs:1167). -/
def writeTableMap (w : BitWriter) (channels : ℕ) (perChannel : Bool) : BitWriter :=
  if !perChannel || channels == 1 then w.writeBit true
  else
    ((List.range' 1 (channels - 1)).foldl (fun s _ =>
      let bits := Nat.log2 s.2 + 1
      (s.1.writeBits s.2 bits, s.2 + 1)) (w.writeBit false, 1)).1

/-- One filter of the coefficient tables (encoder.rs:1291). -/
def writeFilter {E : Type} (w : BitWriter) (coeffs : List ℤ) : Outcome E BitWriter := do
  if coeffs = [] then throw .panic
  else
    let w := (w.writeBits (coeffs.length - 1) 7).writeBit false
    return coeffs.foldl (fun w coeff => w.writeSigned coeff 9) w

/-- One probability table (encoder.rs:1299). -/
def writeProbabilities {E : Type} (w : BitWriter) (table : List ℕ) : Outcome E BitWriter := do
  if table = [] then throw .panic
  else
    let w := (w.writeBits (table.length - 1) 6).writeBit false
    return table.foldl (fun w probability => w.writeBits (probability - 1) 7) w

/-! ## Prediction -/

/-- One filter's table (encoder.rs:1587): the sum is clamped to `i16`. -/
def filterLutRow (coeffs : List ℤ) : FilterLut := fun byteTap history =>
  let base := byteTap.val * 8
  let available := min (coeffs.length - base) 8
  let total := (List.range available).foldl (fun total bit =>
    let historyBit := if history.toNat.testBit bit then 1 else -1
    total + historyBit * coeffs.getD (base + bit) 0) (0 : ℤ)
  max (-2 ^ 15) (min total (2 ^ 15 - 1))

/-- `build_filter_lut` (encoder.rs:1583). -/
def buildFilterLut (filters : List (List ℤ)) : List FilterLut := filters.map filterLutRow

/-- `probability_bin` (encoder.rs:1625). -/
def probabilityBin (predict : ℤ) (tableLen : ℕ) : ℕ := min (predict.natAbs >>> 3) (tableLen - 1)

/-- `get_interleaved_bit` (encoder.rs:1443). -/
def getInterleavedBit {E : Type} (interleavedDsd : List UInt8) (channels bitIndex channel : ℕ) : Outcome E Bool := do
  let byteBase := bitIndex >>> 3 * channels
  let bitInByte := 7 - bitIndex % 8
  let byte ← index interleavedDsd (byteBase + channel)
  return byte.toNat.testBit bitInByte

/-- What both passes over a frame compute for one bit: its table, the prediction, the bit itself and the
    residual. -/
structure BitContext where
  table : ℕ
  predict : ℤ
  actual : Bool
  residual : Bool
  history : List UInt8

def bitContext {E : Type} (interleavedDsd : List UInt8) (channels : ℕ) (filterLut : List FilterLut) (lastTable : ℕ)
    (tableForChannel : List ℕ) (status : List (List UInt8)) (bitIndex ch : ℕ) : Outcome E BitContext := do
  let table := min (← index tableForChannel ch) lastTable
  let lut ← index filterLut table
  let history ← index status ch
  let predict := predictFromLut lut history
  let actual ← getInterleavedBit interleavedDsd channels bitIndex ch
  return ⟨table, predict, actual, predictedBit predict ^^ actual, history⟩

/-- `probability_for_predict` (encoder.rs:1620). -/
def probabilityForPredict {E : Type} (predict : ℤ) (table : List ℕ) : Outcome E ℕ :=
  index table (probabilityBin predict table.length)

/-! ## Probability tables -/

def saturatingAdd32 (a b : ℕ) : ℕ := min (a + b) (2 ^ 32 - 1)

structure BinCounts where
  zeros : List (List ℕ)
  totals : List (List ℕ)
  status : List (List UInt8)

/-- The body of the counting loop (encoder.rs:1514). -/
def countBit {E : Type} (interleavedDsd : List UInt8) (channels : ℕ) (filterLut : List FilterLut) (tableCount : ℕ)
    (tableForChannel : List ℕ) (bitIndex : ℕ) (s : BinCounts) (ch : ℕ) : Outcome E BinCounts := do
  let c ← bitContext interleavedDsd channels filterLut (tableCount - 1) tableForChannel s.status bitIndex ch
  let bin := probabilityBin c.predict probabilityTableLen
  let totals ← assign2 s.totals c.table bin (saturatingAdd32 (← index2 s.totals c.table bin) 1)
  let zeros ←
    if c.residual = false then assign2 s.zeros c.table bin (saturatingAdd32 (← index2 s.zeros c.table bin) 1)
    else pure s.zeros
  let status ← assign s.status ch (pushStatusBit c.history c.actual)
  return ⟨zeros, totals, status⟩

/-- The probability of a zero, out of 128, rounded and clamped (encoder.rs:1534). -/
def binProbability (zeros total : ℕ) : ℕ :=
  if total = 0 then 64 else max 1 (min ((zeros * 128 + total / 2) / total) 128)

/-- `while row.len() > 1 && row.last() == Some(x) { row.pop() }`, on the reversed row. -/
def trimReversed {α : Type} [DecidableEq α] (x : α) : List α → List α
  | p :: q :: row => if p = x then trimReversed x (q :: row) else p :: q :: row
  | row => row

def trimTrailing {α : Type} [DecidableEq α] (x : α) (row : List α) : List α := (trimReversed x row.reverse).reverse

/-- `derive_probability_tables` (encoder.rs:1504). -/
def deriveProbabilityTables {E : Type} (interleavedDsd : List UInt8) (channels : ℕ) (filterLut : List FilterLut)
    (tableForChannel : List ℕ) : Outcome E (List (List ℕ)) := do
  let tableCount := max filterLut.length 1
  let none := List.replicate tableCount (List.replicate probabilityTableLen 0)
  let s ← forRange 0 frameBitsPerChannel ⟨none, none, initialStatus⟩ fun s bitIndex =>
    forRange 0 channels s (countBit interleavedDsd channels filterLut tableCount tableForChannel bitIndex)
  return (s.zeros.zip s.totals).map fun (zeros, totals) =>
    trimTrailing 64 (List.zipWith binProbability zeros totals)

/-! ## Residuals -/

structure ResidualState where
  arithmetic : ArithmeticBitEncoder
  status : List (List UInt8)

/-- The body of the coding loop (encoder.rs:1564). -/
def encodeResidualBit {E : Type} (interleavedDsd : List UInt8) (channels : ℕ) (filterLut : List FilterLut)
    (probabilities : List (List ℕ)) (tableForChannel : List ℕ) (bitIndex : ℕ) (s : ResidualState) (ch : ℕ) :
    Outcome E ResidualState := do
  let c ← bitContext interleavedDsd channels filterLut (filterLut.length - 1) tableForChannel s.status bitIndex ch
  let probability ← probabilityForPredict c.predict (← index probabilities c.table)
  let status ← assign s.status ch (pushStatusBit c.history c.actual)
  return ⟨s.arithmetic.encodeBit c.residual probability, status⟩

/-- `encode_residuals` (encoder.rs:1551). -/
def encodeResiduals {E : Type} (interleavedDsd : List UInt8) (channels : ℕ) (filterLut : List FilterLut)
    (probabilities : List (List ℕ)) (tableForChannel : List ℕ) (firstFilterCoeff : ℤ) : Outcome E (List Bool) := do
  let arithmetic := ArithmeticBitEncoder.new.encodeBit false (probDstXBit firstFilterCoeff)
  let s ← forRange 0 frameBitsPerChannel ⟨arithmetic, initialStatus⟩ fun s bitIndex =>
    forRange 0 channels s
      (encodeResidualBit interleavedDsd channels filterLut probabilities tableForChannel bitIndex)
  return s.arithmetic.finish

/-- `encode_predictive_candidate` (encoder.rs:1266). -/
def encodePredictiveCandidate {E : Type} (interleavedDsd : List UInt8) (channels : ℕ) (filters : List (List ℤ))
    (tableForChannel : List ℕ) (layout : DstTableStrategy) : Outcome E (List UInt8) := do
  let filterLut := buildFilterLut filters
  let probabilities ← deriveProbabilityTables interleavedDsd channels filterLut tableForChannel
  let w := writeSegmentHeader (BitWriter.new.writeBit true)
  let w := writeTableMap (w.writeBit true) channels layout.usesPerChannelTables
  let w := (List.range channels).foldl (fun w _ => w.writeBit false) w
  let w ← filters.foldlM writeFilter w
  let w ← probabilities.foldlM writeProbabilities w
  let w := w.writeBit false
  let firstFilterCoeff := (filters.head?.bind List.head?).getD 0
  let arithmeticBits ← encodeResiduals interleavedDsd channels filterLut probabilities tableForChannel firstFilterCoeff
  return (w.writeBitSlice arithmeticBits).intoBytes

/-- `verify_predictive_candidate` (encoder.rs:963). -/
def verifyPredictiveCandidate (candidate : List UInt8) (channelCount : ℕ) (rate : DstRate) (source : List UInt8) :
    Except DstVerificationFailureKind Unit :=
  match decodeFrameWithRate candidate channelCount rate with
  | .ok decoded => if decoded = source then .ok () else .error .decodedDsdMismatch
  | .error _ => .error .decodeError

end Dst
