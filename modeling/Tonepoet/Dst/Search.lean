import Mathlib.Data.List.Destutter
import Tonepoet.Dst.Lossless

/-!
# The candidate search (dst/encoder.rs:829)

`encode_predictive_search` tries every combination of layout, order, scale and threshold and decodes each
candidate before it accepts it. The Levinson-Durbin fit is floating point; `Fit` stands for what the
quantiser sees of it, the rounded product of a coefficient and the scale.
-/

namespace Dst

open Rust

inductive DstEncoderEffort where
  | fast
  | balanced
  | highCompression
  deriving DecidableEq

structure DstEncoderOptions where
  predictionOrder : ℕ
  perChannelFilters : Bool
  candidatePredictionOrders : List ℕ
  coefficientQuantizationScales : List ℤ
  coefficientPruneThresholds : List ℤ
  verify : Bool
  minimumSavingsBytes : ℕ
  effort : DstEncoderEffort
  fastPrescreen : Bool

/-- The counters of `DstFrameEncodeTelemetry` that the search updates (encoder.rs:355). -/
structure DstFrameEncodeTelemetry where
  rawDstBytes : ℕ
  predictiveCandidates : ℕ
  verifiedPredictiveCandidates : ℕ
  verificationFailures : ℕ
  verificationDecodeErrors : ℕ
  verificationMismatches : ℕ
  lastVerificationFailure : Option DstVerificationFailureKind
  unprofitablePredictiveCandidates : ℕ
  worstExpansionAvoidedBytes : ℕ
  prescreenRejected : Bool
  prescreenSampleBytes : ℕ
  prescreenUniqueBytes : ℕ
  prescreenTransitionPercent : ℕ

/-- `(coeff * f64::from(scale)).round() as i32`, negated: by layout, order, table, tap and scale. -/
abbrev Fit := DstTableStrategy → ℕ → ℕ → ℕ → ℤ → ℤ

/-! ## Policy -/

def isLegalDstChannelCount (channelCount : ℕ) : Bool := 1 ≤ channelCount ∧ channelCount ≤ maxCompressedChannels

def validateEncoderChannelCount (channelCount : ℕ) : Outcome DstEncodeError Unit :=
  if isLegalDstChannelCount channelCount then pure () else fail (.invalidChannelCount channelCount)

/-- `dst_frame_bytes_per_channel` (encoder.rs:1127). -/
def dstFrameBytesPerChannel : DstRate → Option ℕ
  | .dsd64 => some frameBytesPerChannel
  | .dsd128 => checkedMul frameBytesPerChannel 2
  | .dsd256 => checkedMul frameBytesPerChannel 4

/-- `dst_interleaved_frame_len_for_rate` (encoder.rs:494). -/
def dstInterleavedFrameLenForRate (rate : DstRate) (channelCount : ℕ) : Outcome DstEncodeError ℕ := do
  validateEncoderChannelCount channelCount
  okOr (.invalidFrameLength usizeMax usizeMax)
    ((dstFrameBytesPerChannel rate).bind fun n => checkedMul n channelCount)

def supportsPredictiveChannelCount (channelCount : ℕ) : Bool :=
  channelCount == minCompressedChannels || channelCount == maxCompressedChannels

inductive DstPolicyScope where
  | container
  | sourceDstPassthrough
  | callerSuppliedDst
  | rawFallback
  | predictiveGeneration

/-- `validate_dst_policy` (encoder.rs:517). -/
def validateDstPolicy (scope : DstPolicyScope) (rate : DstRate) (channelCount : ℕ) : Outcome DstEncodeError Unit := do
  validateEncoderChannelCount channelCount
  match scope with
  | .predictiveGeneration =>
    if rate = .dsd64 ∧ supportsPredictiveChannelCount channelCount then pure ()
    else fail (.predictiveUnsupportedLayout channelCount rate)
  | _ => pure ()

/-! ## Candidates -/

/-- `candidate_layouts` (encoder.rs:1184). -/
def candidateLayouts (options : DstEncoderOptions) (channels : ℕ) : List DstTableStrategy :=
  if options.perChannelFilters ∧ 1 < channels then [.shared, .perChannel] else [.shared]

/-- `validate_prediction_order` (encoder.rs:1143). -/
def validatePredictionOrder (order : ℕ) : Outcome DstEncodeError Unit :=
  if 1 ≤ order ∧ order ≤ maxTableLen then pure () else fail (.invalidPredictionOrder order)

def validatePredictionOrders : List ℕ → Outcome DstEncodeError Unit
  | [] => pure ()
  | order :: orders => do
    validatePredictionOrder order
    validatePredictionOrders orders

/-- `sort_unstable` and `dedup`. -/
def sortDedup {α : Type} [DecidableEq α] (le : α → α → Bool) (xs : List α) : List α := (xs.mergeSort le).destutter (· ≠ ·)

/-- The orders to try, before they are checked. -/
def orderChoices (options : DstEncoderOptions) : List ℕ :=
  let orders :=
    if options.candidatePredictionOrders = [] then
      match options.effort with
      | .fast => [8, 16]
      | .balanced => [4, 8, 12, 16, 24, 32, 48, 64]
      | .highCompression => [4, 8, 12, 16, 24, 32, 48, 64, 96, 128]
    else options.candidatePredictionOrders
  sortDedup (fun a b => a ≤ b) (orders ++ [options.predictionOrder])

/-- `candidate_orders` (encoder.rs:1192). -/
def candidateOrders (options : DstEncoderOptions) : Outcome DstEncodeError (List ℕ) := do
  validatePredictionOrders (orderChoices options)
  return orderChoices options

/-- `candidate_scales` (encoder.rs:1212). -/
def candidateScales (options : DstEncoderOptions) : List ℤ :=
  let scales : List ℤ :=
    if options.coefficientQuantizationScales = [] then
      match options.effort with
      | .fast => [192, 128]
      | .balanced => [255, 192, 128, 96]
      | .highCompression => [320, 255, 224, 192, 160, 128, 96, 64]
    else options.coefficientQuantizationScales
  (sortDedup (fun a b => a ≤ b) (scales.map fun scale => max 1 (min scale maxPredCoeffAbs))).reverse

/-- `candidate_prune_thresholds` (encoder.rs:1231). -/
def candidatePruneThresholds (options : DstEncoderOptions) : List ℤ :=
  let thresholds : List ℤ :=
    if options.coefficientPruneThresholds = [] then
      match options.effort with
      | .fast => [0, 2]
      | .balanced => [0, 1, 2]
      | .highCompression => [0, 1, 2, 3, 4, 6, 8]
    else options.coefficientPruneThresholds
  sortDedup (fun a b => a ≤ b) (thresholds.map fun threshold => max 0 (min threshold maxPredCoeffAbs))

/-- `quantize_lpc_coefficients` (encoder.rs:1414), from the rounded products on. -/
def quantizeLpcCoefficients (coeffs : List (ℤ → ℤ)) (scale pruneThreshold : ℤ) : List ℤ :=
  let quantized := trimTrailing 0 (coeffs.map fun coeff =>
    let value := coeff scale
    let pruned := if |value| ≤ pruneThreshold then 0 else value
    max (-maxPredCoeffAbs) (min pruned maxPredCoeffAbs))
  if quantized = [] then [0] else quantized

/-- `levinson_durbin` returns one coefficient per tap, for one table or for each channel. -/
def lpcByTable (fit : Fit) (layout : DstTableStrategy) (channels order : ℕ) : List (List (ℤ → ℤ)) :=
  (List.range (layout.tableCount channels)).map fun table => (List.range order).map fun tap => fit layout order table tap

structure DstSelectedPredictor where
  predictionOrder : ℕ
  tableStrategy : DstTableStrategy
  coefficientScale : ℤ
  coefficientPruneThreshold : ℤ
  filterTableLengths : List ℕ

structure PredictiveCandidate where
  bytes : List UInt8
  predictor : DstSelectedPredictor

/-- One point of the candidate matrix. -/
structure CandidateChoice where
  layout : DstTableStrategy
  order : ℕ
  scale : ℤ
  pruneThreshold : ℤ

/-- The four nested loops of the search, in order. -/
def candidateMatrix (options : DstEncoderOptions) (channels : ℕ) (orders : List ℕ) : List CandidateChoice :=
  (candidateLayouts options channels).flatMap fun layout => orders.flatMap fun order =>
    (candidateScales options).flatMap fun scale => (candidatePruneThresholds options).map fun pruneThreshold =>
      ⟨layout, order, scale, pruneThreshold⟩

def CandidateChoice.filters (fit : Fit) (channels : ℕ) (c : CandidateChoice) : List (List ℤ) :=
  (lpcByTable fit c.layout channels c.order).map fun coeffs => quantizeLpcCoefficients coeffs c.scale c.pruneThreshold

/-! ## The search -/

def saturatingAdd64 (a b : ℕ) : ℕ := min (a + b) (2 ^ 64 - 1)

/-- `is_worth_using` (encoder.rs:1155). -/
def isWorthUsing (candidateLen rawLen minimumSavings : ℕ) : Bool :=
  match checkedAdd candidateLen minimumSavings with
  | some threshold => threshold ≤ rawLen
  | none => false

/-- `record_verification_failure` (encoder.rs:976). -/
def recordVerificationFailure (t : DstFrameEncodeTelemetry) (kind : DstVerificationFailureKind) : DstFrameEncodeTelemetry :=
  let t := { t with
    verificationFailures := saturatingAdd64 t.verificationFailures 1
    lastVerificationFailure := some kind }
  match kind with
  | .decodeError => { t with verificationDecodeErrors := saturatingAdd64 t.verificationDecodeErrors 1 }
  | .decodedDsdMismatch => { t with verificationMismatches := saturatingAdd64 t.verificationMismatches 1 }

structure SearchState where
  best : Option PredictiveCandidate
  sawUnverifiedCandidate : Bool
  telemetry : DstFrameEncodeTelemetry

/-- The part of the loop body after verification (encoder.rs:915). -/
def acceptCandidate (options : DstEncoderOptions) (c : CandidateChoice) (filters : List (List ℤ)) (candidate : List UInt8)
    (s : SearchState) : SearchState :=
  let t := { s.telemetry with
    verifiedPredictiveCandidates := saturatingAdd64 s.telemetry.verifiedPredictiveCandidates 1 }
  let t :=
    if !isWorthUsing candidate.length t.rawDstBytes options.minimumSavingsBytes then
      { t with unprofitablePredictiveCandidates := saturatingAdd64 t.unprofitablePredictiveCandidates 1 }
    else t
  let t :=
    if t.rawDstBytes < candidate.length then
      { t with worstExpansionAvoidedBytes := max t.worstExpansionAvoidedBytes (candidate.length - t.rawDstBytes) }
    else t
  let found : PredictiveCandidate := ⟨candidate, c.order, c.layout, c.scale, c.pruneThreshold, filters.map List.length⟩
  let better := match s.best with
    | none => true
    | some current => found.bytes.length < current.bytes.length
  { s with best := if better then some found else s.best, telemetry := t }

/-- The body of the search loop (encoder.rs:882). -/
def tryCandidate (fit : Fit) (interleavedDsd : List UInt8) (channelCount : ℕ) (rate : DstRate) (options : DstEncoderOptions)
    (s : SearchState) (c : CandidateChoice) : Outcome DstEncodeError SearchState := do
  let filters := c.filters fit channelCount
  if filters.any List.isEmpty then return s
  else
    let candidate ← encodePredictiveCandidate interleavedDsd channelCount filters
      (c.layout.tableForChannel channelCount) c.layout
    let s := { s with telemetry := { s.telemetry with
      predictiveCandidates := saturatingAdd64 s.telemetry.predictiveCandidates 1 } }
    if options.verify then
      match verifyPredictiveCandidate candidate channelCount rate interleavedDsd with
      | .ok () => return acceptCandidate options c filters candidate s
      | .error kind =>
        return { s with sawUnverifiedCandidate := true, telemetry := recordVerificationFailure s.telemetry kind }
    else return acceptCandidate options c filters candidate s

/-! ### Pre-screening (encoder.rs:1468) -/

def prescreenSampleBytes : ℕ := 4096
def prescreenMinUniqueBytes : ℕ := 240
def prescreenMinTransitionPercent : ℕ := 48

structure FramePrescreen where
  sampleBytes : ℕ
  uniqueBytes : ℕ
  transitionPercent : ℕ
  rejectPredictive : Bool

/-- Adjacent bits that differ. -/
def transitions : List Bool → ℕ
  | b :: c :: bits => (if b = c then 0 else 1) + transitions (c :: bits)
  | _ => 0

def fastPrescreen (interleavedDsd : List UInt8) (options : DstEncoderOptions) : Option FramePrescreen :=
  if !options.fastPrescreen || interleavedDsd.isEmpty then none
  else
    let sample := min interleavedDsd.length prescreenSampleBytes
    let bytes := interleavedDsd.take sample
    let bits := BitReader.bitsOf bytes
    let unique := bytes.dedup.length
    let denom := max (bits.length - 1) 1
    let transitionPercent := transitions bits * 100 / denom
    let looksRandom := prescreenMinUniqueBytes ≤ unique ∧ prescreenMinTransitionPercent ≤ transitionPercent
    some ⟨sample, unique, transitionPercent, options.effort = .fast ∧ looksRandom⟩

def recordPrescreen (t : DstFrameEncodeTelemetry) (p : FramePrescreen) : DstFrameEncodeTelemetry :=
  { t with
    prescreenSampleBytes := p.sampleBytes
    prescreenUniqueBytes := p.uniqueBytes
    prescreenTransitionPercent := p.transitionPercent
    prescreenRejected := p.rejectPredictive || t.prescreenRejected }

/-- `encode_predictive_search` (encoder.rs:829): the result, and the telemetry as the call leaves it. -/
def encodePredictiveSearch (fit : Fit) (interleavedDsd : List UInt8) (channelCount : ℕ) (rate : DstRate)
    (options : DstEncoderOptions) (telemetry : DstFrameEncodeTelemetry) :
    Outcome DstEncodeError PredictiveCandidate × DstFrameEncodeTelemetry :=
  let notBeneficial : Outcome DstEncodeError PredictiveCandidate :=
    fail (.compressionNotBeneficial 0 (1 + interleavedDsd.length) options.minimumSavingsBytes)
  match dstInterleavedFrameLenForRate rate channelCount with
  | .error e => (.error e, telemetry)
  | .ok expected =>
    if interleavedDsd.length ≠ expected then (fail (.invalidFrameLength expected interleavedDsd.length), telemetry)
    else match validateDstPolicy .predictiveGeneration rate channelCount with
      | .error e => (.error e, telemetry)
      | .ok () =>
        let prescreen := fastPrescreen interleavedDsd options
        let telemetry := match prescreen with
          | some p => recordPrescreen telemetry p
          | none => telemetry
        if (prescreen.map FramePrescreen.rejectPredictive).getD false then (notBeneficial, telemetry)
        else match candidateOrders options with
          | .error e => (.error e, telemetry)
          | .ok orders =>
            match (candidateMatrix options channelCount orders).foldlM
              (tryCandidate fit interleavedDsd channelCount rate options) ⟨none, false, telemetry⟩ with
            | .error e => (.error e, telemetry)
            | .ok s => match s.best with
              | some frame => (pure frame, s.telemetry)
              | none => (if s.sawUnverifiedCandidate then fail .verificationFailed else notBeneficial, s.telemetry)

/-! ## No candidate is rejected -/

theorem verify_candidate {channels : ℕ} (h2 : 2 ≤ channels) (h6 : channels ≤ maxChannels) {dsd : List UInt8}
    (hlen : dsd.length = frameBytesPerChannel * channels) {layout : DstTableStrategy} {filters : List (List ℤ)}
    (h : Encodable channels layout filters) :
    ∃ bytes, (encodePredictiveCandidate dsd channels filters (layout.tableForChannel channels) layout :
        Outcome DstEncodeError (List UInt8)) = .ok bytes ∧ decodeFrameWithRate bytes channels .dsd64 = .ok dsd ∧
      verifyPredictiveCandidate bytes channels .dsd64 dsd = .ok () := by
  obtain ⟨bytes, henc, hdec⟩ := decodeFrame_encode (E := DstEncodeError) h2 h6 hlen h
  exact ⟨bytes, henc, hdec, by simp [verifyPredictiveCandidate, hdec]⟩

theorem quantizeLpcCoefficients_ok {coeffs : List (ℤ → ℤ)} (hlen : coeffs.length ≤ 128) (scale pruneThreshold : ℤ) :
    quantizeLpcCoefficients coeffs scale pruneThreshold ≠ [] ∧
      (quantizeLpcCoefficients coeffs scale pruneThreshold).length ≤ 128 ∧
      ∀ z ∈ quantizeLpcCoefficients coeffs scale pruneThreshold, -255 ≤ z ∧ z ≤ 255 := by
  obtain ⟨values, hv⟩ : ∃ values, (coeffs.map fun coeff =>
    let value := coeff scale
    let pruned := if |value| ≤ pruneThreshold then 0 else value
    max (-maxPredCoeffAbs) (min pruned maxPredCoeffAbs)) = values := ⟨_, rfl⟩
  have hrange : ∀ z ∈ values, -255 ≤ z ∧ z ≤ 255 := by
    rw [← hv]
    intro z hz
    obtain ⟨_, _, rfl⟩ := List.mem_map.1 hz
    simp only [maxPredCoeffAbs]
    omega
  obtain ⟨hpre, _⟩ := trimTrailing_prefix 0 values
  have hl : values.length = coeffs.length := by rw [← hv, List.length_map]
  simp only [quantizeLpcCoefficients, hv]
  split
  · simp
  · rename_i hne
    refine ⟨hne, ?_, fun z hz => hrange z (hpre.mem hz)⟩
    have := hpre.length_le
    omega

theorem validatePredictionOrders_ok : ∀ {orders : List ℕ}, validatePredictionOrders orders = .ok () →
    ∀ order ∈ orders, order ≤ 128
  | [], _ => by simp
  | x :: xs, h => by
    rw [validatePredictionOrders, validatePredictionOrder] at h
    by_cases hx : 1 ≤ x ∧ x ≤ maxTableLen
    · rw [if_pos hx, pure_bind] at h
      intro y hy
      rcases List.mem_cons.1 hy with rfl | hy
      · exact hx.2
      · exact validatePredictionOrders_ok h y hy
    · rw [if_neg hx] at h
      cases h

theorem candidateOrders_valid {options : DstEncoderOptions} {orders : List ℕ} (h : candidateOrders options = .ok orders) :
    ∀ order ∈ orders, order ≤ 128 := by
  unfold candidateOrders at h
  cases hv : validatePredictionOrders (orderChoices options) with
  | error e =>
    rw [hv] at h
    cases h
  | ok u =>
    rw [hv] at h
    cases h
    exact validatePredictionOrders_ok hv

/-- What verification leaves alone when nothing is rejected. -/
structure Unrejected (t t' : DstFrameEncodeTelemetry) : Prop where
  failures : t'.verificationFailures = t.verificationFailures
  decodeErrors : t'.verificationDecodeErrors = t.verificationDecodeErrors
  mismatches : t'.verificationMismatches = t.verificationMismatches
  last : t'.lastVerificationFailure = t.lastVerificationFailure

theorem acceptCandidate_unrejected (options : DstEncoderOptions) (c : CandidateChoice) (filters : List (List ℤ))
    (candidate : List UInt8) (s : SearchState) :
    (acceptCandidate options c filters candidate s).sawUnverifiedCandidate = s.sawUnverifiedCandidate ∧
      Unrejected s.telemetry (acceptCandidate options c filters candidate s).telemetry := by
  refine ⟨rfl, ?_⟩
  unfold acceptCandidate
  dsimp only
  split <;> split <;> exact ⟨rfl, rfl, rfl, rfl⟩

section Candidates

variable (fit : Fit) (options : DstEncoderOptions) {dsd : List UInt8} {channels : ℕ}

/-- Whatever the fit proposes, the quantised filters are encodable. -/
theorem filters_encodable (fit : Fit) (channels : ℕ) {c : CandidateChoice} (horder : c.order ≤ 128) :
    Encodable channels c.layout (c.filters fit channels) where
  count := by simp [CandidateChoice.filters, lpcByTable]
  filter := by
    intro cs hcs
    obtain ⟨coeffs, hmem, rfl⟩ := List.mem_map.1 hcs
    obtain ⟨table, _, rfl⟩ := List.mem_map.1 hmem
    exact quantizeLpcCoefficients_ok (by simpa using horder) _ _

theorem tryCandidate_unrejected (h2 : 2 ≤ channels) (h6 : channels ≤ maxChannels)
    (hlen : dsd.length = frameBytesPerChannel * channels) {c : CandidateChoice} (horder : c.order ≤ 128) (s : SearchState) :
    ∃ s', tryCandidate fit dsd channels .dsd64 options s c = .ok s' ∧
      s'.sawUnverifiedCandidate = s.sawUnverifiedCandidate ∧ Unrejected s.telemetry s'.telemetry := by
  obtain ⟨bytes, henc, _, hver⟩ := verify_candidate h2 h6 hlen (filters_encodable fit channels horder)
  unfold tryCandidate
  simp only
  split
  · exact ⟨s, rfl, rfl, ⟨rfl, rfl, rfl, rfl⟩⟩
  · obtain ⟨h1, hu⟩ := acceptCandidate_unrejected options c (c.filters fit channels) bytes { s with telemetry :=
      { s.telemetry with predictiveCandidates := saturatingAdd64 s.telemetry.predictiveCandidates 1 } }
    refine ⟨_, ?_, h1, ⟨hu.failures, hu.decodeErrors, hu.mismatches, hu.last⟩⟩
    rw [henc, ok_bind]
    cases options.verify
    · rfl
    · simp only [if_true, hver]
      rfl

theorem searchLoop_unrejected (h2 : 2 ≤ channels) (h6 : channels ≤ maxChannels)
    (hlen : dsd.length = frameBytesPerChannel * channels) : ∀ (cs : List CandidateChoice) (s : SearchState),
    (∀ c ∈ cs, c.order ≤ 128) → ∃ s', cs.foldlM (tryCandidate fit dsd channels .dsd64 options) s = .ok s' ∧
      s'.sawUnverifiedCandidate = s.sawUnverifiedCandidate ∧ Unrejected s.telemetry s'.telemetry
  | [], s, _ => ⟨s, rfl, rfl, ⟨rfl, rfl, rfl, rfl⟩⟩
  | c :: cs, s, hcs => by
    obtain ⟨s₁, hs₁, hsaw₁, hu₁⟩ := tryCandidate_unrejected fit options h2 h6 hlen (hcs c (by simp)) s
    obtain ⟨s₂, hs₂, hsaw₂, hu₂⟩ := searchLoop_unrejected h2 h6 hlen cs s₁ fun d hd => hcs d (by simp [hd])
    refine ⟨s₂, ?_, hsaw₂.trans hsaw₁, ⟨hu₂.failures.trans hu₁.failures, hu₂.decodeErrors.trans hu₁.decodeErrors,
      hu₂.mismatches.trans hu₁.mismatches, hu₂.last.trans hu₁.last⟩⟩
    rw [List.foldlM_cons, hs₁]
    exact hs₂

theorem mem_candidateMatrix {options : DstEncoderOptions} {orders : List ℕ} {c : CandidateChoice} (h : c ∈ candidateMatrix options channels orders) :
    c.order ∈ orders := by
  simp only [candidateMatrix, List.mem_flatMap, List.mem_map] at h
  obtain ⟨layout, _, order, hmem, scale, _, threshold, _, rfl⟩ := h
  exact hmem

/-- The policy and the length check leave the two supported layouts. -/
theorem supported_of_valid {rate : DstRate} {expected : ℕ} (hlen : dstInterleavedFrameLenForRate rate channels = .ok expected)
    (hpol : validateDstPolicy .predictiveGeneration rate channels = .ok ()) :
    rate = .dsd64 ∧ (channels = 2 ∨ channels = 6) ∧ expected = frameBytesPerChannel * channels := by
  rw [validateDstPolicy, validateEncoderChannelCount] at hpol
  rw [dstInterleavedFrameLenForRate, validateEncoderChannelCount] at hlen
  by_cases hc : isLegalDstChannelCount channels
  · rw [if_pos hc, pure_bind] at hpol hlen
    by_cases hs : rate = .dsd64 ∧ supportsPredictiveChannelCount channels
    · obtain ⟨rfl, hsup⟩ := hs
      simp only [supportsPredictiveChannelCount, Bool.or_eq_true, beq_iff_eq, minCompressedChannels,
        maxCompressedChannels] at hsup
      rw [dstFrameBytesPerChannel, Option.bind_some, checkedMul_of_le (by simp only [frameBytesPerChannel, usizeMax]; omega)] at hlen
      cases hlen
      exact ⟨rfl, hsup, rfl⟩
    · simp only [if_neg hs] at hpol
      cases hpol
  · rw [if_neg hc] at hpol
    cases hpol

theorem dstInterleavedFrameLen_ne {rate : DstRate} :
    dstInterleavedFrameLenForRate rate channels ≠ .error (.err .verificationFailed) := by
  intro h
  rw [dstInterleavedFrameLenForRate, validateEncoderChannelCount] at h
  by_cases hc : isLegalDstChannelCount channels
  · rw [if_pos hc, pure_bind] at h
    cases ho : (dstFrameBytesPerChannel rate).bind fun n => checkedMul n channels <;> rw [ho] at h <;> cases h
  · rw [if_neg hc] at h
    cases h

theorem validateDstPolicy_ne {rate : DstRate} :
    validateDstPolicy .predictiveGeneration rate channels ≠ .error (.err .verificationFailed) := by
  intro h
  rw [validateDstPolicy, validateEncoderChannelCount] at h
  by_cases hc : isLegalDstChannelCount channels
  · rw [if_pos hc, pure_bind] at h
    split at h <;> cases h
  · rw [if_neg hc] at h
    cases h

theorem candidateOrders_ne {options : DstEncoderOptions} : candidateOrders options ≠ .error (.err .verificationFailed) := by
  have hv : ∀ xs, validatePredictionOrders xs ≠ .error (.err .verificationFailed) := by
    intro xs
    induction xs with
    | nil => intro h; cases h
    | cons x xs ih =>
      rw [validatePredictionOrders, validatePredictionOrder]
      split
      · exact ih
      · intro h
        cases h
  intro h
  rw [candidateOrders] at h
  cases hx : validatePredictionOrders (orderChoices options) with
  | error e =>
    rw [hx] at h
    cases h
    exact hv _ hx
  | ok u =>
    rw [hx] at h
    cases h

/-- The search never reports a failed verification and leaves its counters as they were. -/
theorem search_unrejected (fit : Fit) (dsd : List UInt8) (channelCount : ℕ) (rate : DstRate) (options : DstEncoderOptions)
    (telemetry : DstFrameEncodeTelemetry) :
    (encodePredictiveSearch fit dsd channelCount rate options telemetry).1 ≠ fail .verificationFailed ∧
      Unrejected telemetry (encodePredictiveSearch fit dsd channelCount rate options telemetry).2 := by
  have hrefl : ∀ t : DstFrameEncodeTelemetry, Unrejected t t := fun t => ⟨rfl, rfl, rfl, rfl⟩
  unfold encodePredictiveSearch
  simp only
  split
  · rename_i e he
    exact ⟨fun h => dstInterleavedFrameLen_ne (he.trans (by cases h; rfl)), hrefl _⟩
  rename_i expected hexp
  split
  · exact ⟨fun h => (by cases h), hrefl _⟩
  rename_i hlen
  split
  · rename_i e he
    exact ⟨fun h => validateDstPolicy_ne (he.trans (by cases h; rfl)), hrefl _⟩
  rename_i hpol
  obtain ⟨rfl, hch, rfl⟩ := supported_of_valid hexp hpol
  obtain ⟨t, ht, hpre⟩ : ∃ t, (match fastPrescreen dsd options with
      | some p => recordPrescreen telemetry p
      | none => telemetry) = t ∧ Unrejected telemetry t := by
    refine ⟨_, rfl, ?_⟩
    split
    · exact ⟨rfl, rfl, rfl, rfl⟩
    · exact hrefl _
  rw [ht]
  split
  · exact ⟨fun h => (by cases h), hpre⟩
  split
  · rename_i e he
    exact ⟨fun h => candidateOrders_ne (he.trans (by cases h; rfl)), hpre⟩
  rename_i orders hord
  have h2 : 2 ≤ channelCount := by omega
  have h6 : channelCount ≤ maxChannels := by simp only [maxChannels]; omega
  obtain ⟨s, hs, hsaw, hu⟩ := searchLoop_unrejected fit options h2 h6 (not_not.1 hlen)
    (candidateMatrix options channelCount orders) ⟨none, false, t⟩
    fun c hc => candidateOrders_valid hord _ (mem_candidateMatrix hc)
  rw [hs]
  simp only [hsaw]
  have hall : Unrejected telemetry s.telemetry := ⟨hu.failures.trans hpre.failures, hu.decodeErrors.trans hpre.decodeErrors,
    hu.mismatches.trans hpre.mismatches, hu.last.trans hpre.last⟩
  split
  · exact ⟨fun h => (by cases h), hall⟩
  · exact ⟨fun h => (by cases h), hall⟩

end Candidates

/-- **Predictive DST encoding is lossless without the verification step.** Every candidate decodes to its frame, so
    `verify_predictive_candidate` accepts it, and a whole search records no rejection. -/
theorem encodePredictive_lossless :
    (∀ channels, channels = 2 ∨ channels = 6 → ∀ dsd : List UInt8, dsd.length = frameBytesPerChannel * channels →
      ∀ (layout : DstTableStrategy) (filters : List (List ℤ)), Encodable channels layout filters →
      ∃ bytes, (encodePredictiveCandidate dsd channels filters (layout.tableForChannel channels) layout :
          Outcome DstEncodeError (List UInt8)) = .ok bytes ∧ decodeFrameWithRate bytes channels .dsd64 = .ok dsd ∧
        verifyPredictiveCandidate bytes channels .dsd64 dsd = .ok ()) ∧
    ∀ fit dsd channelCount rate options telemetry,
      (encodePredictiveSearch fit dsd channelCount rate options telemetry).1 ≠ fail .verificationFailed ∧
        Unrejected telemetry (encodePredictiveSearch fit dsd channelCount rate options telemetry).2 :=
  ⟨fun channels hc dsd hlen layout filters h =>
      verify_candidate (by omega) (by simp only [maxChannels]; omega) hlen h,
    search_unrejected⟩

/-- A silent stereo frame with one filter. -/
theorem encodePredictive_lossless_silence :
    ∃ bytes, (encodePredictiveCandidate (List.replicate 9408 0x69) 2 [[255, -3]] [0, 0] .shared :
        Outcome DstEncodeError (List UInt8)) = .ok bytes ∧
      decodeFrameWithRate bytes 2 .dsd64 = .ok (List.replicate 9408 0x69) ∧
      verifyPredictiveCandidate bytes 2 .dsd64 (List.replicate 9408 0x69) = .ok () :=
  encodePredictive_lossless.1 2 (.inl rfl) (List.replicate 9408 0x69) List.length_replicate .shared [[255, -3]]
    ⟨rfl, by simp⟩

end Dst
