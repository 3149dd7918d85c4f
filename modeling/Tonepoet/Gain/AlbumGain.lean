import Tonepoet.Library.DirectedRounding

/-!
# The shared album gain (dsd_album_gain.rs:21-516)

Binary64 numbers are nonnegative reals with an infinity, and the directed helpers are those of an arithmetic that is only known to lie on the
proper side of the exact results. The logarithm that seeds the search for a gain is a parameter. A gain is a whole number of
nanodecibels.
-/

namespace Gain

open scoped ENNReal
open DirectedRounding

noncomputable section

/-- `DbNano` (dsd_reference.rs:97). -/
abbrev DbNano := ℤ

def minNormalizeTarget : DbNano := -12000000000
def maxNormalizeTarget : DbNano := 0

inductive AlbumPeakMeasurement where
  | finite (pointDb : DbNano) (signalUpperLinear : ℝ≥0∞)
  | silence

inductive AlbumCeilingDomain where
  | losslessStoredPcm
  | lossyEncoderInputPcm
  | mixedPcm
  deriving DecidableEq

structure AlbumTerminalBound where
  preGainReconstructedErrorLinear : ℝ≥0∞
  storedSampleErrorLinear : Option ℝ≥0∞
  postGainReconstructedErrorLinear : ℝ≥0∞
  domain : AlbumCeilingDomain

structure AlbumGainAuthority where
  targetDbfs : DbNano
  loudestPeakDbfs : Option DbNano
  loudestSignalUpperLinear : ℝ≥0∞
  terminalBound : AlbumTerminalBound
  maximumLinearGain : ℝ≥0∞
  gainDb : DbNano
  trackCount : ℕ

/-- The errors, by what their messages say. -/
inductive GainError where
  | noTrack
  | targetOutOfRange
  | outsideConversionDomain
  | exponentialInputInvalid
  | rangeReductionOverflowed
  | exponentialOverflowed
  | terminalBoundInvalid
  | noRoomBeneathCeiling (postGainReconstructedErrorLinear : ℝ≥0∞) (targetDbfs : DbNano)
  | signalBoundInvalid
  | numeratorNotPositive
  | linearGainInvalid
  | notRepresentable
  | roundingOverflowed
  | pcm (error : GainError)

variable (arith : Arithmetic)

/-! ## The directed exponential -/

/-- `LN_10_LOWER` and `LN_10_UPPER`, the binary64 numbers nearest to the constants. -/
def ln10Lower : ℝ≥0∞ := ENNReal.ofReal ((5184960683398420 / 2 ^ 51 : ℚ) : ℝ)
def ln10Upper : ℝ≥0∞ := ENNReal.ofReal ((5184960683398422 / 2 ^ 51 : ℚ) : ℝ)

def dbNanoExpDenominator : ℝ≥0∞ := 20000000000
def expTaylorTerms : ℕ := 18
def expReducedMax : ℝ≥0∞ := ENNReal.ofReal (1 / 16)
def maxIntervalDbNanoMagnitude : ℕ := 6000000000000
def gainRealizationGuardNanodb : ℤ := 16

/-- The loop that halves (dsd_album_gain.rs:388-398): the halved interval, and how often. -/
def reduceRange (yLower yUpper : ℝ≥0∞) (squarings : ℕ) : Except GainError (ℝ≥0∞ × ℝ≥0∞ × ℕ) :=
  if expReducedMax < yUpper then
    if 20 < squarings + 1 then .error .rangeReductionOverflowed
    else reduceRange (arith.divDown yLower 2) (arith.divUp yUpper 2) (squarings + 1)
  else .ok (yLower, yUpper, squarings)
termination_by 21 - squarings

structure TaylorState where
  termLower : ℝ≥0∞
  termUpper : ℝ≥0∞
  sumLower : ℝ≥0∞
  sumUpper : ℝ≥0∞

/-- A term of the series (dsd_album_gain.rs:404-415). -/
def taylorStep (yLower yUpper : ℝ≥0∞) (state : TaylorState) (n : ℕ) : TaylorState :=
  let termLower := arith.divDown (arith.mulDown state.termLower yLower) n
  let termUpper := arith.divUp (arith.mulUp state.termUpper yUpper) n
  ⟨termLower, termUpper, arith.addDown state.sumLower termLower, arith.addUp state.sumUpper termUpper⟩

def taylor (yLower yUpper : ℝ≥0∞) (terms : ℕ) : TaylorState := (List.range' 1 terms).foldl (taylorStep arith yLower yUpper) ⟨1, 1, 1, 1⟩

/-- The sums of the series (dsd_album_gain.rs:400-427). -/
def reducedInterval (yLower yUpper : ℝ≥0∞) : ℝ≥0∞ × ℝ≥0∞ :=
  let state := taylor arith yLower yUpper expTaylorTerms
  let firstTailUpper := arith.divUp (arith.mulUp state.termUpper yUpper) ((expTaylorTerms + 1 : ℕ) : ℝ≥0∞)
  let ratioUpper := arith.divUp yUpper ((expTaylorTerms + 2 : ℕ) : ℝ≥0∞)
  let denominatorLower := arith.subDown 1 ratioUpper
  let tailUpper := arith.divUp firstTailUpper denominatorLower
  (state.sumLower, arith.addUp state.sumUpper tailUpper)

/-- The loop that squares (dsd_album_gain.rs:429-435). -/
def squareInterval (sumLower sumUpper : ℝ≥0∞) : ℕ → Except GainError (ℝ≥0∞ × ℝ≥0∞)
  | 0 => .ok (sumLower, sumUpper)
  | squarings + 1 =>
    let lower := arith.mulDown sumLower sumLower
    let upper := arith.mulUp sumUpper sumUpper
    if upper = ⊤ then .error .exponentialOverflowed else squareInterval lower upper squarings

/-- `exp_positive_interval` (dsd_album_gain.rs:377). -/
def expPositiveInterval (yLower yUpper : ℝ≥0∞) : Except GainError (ℝ≥0∞ × ℝ≥0∞) :=
  if yLower = ⊤ ∨ yUpper = ⊤ ∨ yUpper < yLower then .error .exponentialInputInvalid
  else if yUpper = 0 then .ok (1, 1)
  else do
    let (yLower, yUpper, squarings) ← reduceRange arith yLower yUpper 0
    let (sumLower, sumUpper) := reducedInterval arith yLower yUpper
    squareInterval arith sumLower sumUpper squarings

/-- `db_nano_to_linear_interval` (dsd_album_gain.rs:352). -/
def dbNanoToLinearInterval (db : DbNano) : Except GainError (ℝ≥0∞ × ℝ≥0∞) :=
  if db = 0 then .ok (1, 1)
  else
    let magnitude := db.natAbs
    if maxIntervalDbNanoMagnitude < magnitude then .error .outsideConversionDomain
    else do
      let productLower := arith.mulDown magnitude ln10Lower
      let productUpper := arith.mulUp magnitude ln10Upper
      let yLower := arith.divDown productLower dbNanoExpDenominator
      let yUpper := arith.divUp productUpper dbNanoExpDenominator
      let (expLower, expUpper) ← expPositiveInterval arith yLower yUpper
      if 0 < db then return (expLower, expUpper)
      else return (arith.divDown 1 expUpper, arith.divUp 1 expLower)

theorem magnitude_of_interval {db : DbNano} {interval : ℝ≥0∞ × ℝ≥0∞} (h : dbNanoToLinearInterval arith db = .ok interval) :
    db.natAbs ≤ maxIntervalDbNanoMagnitude := by
  rw [dbNanoToLinearInterval] at h
  split at h
  · rename_i hzero
    rw [hzero]
    exact Nat.zero_le _
  · dsimp only at h
    split at h
    · cases h
    · exact not_lt.1 (by assumption)

/-! ## The gain -/

def i64Min : ℤ := -2 ^ 63

/-- The walk down (dsd_album_gain.rs:457-465). It ends at a gain or outside of the conversion's domain. -/
def walkDown (maximumLinearGain : ℝ≥0∞) (nano : ℤ) : Except GainError DbNano :=
  match h : dbNanoToLinearInterval arith nano with
  | .error error => .error error
  | .ok (_, candidateUpper) =>
    if candidateUpper ≤ maximumLinearGain then .ok nano
    else if nano = i64Min then .error .roundingOverflowed
    else walkDown maximumLinearGain (nano - 1)
termination_by (nano + maxIntervalDbNanoMagnitude + 1).toNat
decreasing_by
  have := magnitude_of_interval arith h
  omega

/-- `linear_gain_to_db_nano_down` (dsd_album_gain.rs:439). The seed is what the logarithm gives in nanodecibels, if it is in range. -/
def linearGainToDbNanoDown (seed : ℝ≥0∞ → Option ℤ) (maximumLinearGain : ℝ≥0∞) : Except GainError DbNano :=
  match seed maximumLinearGain with
  | none => .error .notRepresentable
  | some scaled =>
    if scaled - gainRealizationGuardNanodb < i64Min then .error .roundingOverflowed
    else walkDown arith maximumLinearGain (scaled - gainRealizationGuardNanodb)

/-- `validate_terminal_bound` (dsd_album_gain.rs:251). -/
def validateTerminalBound (bound : AlbumTerminalBound) : Except GainError Unit :=
  if bound.preGainReconstructedErrorLinear = ⊤ ∨ bound.postGainReconstructedErrorLinear = ⊤ ∨ bound.storedSampleErrorLinear = some ⊤ then
    .error .terminalBoundInvalid
  else .ok ()

/-- `merge_terminal_bounds` (dsd_album_gain.rs:265). -/
def mergeTerminalBounds (left right : AlbumTerminalBound) : AlbumTerminalBound where
  preGainReconstructedErrorLinear := max left.preGainReconstructedErrorLinear right.preGainReconstructedErrorLinear
  storedSampleErrorLinear :=
    match left.storedSampleErrorLinear, right.storedSampleErrorLinear with
    | some left, some right => some (max left right)
    | _, _ => none
  postGainReconstructedErrorLinear := max left.postGainReconstructedErrorLinear right.postGainReconstructedErrorLinear
  domain := if left.domain = right.domain then left.domain else .mixedPcm

/-- What the loop over the participants has found. -/
structure Constraints where
  loudestPeakDbfs : Option DbNano
  loudestSignalUpperLinear : ℝ≥0∞
  permittedLinearGain : Option ℝ≥0∞
  aggregateTerminalBound : Option AlbumTerminalBound

/-- A participant (dsd_album_gain.rs:153-204). -/
def addParticipant (targetDbfs : DbNano) (ceilingLinear : ℝ≥0∞) (constraints : Constraints)
    (participant : AlbumPeakMeasurement × AlbumTerminalBound) : Except GainError Constraints := do
  let (measurement, terminalBound) := participant
  validateTerminalBound terminalBound
  if ceilingLinear ≤ terminalBound.postGainReconstructedErrorLinear then
    .error (.noRoomBeneathCeiling terminalBound.postGainReconstructedErrorLinear targetDbfs)
  else
    let constraints := { constraints with
      aggregateTerminalBound := some (match constraints.aggregateTerminalBound with
        | none => terminalBound
        | some current => mergeTerminalBounds current terminalBound) }
    match measurement with
    | .silence => return constraints
    | .finite pointDb signalUpperLinear =>
      if signalUpperLinear = ⊤ ∨ signalUpperLinear = 0 then .error .signalBoundInvalid
      else
        let numerator := arith.subDown ceilingLinear terminalBound.postGainReconstructedErrorLinear
        if numerator = 0 then .error .numeratorNotPositive
        else
          let effectiveSignalUpper := arith.addUp signalUpperLinear terminalBound.preGainReconstructedErrorLinear
          let participantGain := arith.divDown numerator effectiveSignalUpper
          if participantGain = 0 ∨ participantGain = ⊤ then .error .linearGainInvalid
          else return { constraints with
            loudestPeakDbfs := some ((constraints.loudestPeakDbfs.map fun current => max current pointDb).getD pointDb)
            loudestSignalUpperLinear := max constraints.loudestSignalUpperLinear signalUpperLinear
            permittedLinearGain := some ((constraints.permittedLinearGain.map fun current => min current participantGain).getD participantGain) }

/-- The gain that is permitted (dsd_album_gain.rs:208-214). -/
def permittedGain (seed : ℝ≥0∞ → Option ℤ) : Option ℝ≥0∞ → Except GainError (ℝ≥0∞ × DbNano)
  | none => .ok (1, 0)
  | some maximumLinearGain => do
    let gainDb ← linearGainToDbNanoDown arith seed maximumLinearGain
    return (maximumLinearGain, gainDb)

/-- `resolve_album_gain_constraints` (dsd_album_gain.rs:133). The bound of an empty list, which is refused, is never asked for. -/
def resolveAlbumGainConstraints (seed : ℝ≥0∞ → Option ℤ) (targetDbfs : DbNano) (participants : List (AlbumPeakMeasurement × AlbumTerminalBound)) :
    Except GainError AlbumGainAuthority :=
  if participants.isEmpty then .error .noTrack
  else if ¬ (minNormalizeTarget ≤ targetDbfs ∧ targetDbfs ≤ maxNormalizeTarget) then .error .targetOutOfRange
  else do
    let (ceilingLinear, _) ← dbNanoToLinearInterval arith targetDbfs
    let constraints ← participants.foldlM (addParticipant arith targetDbfs ceilingLinear) ⟨none, 0, none, none⟩
    let (maximumLinearGain, gainDb) ← permittedGain arith seed constraints.permittedLinearGain
    match constraints.aggregateTerminalBound with
    | none => .error .noTrack
    | some terminalBound =>
      return {
        targetDbfs, loudestPeakDbfs := constraints.loudestPeakDbfs, loudestSignalUpperLinear := constraints.loudestSignalUpperLinear
        terminalBound, maximumLinearGain, gainDb, trackCount := participants.length }

/-- `resolve_true_peak_gain_constraints` (dsd_album_gain.rs:230). -/
def resolveTruePeakGainConstraints (seed : ℝ≥0∞ → Option ℤ) (targetDbtp : DbNano)
    (participants : List (AlbumPeakMeasurement × AlbumTerminalBound)) (allowBoost : Bool) : Except GainError AlbumGainAuthority :=
  match resolveAlbumGainConstraints arith seed targetDbtp participants with
  | .error error => .error (.pcm error)
  | .ok authority =>
    if !allowBoost && 0 < authority.gainDb then .ok { authority with maximumLinearGain := 1, gainDb := 0 } else .ok authority

end

end Gain
