import Tonepoet.Gain.DirectedExponential

/-!
# The shared gain keeps every track under the ceiling

The loop over the participants keeps a gain that is not above what any of them permits, and the gain in nanodecibels is not above it.
-/

namespace Gain

open scoped ENNReal
open DirectedRounding Rust

variable {arith : Arithmetic} {seed : ℝ≥0∞ → Option ℤ} {targetDbfs : DbNano} {participants : List (AlbumPeakMeasurement × AlbumTerminalBound)}
  {authority : AlbumGainAuthority}

/-- The amplitude as a machine number would hold it without rounding. -/
noncomputable def linearGain (db : DbNano) : ℝ≥0∞ := ENNReal.ofReal (amplitude db)

theorem toReal_linearGain (db : DbNano) : (linearGain db).toReal = amplitude db := ENNReal.toReal_ofReal (amplitude_pos db).le

/-- A gain keeps a participant under a ceiling. -/
def UnderCeiling (gain ceiling : ℝ≥0∞) (participant : AlbumPeakMeasurement × AlbumTerminalBound) : Prop :=
  match participant.1 with
  | .silence => True
  | .finite _ signalUpperLinear =>
    gain * (signalUpperLinear + participant.2.preGainReconstructedErrorLinear) + participant.2.postGainReconstructedErrorLinear ≤ ceiling

theorem UnderCeiling.mono {gain gain' ceiling ceiling' : ℝ≥0∞} {participant : AlbumPeakMeasurement × AlbumTerminalBound}
    (h : UnderCeiling gain ceiling participant) (hgain : gain' ≤ gain) (hceiling : ceiling ≤ ceiling') :
    UnderCeiling gain' ceiling' participant := by
  rw [UnderCeiling] at h ⊢
  split
  · trivial
  · rename_i hfinite
    rw [hfinite] at h
    exact (add_le_add (mul_le_mul' hgain le_rfl) le_rfl).trans (h.trans hceiling)

/-- What the loop keeps: a permitted gain has every participant so far under the ceiling, and without one all were silent. -/
def Kept (ceiling : ℝ≥0∞) (done : List (AlbumPeakMeasurement × AlbumTerminalBound)) (constraints : Constraints) : Prop :=
  ∀ gain, (∀ permitted ∈ constraints.permittedLinearGain, gain ≤ permitted) → ∀ participant ∈ done, UnderCeiling gain ceiling participant

/-- **A participant's constraint** holds for every gain that is permitted after it. -/
theorem Kept.step {ceiling : ℝ≥0∞} {done : List (AlbumPeakMeasurement × AlbumTerminalBound)} {constraints constraints' : Constraints}
    {participant : AlbumPeakMeasurement × AlbumTerminalBound} (h : Kept ceiling done constraints)
    (hstep : addParticipant arith targetDbfs ceiling constraints participant = .ok constraints') :
    Kept ceiling (done ++ [participant]) constraints' := by
  obtain ⟨measurement, bound⟩ := participant
  obtain ⟨⟨⟩, -, hstep⟩ := bind_eq_ok.1 hstep
  rw [error_if_eq_ok, not_le] at hstep
  obtain ⟨hroom, hstep⟩ := hstep
  intro gain hgain participant hmem
  cases measurement with
  | silence =>
    cases hstep
    rcases List.mem_append.1 hmem with hmem | hmem
    · exact h gain hgain participant hmem
    · rw [List.mem_singleton.1 hmem]
      trivial
  | finite pointDb signalUpperLinear =>
    simp only [error_if_eq_ok] at hstep
    obtain ⟨-, -, -, ⟨⟩⟩ := hstep
    have hpermitted := hgain _ rfl
    have hbound : gain ≤ arith.divDown (arith.subDown ceiling bound.postGainReconstructedErrorLinear)
        (arith.addUp signalUpperLinear bound.preGainReconstructedErrorLinear) := by
      cases hprevious : constraints.permittedLinearGain with
      | none =>
        rw [hprevious] at hpermitted
        exact hpermitted
      | some previous =>
        rw [hprevious] at hpermitted
        exact hpermitted.trans (min_le_right _ _)
    rcases List.mem_append.1 hmem with hmem | hmem
    · refine h gain (fun previous hprevious => ?_) participant hmem
      rw [Option.mem_def.1 hprevious] at hpermitted
      exact hpermitted.trans (min_le_left _ _)
    · rw [List.mem_singleton.1 hmem]
      change gain * (signalUpperLinear + bound.preGainReconstructedErrorLinear) + bound.postGainReconstructedErrorLinear ≤ ceiling
      have hproduct : gain * (signalUpperLinear + bound.preGainReconstructedErrorLinear) ≤ ceiling - bound.postGainReconstructedErrorLinear := by
        refine ENNReal.mul_le_of_le_div (hbound.trans ((arith.divDown_le _ _).trans ?_))
        exact ENNReal.div_le_div (arith.subDown_le _ _) (arith.le_addUp _ _)
      calc _ ≤ ceiling - bound.postGainReconstructedErrorLinear + bound.postGainReconstructedErrorLinear := add_le_add hproduct le_rfl
        _ = ceiling := tsub_add_cancel_of_le hroom.le

/-- **The constraints of all participants.** -/
theorem Kept.run {ceiling : ℝ≥0∞} {done todo : List (AlbumPeakMeasurement × AlbumTerminalBound)} {constraints constraints' : Constraints}
    (h : Kept ceiling done constraints) (hrun : todo.foldlM (addParticipant arith targetDbfs ceiling) constraints = .ok constraints') :
    Kept ceiling (done ++ todo) constraints' := by
  induction todo generalizing done constraints with
  | nil =>
    cases hrun
    rwa [List.append_nil]
  | cons participant todo ih =>
    rw [List.foldlM_cons] at hrun
    obtain ⟨next, hnext, hrun⟩ := bind_eq_ok.1 hrun
    rw [List.append_cons]
    exact ih (h.step hnext) hrun

/-- **The walk down ends at a gain whose amplitude is not above the permitted one**, wherever it began. -/
theorem walkDown_spec {maximum : ℝ≥0∞} {nano gainDb : ℤ} (h : walkDown arith maximum nano = .ok gainDb) : linearGain gainDb ≤ maximum := by
  fun_induction walkDown arith maximum nano with
  | case1 => cases h
  | case2 nano lower upper hinterval hle =>
    cases h
    exact (dbNanoToLinearInterval_spec hinterval).le_upper.trans hle
  | case3 => cases h
  | case4 nano lower upper hinterval hgt hmin ih => exact ih h

theorem permittedGain_spec {permitted : Option ℝ≥0∞} {maximum : ℝ≥0∞} {gainDb : DbNano}
    (h : permittedGain arith seed permitted = .ok (maximum, gainDb)) : linearGain gainDb ≤ maximum ∧ ∀ gain ∈ permitted, gain = maximum := by
  cases permitted with
  | none =>
    cases h
    refine ⟨?_, nofun⟩
    rw [linearGain, amplitude]
    norm_num
  | some gain =>
    obtain ⟨db, hdb, h⟩ := bind_eq_ok.1 h
    cases h
    refine ⟨?_, fun _ hmem => (Option.some.inj hmem).symm⟩
    rw [linearGainToDbNanoDown] at hdb
    split at hdb
    · cases hdb
    · rw [error_if_eq_ok] at hdb
      exact walkDown_spec hdb.2

theorem resolveAlbumGainConstraints_spec (h : resolveAlbumGainConstraints arith seed targetDbfs participants = .ok authority) :
    ∀ gain ≤ linearGain authority.gainDb, ∀ participant ∈ participants, UnderCeiling gain (linearGain targetDbfs) participant := by
  rw [resolveAlbumGainConstraints, error_if_eq_ok, error_if_eq_ok] at h
  obtain ⟨-, -, h⟩ := h
  obtain ⟨⟨ceiling, upper⟩, hceiling, h⟩ := bind_eq_ok.1 h
  obtain ⟨constraints, hconstraints, h⟩ := bind_eq_ok.1 h
  obtain ⟨⟨maximum, gainDb⟩, hgain, h⟩ := bind_eq_ok.1 h
  have hauthority : authority.gainDb = gainDb := by
    dsimp only at h
    split at h
    · cases h
    · cases h
      rfl
  have hnothing : Kept ceiling [] ⟨none, 0, none, none⟩ := fun _ _ _ hmem => absurd hmem List.not_mem_nil
  have hkept : Kept ceiling participants constraints := hnothing.run hconstraints
  obtain ⟨hdown, hmaximum⟩ := permittedGain_spec hgain
  intro gain hle participant hmem
  rw [hauthority] at hle
  refine (hkept gain (fun permitted hpermitted => ?_) participant hmem).mono le_rfl (dbNanoToLinearInterval_spec hceiling).lower_le
  rw [hmaximum permitted hpermitted]
  exact hle.trans hdown

/-- The inequality of the ceiling, in real numbers. -/
def BelowCeiling (targetDb gainDb : DbNano) (participant : AlbumPeakMeasurement × AlbumTerminalBound) : Prop :=
  ∀ pointDb signalUpperLinear, participant.1 = .finite pointDb signalUpperLinear →
    amplitude gainDb * (signalUpperLinear.toReal + participant.2.preGainReconstructedErrorLinear.toReal) +
      participant.2.postGainReconstructedErrorLinear.toReal ≤ amplitude targetDb

theorem UnderCeiling.belowCeiling {targetDb gainDb : DbNano} {participant : AlbumPeakMeasurement × AlbumTerminalBound}
    (h : UnderCeiling (linearGain gainDb) (linearGain targetDb) participant) : BelowCeiling targetDb gainDb participant := by
  intro pointDb signalUpperLinear hfinite
  rw [UnderCeiling, hfinite] at h
  dsimp only at h
  have hfits : linearGain gainDb * (signalUpperLinear + participant.2.preGainReconstructedErrorLinear) +
    participant.2.postGainReconstructedErrorLinear ≠ ⊤ := ne_top_of_le_ne_top ENNReal.ofReal_ne_top h
  obtain ⟨hproduct, hpost⟩ := ENNReal.add_ne_top.1 hfits
  have hgain : linearGain gainDb ≠ 0 := (ENNReal.ofReal_pos.2 (amplitude_pos gainDb)).ne'
  have hsum : signalUpperLinear + participant.2.preGainReconstructedErrorLinear ≠ ⊤ := by
    intro htop
    rw [htop, ENNReal.mul_top hgain] at hproduct
    exact hproduct rfl
  obtain ⟨hsignal, hpre⟩ := ENNReal.add_ne_top.1 hsum
  have hreal := ENNReal.toReal_mono ENNReal.ofReal_ne_top h
  rwa [ENNReal.toReal_add hproduct hpost, ENNReal.toReal_mul, ENNReal.toReal_add hsignal hpre, toReal_linearGain,
    ENNReal.toReal_ofReal (amplitude_pos targetDb).le] at hreal

theorem resolveTruePeakGainConstraints_spec {allowBoost : Bool}
    (h : resolveTruePeakGainConstraints arith seed targetDbfs participants allowBoost = .ok authority) :
    ∀ participant ∈ participants, UnderCeiling (linearGain authority.gainDb) (linearGain targetDbfs) participant := by
  rw [resolveTruePeakGainConstraints] at h
  split at h
  · cases h
  · rename_i resolved hresolved
    have hspec := resolveAlbumGainConstraints_spec hresolved
    split at h
    · rename_i hclamped
      cases h
      rw [Bool.and_eq_true, decide_eq_true_eq] at hclamped
      -- no gain is less than a boost
      refine hspec _ (ENNReal.ofReal_le_ofReal ?_)
      have hpositive : (0 : ℝ) ≤ resolved.gainDb := by exact_mod_cast hclamped.2.le
      rw [amplitude, amplitude]
      exact Real.rpow_le_rpow_of_exponent_le (by norm_num) (by push_cast; gcongr)
    · cases h
      exact hspec _ le_rfl

/-- **The shared gain keeps every track under the ceiling**, whatever the directed helpers give on their side of the exact results and whatever
the logarithm's seed is; and the interval of a gain encloses its amplitude. -/
theorem shared_gain_under_ceiling (arith : Arithmetic) (seed : ℝ≥0∞ → Option ℤ) (targetDbfs : DbNano)
    (participants : List (AlbumPeakMeasurement × AlbumTerminalBound)) :
    (∀ authority, resolveAlbumGainConstraints arith seed targetDbfs participants = .ok authority →
        ∀ participant ∈ participants, BelowCeiling targetDbfs authority.gainDb participant) ∧
      (∀ allowBoost authority, resolveTruePeakGainConstraints arith seed targetDbfs participants allowBoost = .ok authority →
        ∀ participant ∈ participants, BelowCeiling targetDbfs authority.gainDb participant) ∧
      ∀ db interval, dbNanoToLinearInterval arith db = .ok interval → Encloses interval.1 interval.2 (amplitude db) :=
  ⟨fun _ h participant hmem => (resolveAlbumGainConstraints_spec h _ le_rfl participant hmem).belowCeiling,
    fun _ _ h participant hmem => (resolveTruePeakGainConstraints_spec h participant hmem).belowCeiling,
    fun _ _ h => dbNanoToLinearInterval_spec h⟩

/-- A track at full scale without terminal errors. -/
noncomputable def fullScale : AlbumPeakMeasurement × AlbumTerminalBound := (.finite 0 1, ⟨0, none, 0, .lossyEncoderInputPcm⟩)

theorem resolve_fullScale : resolveAlbumGainConstraints exact (fun _ => some 16) 0 [fullScale] =
    .ok ⟨0, some 0, 1, fullScale.2, 1, 0, 1⟩ := by
  have hinterval : dbNanoToLinearInterval exact 0 = .ok (1, 1) := by
    rw [dbNanoToLinearInterval]
    rfl
  have hwalk : walkDown exact 1 0 = .ok 0 := by
    rw [walkDown]
    split
    · rename_i herror
      rw [hinterval] at herror
      cases herror
    · rename_i hok
      rw [hinterval] at hok
      cases hok
      exact if_pos le_rfl
  have hdown : linearGainToDbNanoDown exact (fun _ => some 16) 1 = .ok 0 := by
    rw [linearGainToDbNanoDown]
    dsimp only
    rw [if_neg (by decide)]
    exact hwalk
  have hparticipant : addParticipant exact 0 1 ⟨none, 0, none, none⟩ fullScale = .ok ⟨some 0, 1, some 1, some fullScale.2⟩ := by
    simp [addParticipant, fullScale, validateTerminalBound, exact]
  rw [resolveAlbumGainConstraints, if_neg (by simp), if_neg (by decide), hinterval]
  refine bind_eq_ok.2 ⟨_, rfl, bind_eq_ok.2 ⟨(⟨some 0, 1, some 1, some fullScale.2⟩ : Constraints), ?_, bind_eq_ok.2 ⟨(1, 0), ?_, rfl⟩⟩⟩
  · rw [List.foldlM_cons]
    exact bind_eq_ok.2 ⟨_, hparticipant, rfl⟩
  · exact bind_eq_ok.2 ⟨_, hdown, rfl⟩

theorem fullScale_under_ceiling : BelowCeiling 0 0 fullScale :=
  (shared_gain_under_ceiling exact (fun _ => some 16) 0 [fullScale]).1 _ resolve_fullScale fullScale List.mem_cons_self

end Gain
