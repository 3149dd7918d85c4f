import Tonepoet.Fingerprint.Values

/-!
# What the settings feed the hasher

`push_pipeline_settings` and its parts push one field for each setting they read, `dither_explicit` only when
it is set. Every group of fields is self-delimiting, and so are the settings: the fields give back every
setting that was read. Settings that no part reads are left out of the model.
-/

namespace Fingerprint

open Rust

/-! ## Groups of fields -/

structure FlacSettings where
  compressionLevel : UInt8
  verify : Bool
  writeMd5 : Bool

def pushFlac (s : FlacSettings) : List Field :=
  [field "flac.compression_level".toList (formatNat s.compressionLevel.toNat),
    field "flac.verify".toList (boolValue s.verify),
    field "flac.write_md5".toList (boolValue s.writeMd5)]

theorem pushFlac_selfDelimiting : SelfDelimiting pushFlac := by
  apply SelfDelimiting.of_length (n := 3)
  · rintro ⟨_, _, _⟩ ⟨_, _, _⟩ h
    simpa only [pushFlac, List.cons.injEq, field_inj, and_true, formatNat_inj, boolValue_inj, UInt8.toNat_inj, FlacSettings.mk.injEq] using h
  · intro s
    rfl

structure Mp3Settings where
  mode : Mp3Mode
  bitrateKbps : UInt32
  vbrQuality : UInt8

def pushMp3 (s : Mp3Settings) : List Field :=
  [field "mp3.mode".toList (mp3Mode s.mode),
    field "mp3.bitrate_kbps".toList (formatNat s.bitrateKbps.toNat),
    field "mp3.vbr_quality".toList (formatNat s.vbrQuality.toNat)]

theorem pushMp3_selfDelimiting : SelfDelimiting pushMp3 := by
  apply SelfDelimiting.of_length (n := 3)
  · rintro ⟨_, _, _⟩ ⟨_, _, _⟩ h
    simpa only [pushMp3, List.cons.injEq, field_inj, and_true, mp3Mode_injective.eq_iff, formatNat_inj, UInt32.toNat_inj,
      UInt8.toNat_inj, Mp3Settings.mk.injEq] using h
  · intro s
    rfl

structure AacSettings where
  profile : AacProfile
  bitrateKbps : UInt32

def pushAac (s : AacSettings) : List Field :=
  [field "aac.profile".toList (aacProfile s.profile),
    field "aac.bitrate_kbps".toList (formatNat s.bitrateKbps.toNat)]

theorem pushAac_selfDelimiting : SelfDelimiting pushAac := by
  apply SelfDelimiting.of_length (n := 2)
  · rintro ⟨_, _⟩ ⟨_, _⟩ h
    simpa only [pushAac, List.cons.injEq, field_inj, and_true, aacProfile_injective.eq_iff, formatNat_inj, UInt32.toNat_inj,
      AacSettings.mk.injEq] using h
  · intro s
    rfl

structure OpusSettings where
  contentType : OpusContentType
  bitrateKbps : UInt32
  complexity : UInt8

def pushOpus (s : OpusSettings) : List Field :=
  [field "opus.content_type".toList (opusContentType s.contentType),
    field "opus.bitrate_kbps".toList (formatNat s.bitrateKbps.toNat),
    field "opus.complexity".toList (formatNat s.complexity.toNat)]

theorem pushOpus_selfDelimiting : SelfDelimiting pushOpus := by
  apply SelfDelimiting.of_length (n := 3)
  · rintro ⟨_, _, _⟩ ⟨_, _, _⟩ h
    simpa only [pushOpus, List.cons.injEq, field_inj, and_true, opusContentType_injective.eq_iff, formatNat_inj,
      UInt32.toNat_inj, UInt8.toNat_inj, OpusSettings.mk.injEq] using h
  · intro s
    rfl

structure WavPackSettings where
  mode : WavPackMode
  hybrid : Bool
  hybridBitrateKbps : UInt32
  correctionFile : Bool

def pushWavpack (s : WavPackSettings) : List Field :=
  [field "wavpack.mode".toList (wavpackMode s.mode),
    field "wavpack.hybrid".toList (boolValue s.hybrid),
    field "wavpack.hybrid_bitrate_kbps".toList (formatNat s.hybridBitrateKbps.toNat),
    field "wavpack.correction_file".toList (boolValue s.correctionFile)]

theorem pushWavpack_selfDelimiting : SelfDelimiting pushWavpack := by
  apply SelfDelimiting.of_length (n := 4)
  · rintro ⟨_, _, _, _⟩ ⟨_, _, _, _⟩ h
    simpa only [pushWavpack, List.cons.injEq, field_inj, and_true, wavpackMode_injective.eq_iff, boolValue_inj, formatNat_inj,
      UInt32.toNat_inj, WavPackSettings.mk.injEq] using h
  · intro s
    rfl

structure SsrcSettings where
  force : Bool
  insaneMode : Bool
  profile : Option SsrcProfile
  attenuationDb : Option F32
  minPhase : Bool
  ditherId : Option UInt8
  pdfType : Option SsrcPdfType

def pushSsrc (s : SsrcSettings) : List Field :=
  [field "ssrc.force".toList (boolValue s.force),
    field "ssrc.insane_mode".toList (boolValue s.insaneMode),
    field "ssrc.profile".toList (optionStatic (s.profile.map ssrcProfile)),
    field "ssrc.attenuation_db".toList (optionF32 s.attenuationDb),
    field "ssrc.min_phase".toList (boolValue s.minPhase),
    field "ssrc.dither_id".toList (optionU8 s.ditherId),
    field "ssrc.pdf_type".toList (optionStatic (s.pdfType.map ssrcPdfType))]

theorem pushSsrc_selfDelimiting : SelfDelimiting pushSsrc := by
  apply SelfDelimiting.of_length (n := 7)
  · rintro ⟨_, _, _, _, _, _, _⟩ ⟨_, _, _, _, _, _, _⟩ h
    simpa only [pushSsrc, List.cons.injEq, field_inj, and_true, boolValue_inj, optionStatic_map_inj ssrcProfile_injective,
      optionStatic_map_inj ssrcPdfType_injective, optionF32_inj, optionU8_inj, SsrcSettings.mk.injEq] using h
  · intro s
    rfl

structure SoxResamplerSettings where
  chebyshev : Bool
  bandwidthPct : Option F32
  phase : Option UInt8
  allowAliasing : Bool
  sincTaps : Option UInt32
  sincAttenuationDb : Option UInt16
  sincPassbandHz : Option F32
  sincTransitionHz : Option F32
  sincKaiserBeta : Option F32
  sincPhase : Option SoxSincPhase

def pushSoxResampler (s : SoxResamplerSettings) : List Field :=
  [field "sox_resampler.chebyshev".toList (boolValue s.chebyshev),
    field "sox_resampler.bandwidth_pct".toList (optionF32 s.bandwidthPct),
    field "sox_resampler.phase".toList (optionU8 s.phase),
    field "sox_resampler.allow_aliasing".toList (boolValue s.allowAliasing),
    field "sox_resampler.sinc_taps".toList (optionNumber (s.sincTaps.map UInt32.toNat)),
    field "sox_resampler.sinc_attenuation_db".toList (optionNumber (s.sincAttenuationDb.map UInt16.toNat)),
    field "sox_resampler.sinc_passband_hz".toList (optionF32 s.sincPassbandHz),
    field "sox_resampler.sinc_transition_hz".toList (optionF32 s.sincTransitionHz),
    field "sox_resampler.sinc_kaiser_beta".toList (optionF32 s.sincKaiserBeta),
    field "sox_resampler.sinc_phase".toList (soxSincPhase s.sincPhase)]

theorem pushSoxResampler_selfDelimiting : SelfDelimiting pushSoxResampler := by
  apply SelfDelimiting.of_length (n := 10)
  · rintro ⟨_, _, _, _, _, _, _, _, _, _⟩ ⟨_, _, _, _, _, _, _, _, _, _⟩ h
    simpa only [pushSoxResampler, List.cons.injEq, field_inj, and_true, boolValue_inj, optionF32_inj, optionU8_inj,
      optionNumber_map_inj (fun _ _ => UInt32.toNat_inj.1), optionNumber_map_inj (fun _ _ => UInt16.toNat_inj.1),
      soxSincPhase_injective.eq_iff, SoxResamplerSettings.mk.injEq] using h
  · intro s
    rfl

structure SoxrResamplerSettings where
  chebyshev : Bool
  cutoff : Option F32
  phase : Option UInt8

def pushSoxrResampler (s : SoxrResamplerSettings) : List Field :=
  [field "soxr_resampler.chebyshev".toList (boolValue s.chebyshev),
    field "soxr_resampler.cutoff".toList (optionF32 s.cutoff),
    field "soxr_resampler.phase".toList (optionU8 s.phase)]

theorem pushSoxrResampler_selfDelimiting : SelfDelimiting pushSoxrResampler := by
  apply SelfDelimiting.of_length (n := 3)
  · rintro ⟨_, _, _⟩ ⟨_, _, _⟩ h
    simpa only [pushSoxrResampler, List.cons.injEq, field_inj, and_true, boolValue_inj, optionF32_inj, optionU8_inj,
      SoxrResamplerSettings.mk.injEq] using h
  · intro s
    rfl

inductive SampleGainPolicy
  | off
  | truePeakGuard (targetDbtp : DbNano) (scope : TruePeakScope) (scan : TruePeakScanTier)
  | truePeakNormalize (targetDbtp : DbNano) (scope : TruePeakScope) (scan : TruePeakScanTier)
  | fixedGain (gainDb : DbNano)

def pushSampleGainPolicy (base : PathPrefix) : SampleGainPolicy → List Field
  | .off =>
    [base.field ".mode".toList "off".toList,
      base.field ".target_dbtp".toList "None".toList,
      base.field ".scope".toList "None".toList,
      base.field ".scan".toList "None".toList,
      base.field ".gain_db".toList "None".toList]
  | .truePeakGuard targetDbtp scope scan =>
    [base.field ".mode".toList "true_peak_guard".toList,
      base.field ".target_dbtp".toList (targetDbtp.render false),
      base.field ".scope".toList (truePeakScope scope),
      base.field ".scan".toList (truePeakScan scan),
      base.field ".gain_db".toList "None".toList]
  | .truePeakNormalize targetDbtp scope scan =>
    [base.field ".mode".toList "true_peak_normalize".toList,
      base.field ".target_dbtp".toList (targetDbtp.render false),
      base.field ".scope".toList (truePeakScope scope),
      base.field ".scan".toList (truePeakScan scan),
      base.field ".gain_db".toList "None".toList]
  | .fixedGain gainDb =>
    [base.field ".mode".toList "fixed_gain".toList,
      base.field ".target_dbtp".toList "None".toList,
      base.field ".scope".toList "None".toList,
      base.field ".scan".toList "None".toList,
      base.field ".gain_db".toList (gainDb.render false)]

theorem pushSampleGainPolicy_selfDelimiting (base : PathPrefix) : SelfDelimiting (pushSampleGainPolicy base) := by
  apply SelfDelimiting.of_length (n := 5)
  · intro a b h
    cases a <;> cases b <;> first
      | rfl
      | exact absurd (PathPrefix.field_inj.1 (List.cons.inj h).1) (by decide)
      | simpa only [pushSampleGainPolicy, List.cons.injEq, PathPrefix.field_inj, true_and, and_true, DbNano.render_inj,
          truePeakScope_injective.eq_iff, truePeakScan_injective.eq_iff, SampleGainPolicy.truePeakGuard.injEq,
          SampleGainPolicy.truePeakNormalize.injEq, SampleGainPolicy.fixedGain.injEq] using h
  · intro a
    cases a <;> rfl

structure PcmTruePeakGainSettings where
  policy : SampleGainPolicy
  runtimeAlbumGainDb : Option DbNano

def pushPcmTruePeak (s : PcmTruePeakGainSettings) : List Field :=
  pushSampleGainPolicy ⟨"pcm_true_peak.policy".toList, by decide⟩ s.policy ++
    [field "pcm_true_peak.runtime_album_gain_db".toList (optionDbNano s.runtimeAlbumGainDb)]

theorem pushPcmTruePeak_selfDelimiting : SelfDelimiting pushPcmTruePeak := by
  rintro ⟨policy, gain⟩ ⟨policy', gain'⟩ r s h
  simp only [pushPcmTruePeak, List.append_assoc, List.singleton_append] at h
  obtain ⟨rfl, hgain⟩ := pushSampleGainPolicy_selfDelimiting _ h
  simp only [List.cons.injEq, field_inj, optionDbNano_inj] at hgain
  obtain ⟨rfl, hrest⟩ := hgain
  exact ⟨rfl, hrest⟩

/-- `PcmToDsdSincSettings`, also known as `SincFilterSettings`. -/
structure SincFilterSettings where
  oversampleFactor : UInt32
  taps : UInt32
  passbandHz : F32
  transitionHz : F32
  kaiserBeta : F32
  linearPhase : Bool
  allowAliasing : Bool

def pushSinc (s : SincFilterSettings) : List Field :=
  [field "dsd.pcm_to_dsd.sinc.oversample_factor".toList (formatNat s.oversampleFactor.toNat),
    field "dsd.pcm_to_dsd.sinc.taps".toList (formatNat s.taps.toNat),
    field "dsd.pcm_to_dsd.sinc.passband_hz".toList (f32Value s.passbandHz),
    field "dsd.pcm_to_dsd.sinc.transition_hz".toList (f32Value s.transitionHz),
    field "dsd.pcm_to_dsd.sinc.kaiser_beta".toList (f32Value s.kaiserBeta),
    field "dsd.pcm_to_dsd.sinc.linear_phase".toList (boolValue s.linearPhase),
    field "dsd.pcm_to_dsd.sinc.allow_aliasing".toList (boolValue s.allowAliasing)]

theorem pushSinc_selfDelimiting : SelfDelimiting pushSinc := by
  apply SelfDelimiting.of_length (n := 7)
  · rintro ⟨_, _, _, _, _, _, _⟩ ⟨_, _, _, _, _, _, _⟩ h
    simpa only [pushSinc, List.cons.injEq, field_inj, and_true, formatNat_inj, UInt32.toNat_inj, f32Value_inj, boolValue_inj,
      SincFilterSettings.mk.injEq] using h
  · intro s
    rfl

structure DsdToPcmSincSettings where
  taps : UInt32
  passbandHz : F32
  transitionHz : F32
  kaiserBeta : F32
  linearPhase : Bool
  allowAliasing : Bool

def pushDsdToPcmSinc (s : DsdToPcmSincSettings) : List Field :=
  [field "dsd.general_from_dsd.sinc.taps".toList (formatNat s.taps.toNat),
    field "dsd.general_from_dsd.sinc.passband_hz".toList (f32Value s.passbandHz),
    field "dsd.general_from_dsd.sinc.transition_hz".toList (f32Value s.transitionHz),
    field "dsd.general_from_dsd.sinc.kaiser_beta".toList (f32Value s.kaiserBeta),
    field "dsd.general_from_dsd.sinc.linear_phase".toList (boolValue s.linearPhase),
    field "dsd.general_from_dsd.sinc.allow_aliasing".toList (boolValue s.allowAliasing)]

theorem pushDsdToPcmSinc_selfDelimiting : SelfDelimiting pushDsdToPcmSinc := by
  apply SelfDelimiting.of_length (n := 6)
  · rintro ⟨_, _, _, _, _, _⟩ ⟨_, _, _, _, _, _⟩ h
    simpa only [pushDsdToPcmSinc, List.cons.injEq, field_inj, and_true, formatNat_inj, UInt32.toNat_inj, f32Value_inj,
      boolValue_inj, DsdToPcmSincSettings.mk.injEq] using h
  · intro s
    rfl

/-! ## The DSD settings -/

structure TrellisSettings where
  lookahead : UInt8
  nodes : UInt8
  latency : Option UInt16

def optionTrellis : Option TrellisSettings → Str
  | some _ => "Some".toList
  | none => "None".toList

def pushTrellis (trellis : Option TrellisSettings) : List Field :=
  field "dsd.pcm_to_dsd.trellis".toList (optionTrellis trellis) ::
    match trellis with
    | some trellis =>
      [field "dsd.pcm_to_dsd.trellis.lookahead".toList (formatNat trellis.lookahead.toNat),
        field "dsd.pcm_to_dsd.trellis.nodes".toList (formatNat trellis.nodes.toNat),
        field "dsd.pcm_to_dsd.trellis.latency".toList (optionU16 trellis.latency)]
    | none =>
      [field "dsd.pcm_to_dsd.trellis.lookahead".toList "None".toList,
        field "dsd.pcm_to_dsd.trellis.nodes".toList "None".toList,
        field "dsd.pcm_to_dsd.trellis.latency".toList "None".toList]

theorem pushTrellis_selfDelimiting : SelfDelimiting pushTrellis := by
  apply SelfDelimiting.of_length (n := 4)
  · rintro (_ | ⟨_, _, _⟩) (_ | ⟨_, _, _⟩) h
    · rfl
    · exact absurd (field_inj.1 (List.cons.inj h).1) (ne_of_letter 0 rfl rfl (by decide))
    · exact absurd (field_inj.1 (List.cons.inj h).1) (ne_of_letter 0 rfl rfl (by decide))
    · simpa only [pushTrellis, optionTrellis, List.cons.injEq, field_inj, true_and, and_true, formatNat_inj, UInt8.toNat_inj,
        optionU16_inj, Option.some.injEq, TrellisSettings.mk.injEq] using h
  · rintro (_ | _) <;> rfl

structure PcmToDsdSettings where
  noiseShaper : DsdNoiseShaper
  modulatorOrder : ModulatorOrder
  trellis : Option TrellisSettings
  filter : DsdFilterPreset
  sinc : SincFilterSettings
  gainCompensation : GainCompensation

structure DsdSourceSettings where
  pathway : DsdSourcePathway
  referencePolicy : DsdReferencePolicyVersion
  profile : DsdReconstructionSelection
  gain : SampleGainPolicy

inductive DsdGeneralExportLevel
  | native
  | nominalCompensated
  | protectedR64
  | nativeWithOffset (offsetDb : DbNano)

structure DsdToPcmSettings where
  reconstruction : DsdGeneralReconstruction
  lowpass : DsdLowpassMethod
  sinc : DsdToPcmSincSettings
  exportLevel : DsdGeneralExportLevel
  gain : SampleGainPolicy

structure DsdSettings where
  pcmToDsd : PcmToDsdSettings
  fromDsd : DsdSourceSettings
  generalFromDsd : DsdToPcmSettings
  runtimeAlbumGainDb : Option DbNano

def pushExportLevel : DsdGeneralExportLevel → List Field
  | .native =>
    [field "dsd.general_from_dsd.export_level".toList "native".toList,
      field "dsd.general_from_dsd.export_offset_db".toList "None".toList]
  | .nominalCompensated =>
    [field "dsd.general_from_dsd.export_level".toList "nominal_compensated".toList,
      field "dsd.general_from_dsd.export_offset_db".toList "None".toList]
  | .protectedR64 =>
    [field "dsd.general_from_dsd.export_level".toList "protected_r64".toList,
      field "dsd.general_from_dsd.export_offset_db".toList "None".toList]
  | .nativeWithOffset offsetDb =>
    [field "dsd.general_from_dsd.export_level".toList "native_with_offset".toList,
      field "dsd.general_from_dsd.export_offset_db".toList (offsetDb.render false)]

theorem pushExportLevel_selfDelimiting : SelfDelimiting pushExportLevel := by
  apply SelfDelimiting.of_length (n := 2)
  · rintro (_ | _ | _ | _) (_ | _ | _ | _) h <;> first
      | rfl
      | exact absurd (field_inj.1 (List.cons.inj h).1) (by decide)
      | simpa only [pushExportLevel, List.cons.injEq, field_inj, true_and, and_true, DbNano.render_inj,
          DsdGeneralExportLevel.nativeWithOffset.injEq] using h
  · rintro (_ | _ | _ | _) <;> rfl

/-- The part of `push_dsd` that reads `pcm_to_dsd`. -/
def pushPcmToDsd (s : PcmToDsdSettings) : List Field :=
  field "dsd.pcm_to_dsd.noise_shaper".toList (dsdNoiseShaper s.noiseShaper) ::
    field "dsd.pcm_to_dsd.modulator_order".toList (modulatorOrder s.modulatorOrder) ::
      (pushTrellis s.trellis ++
        field "dsd.pcm_to_dsd.filter".toList (dsdFilterPreset s.filter) ::
          (pushSinc s.sinc ++ [field "dsd.pcm_to_dsd.gain_compensation".toList (gainCompensation s.gainCompensation)]))

theorem pushPcmToDsd_selfDelimiting : SelfDelimiting pushPcmToDsd := by
  rintro ⟨_, _, _, _, _, _⟩ ⟨_, _, _, _, _, _⟩ r s h
  simp only [pushPcmToDsd, List.cons_append, List.append_assoc, List.nil_append, List.cons.injEq, field_inj,
    dsdNoiseShaper_injective.eq_iff, modulatorOrder_injective.eq_iff] at h
  obtain ⟨rfl, rfl, htrellis⟩ := h
  obtain ⟨rfl, hfilter⟩ := pushTrellis_selfDelimiting htrellis
  simp only [List.cons.injEq, field_inj, dsdFilterPreset_injective.eq_iff] at hfilter
  obtain ⟨rfl, hsinc⟩ := hfilter
  obtain ⟨rfl, hgain⟩ := pushSinc_selfDelimiting hsinc
  simp only [List.cons.injEq, field_inj, gainCompensation_injective.eq_iff] at hgain
  obtain ⟨rfl, hrest⟩ := hgain
  exact ⟨rfl, hrest⟩

/-- The part of `push_dsd` that reads `from_dsd`. -/
def pushFromDsd (s : DsdSourceSettings) : List Field :=
  field "dsd.from_dsd.pathway".toList (dsdSourcePathway s.pathway) ::
    field "dsd.from_dsd.reference_policy".toList s.referencePolicy.key ::
      field "dsd.from_dsd.profile".toList (dsdReconstructionSelection s.profile) ::
        pushSampleGainPolicy ⟨"dsd.from_dsd.gain".toList, by decide⟩ s.gain

theorem pushFromDsd_selfDelimiting : SelfDelimiting pushFromDsd := by
  rintro ⟨_, _, _, _⟩ ⟨_, _, _, _⟩ r s h
  simp only [pushFromDsd, List.cons_append, List.cons.injEq, field_inj, dsdSourcePathway_injective.eq_iff,
    DsdReferencePolicyVersion.key_injective.eq_iff, dsdReconstructionSelection_injective.eq_iff] at h
  obtain ⟨rfl, rfl, rfl, hgain⟩ := h
  obtain ⟨rfl, hrest⟩ := pushSampleGainPolicy_selfDelimiting _ hgain
  exact ⟨rfl, hrest⟩

/-- The part of `push_dsd` that reads `general_from_dsd`. -/
def pushGeneralFromDsd (s : DsdToPcmSettings) : List Field :=
  field "dsd.general_from_dsd.reconstruction".toList (dsdGeneralReconstruction s.reconstruction) ::
    field "dsd.general_from_dsd.lowpass".toList (dsdLowpassMethod s.lowpass) ::
      (pushDsdToPcmSinc s.sinc ++ (pushExportLevel s.exportLevel ++
        pushSampleGainPolicy ⟨"dsd.general_from_dsd.gain".toList, by decide⟩ s.gain))

theorem pushGeneralFromDsd_selfDelimiting : SelfDelimiting pushGeneralFromDsd := by
  rintro ⟨_, _, _, _, _⟩ ⟨_, _, _, _, _⟩ r s h
  simp only [pushGeneralFromDsd, List.cons_append, List.append_assoc, List.cons.injEq, field_inj,
    dsdGeneralReconstruction_injective.eq_iff, dsdLowpassMethod_injective.eq_iff] at h
  obtain ⟨rfl, rfl, hsinc⟩ := h
  obtain ⟨rfl, hlevel⟩ := pushDsdToPcmSinc_selfDelimiting hsinc
  obtain ⟨rfl, hgain⟩ := pushExportLevel_selfDelimiting hlevel
  obtain ⟨rfl, hrest⟩ := pushSampleGainPolicy_selfDelimiting _ hgain
  exact ⟨rfl, hrest⟩

def pushDsd (s : DsdSettings) : List Field :=
  pushPcmToDsd s.pcmToDsd ++ (pushFromDsd s.fromDsd ++ (pushGeneralFromDsd s.generalFromDsd ++
    [field "dsd.runtime_album_gain_db".toList (optionDbNano s.runtimeAlbumGainDb)]))

theorem pushDsd_selfDelimiting : SelfDelimiting pushDsd := by
  rintro ⟨_, _, _, _⟩ ⟨_, _, _, _⟩ r s h
  simp only [pushDsd, List.append_assoc] at h
  obtain ⟨rfl, hfrom⟩ := pushPcmToDsd_selfDelimiting h
  obtain ⟨rfl, hgeneral⟩ := pushFromDsd_selfDelimiting hfrom
  obtain ⟨rfl, hgain⟩ := pushGeneralFromDsd_selfDelimiting hgeneral
  simp only [List.cons_append, List.nil_append, List.cons.injEq, field_inj, optionDbNano_inj] at hgain
  obtain ⟨rfl, hrest⟩ := hgain
  exact ⟨rfl, hrest⟩

/-! ## All settings -/

structure MetadataSettings where
  transferTags : Bool
  preserveArtwork : Bool
  storeSourceAudioMd5 : Bool

def pushMetadata (s : MetadataSettings) : List Field :=
  [field "metadata.transfer_tags".toList (boolValue s.transferTags),
    field "metadata.preserve_artwork".toList (boolValue s.preserveArtwork),
    field "metadata.store_source_audio_md5".toList (boolValue s.storeSourceAudioMd5)]

theorem pushMetadata_selfDelimiting : SelfDelimiting pushMetadata := by
  apply SelfDelimiting.of_length (n := 3)
  · rintro ⟨_, _, _⟩ ⟨_, _, _⟩ h
    simpa only [pushMetadata, List.cons.injEq, field_inj, and_true, boolValue_inj, MetadataSettings.mk.injEq] using h
  · intro s
    rfl

structure VerificationSettings where
  verifyAfterEncode : Bool
  preferNativeFlacVerify : Bool

def pushVerification (s : VerificationSettings) : List Field :=
  [field "verification.verify_after_encode".toList (boolValue s.verifyAfterEncode),
    field "verification.prefer_native_flac_verify".toList (boolValue s.preferNativeFlacVerify)]

theorem pushVerification_selfDelimiting : SelfDelimiting pushVerification := by
  apply SelfDelimiting.of_length (n := 2)
  · rintro ⟨_, _⟩ ⟨_, _⟩ h
    simpa only [pushVerification, List.cons.injEq, field_inj, and_true, boolValue_inj, VerificationSettings.mk.injEq] using h
  · intro s
    rfl

structure ReplayGainSettings where
  mode : Option ReplayGainMode
  preventClipping : Bool
  existingTags : ReplayGainExistingTagPolicy

def ReplayGainSettings.logicalMode (s : ReplayGainSettings) : Option ReplayGainMode := s.mode

def pushReplayGain (s : ReplayGainSettings) : List Field :=
  [field "replay_gain.mode".toList (optionStatic (s.logicalMode.map replayGainMode)),
    field "replay_gain.prevent_clipping".toList (boolValue s.preventClipping),
    field "replay_gain.existing_tags".toList (replayGainExistingTags s.existingTags)]

theorem pushReplayGain_selfDelimiting : SelfDelimiting pushReplayGain := by
  apply SelfDelimiting.of_length (n := 3)
  · rintro ⟨_, _, _⟩ ⟨_, _, _⟩ h
    simpa only [pushReplayGain, ReplayGainSettings.logicalMode, List.cons.injEq, field_inj, and_true,
      optionStatic_map_inj replayGainMode_injective, boolValue_inj, replayGainExistingTags_injective.eq_iff,
      ReplayGainSettings.mk.injEq] using h
  · intro s
    rfl

structure PipelineSettings where
  targetFormat : AudioFormat
  targetSampleRate : RateTarget
  targetBitDepth : BitDepthTarget
  resampleQuality : ResampleQuality
  nyquistTransition : NyquistTransition
  ditherType : DitherType
  ditherExplicit : Bool
  preferredTool : PreferredTool
  forceEncode : Bool
  flac : FlacSettings
  mp3 : Mp3Settings
  aac : AacSettings
  opus : OpusSettings
  wavpack : WavPackSettings
  ssrc : SsrcSettings
  soxResampler : SoxResamplerSettings
  soxrResampler : SoxrResamplerSettings
  dsd : DsdSettings
  pcmTruePeak : PcmTruePeakGainSettings
  metadata : MetadataSettings
  verification : VerificationSettings
  replayGain : ReplayGainSettings

/-- The fields of the settings that `push_pipeline_settings` hands to its parts. -/
def pushParts (s : PipelineSettings) : List Field :=
  pushFlac s.flac ++ (pushMp3 s.mp3 ++ (pushAac s.aac ++ (pushOpus s.opus ++ (pushWavpack s.wavpack ++ (pushSsrc s.ssrc ++
    (pushSoxResampler s.soxResampler ++ (pushSoxrResampler s.soxrResampler ++ (pushDsd s.dsd ++
      (pushPcmTruePeak s.pcmTruePeak ++ (pushMetadata s.metadata ++ (pushVerification s.verification ++
        pushReplayGain s.replayGain)))))))))))

def pushPipelineSettings (s : PipelineSettings) : List Field :=
  [field "target_format".toList (audioFormat s.targetFormat),
    field "target_sample_rate".toList (rateTarget s.targetSampleRate),
    field "target_bit_depth".toList (bitDepthTarget s.targetBitDepth),
    field "resample_quality".toList (resampleQuality s.resampleQuality),
    field "nyquist_transition".toList (nyquistTransition s.nyquistTransition),
    field "dither_type".toList (ditherType s.ditherType)] ++
  (if s.ditherExplicit then [field "dither_explicit".toList "true".toList] else []) ++
  [field "preferred_tool".toList (preferredTool s.preferredTool),
    field "force_encode".toList (boolValue s.forceEncode)] ++
  pushParts s

/-- Whether the optional field is there is told by the path of the next field. -/
theorem dither_split {explicit explicit' : Bool} {f f' : Field} {r r' : List Field} (hpath : f.path = "preferred_tool".toList)
    (hpath' : f'.path = "preferred_tool".toList)
    (h : (if explicit then [field "dither_explicit".toList "true".toList] else []) ++ f :: r =
      (if explicit' then [field "dither_explicit".toList "true".toList] else []) ++ f' :: r') :
    explicit = explicit' ∧ f :: r = f' :: r' := by
  cases explicit with
  | false =>
    cases explicit' with
    | false => exact ⟨rfl, h⟩
    | true =>
      have hpaths := congrArg Field.path (List.cons.inj h).1
      exact absurd (hpath.symm.trans hpaths) (by decide)
  | true =>
    cases explicit' with
    | false =>
      have hpaths := congrArg Field.path (List.cons.inj h).1
      exact absurd (hpaths.trans hpath') (by decide)
    | true => exact ⟨rfl, List.append_cancel_left h⟩

/-- **The settings are in the fields**: different settings push different fields, whatever is pushed after them. -/
theorem pushPipelineSettings_selfDelimiting : SelfDelimiting pushPipelineSettings := by
  rintro ⟨_, _, _, _, _, _, _, _, _, _, _, _, _, _, _, _, _, _, _, _, _, _⟩
    ⟨_, _, _, _, _, _, _, _, _, _, _, _, _, _, _, _, _, _, _, _, _, _⟩ r s h
  simp only [pushPipelineSettings, pushParts, List.append_assoc, List.cons_append, List.nil_append, List.cons.injEq, field_inj,
    audioFormat_injective.eq_iff, rateTarget_injective.eq_iff, bitDepthTarget_injective.eq_iff,
    resampleQuality_injective.eq_iff, nyquistTransition_injective.eq_iff, ditherType_injective.eq_iff] at h
  obtain ⟨rfl, rfl, rfl, rfl, rfl, rfl, hdither⟩ := h
  obtain ⟨rfl, htool⟩ := dither_split rfl rfl hdither
  simp only [List.cons.injEq, field_inj, preferredTool_injective.eq_iff, boolValue_inj] at htool
  obtain ⟨rfl, rfl, hflac⟩ := htool
  obtain ⟨rfl, hmp3⟩ := pushFlac_selfDelimiting hflac
  obtain ⟨rfl, haac⟩ := pushMp3_selfDelimiting hmp3
  obtain ⟨rfl, hopus⟩ := pushAac_selfDelimiting haac
  obtain ⟨rfl, hwavpack⟩ := pushOpus_selfDelimiting hopus
  obtain ⟨rfl, hssrc⟩ := pushWavpack_selfDelimiting hwavpack
  obtain ⟨rfl, hsox⟩ := pushSsrc_selfDelimiting hssrc
  obtain ⟨rfl, hsoxr⟩ := pushSoxResampler_selfDelimiting hsox
  obtain ⟨rfl, hdsd⟩ := pushSoxrResampler_selfDelimiting hsoxr
  obtain ⟨rfl, hpeak⟩ := pushDsd_selfDelimiting hdsd
  obtain ⟨rfl, hmetadata⟩ := pushPcmTruePeak_selfDelimiting hpeak
  obtain ⟨rfl, hverification⟩ := pushMetadata_selfDelimiting hmetadata
  obtain ⟨rfl, hreplay⟩ := pushVerification_selfDelimiting hverification
  obtain ⟨rfl, hrest⟩ := pushReplayGain_selfDelimiting hreplay
  exact ⟨rfl, hrest⟩

end Fingerprint
