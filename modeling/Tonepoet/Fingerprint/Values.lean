import Tonepoet.Fingerprint.Writer

/-!
# Settings as field values

Enumerated settings are written by name, and no name stands for two of them. A rate, a depth, a format or a
tool is a name with an argument; the texts a user can choose are behind their lengths.
-/

namespace Fingerprint

open Rust

/-! ## Enumerated settings and their names -/

inductive ResampleQuality | low | medium | high | veryHigh | ultra | insane

def resampleQuality : ResampleQuality → Str
  | .low => "Low".toList
  | .medium => "Medium".toList
  | .high => "High".toList
  | .veryHigh => "VeryHigh".toList
  | .ultra => "Ultra".toList
  | .insane => "Insane".toList

theorem resampleQuality_injective : Function.Injective resampleQuality := by
  intro a b h
  cases a <;> cases b <;> first | rfl | exact absurd h (by decide)

inductive NyquistTransition | gentle | medium | steep | sharp | brickWall

def nyquistTransition : NyquistTransition → Str
  | .gentle => "Gentle".toList
  | .medium => "Medium".toList
  | .steep => "Steep".toList
  | .sharp => "Sharp".toList
  | .brickWall => "BrickWall".toList

theorem nyquistTransition_injective : Function.Injective nyquistTransition := by
  intro a b h
  cases a <;> cases b <;> first | rfl | exact absurd h (by decide)

inductive DitherType
  | none | tpdf | slopedTpdf | shibata | lipshitz | fWeighted | modifiedEWeighted | improvedEWeighted | gesemann
  | lowShibata | highShibata

def ditherType : DitherType → Str
  | .none => "None".toList
  | .tpdf => "Tpdf".toList
  | .slopedTpdf => "SlopedTpdf".toList
  | .shibata => "Shibata".toList
  | .lipshitz => "Lipshitz".toList
  | .fWeighted => "FWeighted".toList
  | .modifiedEWeighted => "ModifiedEWeighted".toList
  | .improvedEWeighted => "ImprovedEWeighted".toList
  | .gesemann => "Gesemann".toList
  | .lowShibata => "LowShibata".toList
  | .highShibata => "HighShibata".toList

theorem ditherType_injective : Function.Injective ditherType := by
  intro a b h
  cases a <;> cases b <;> first | rfl | exact absurd h (by decide)

inductive Mp3Mode | cbr | vbr | abr

def mp3Mode : Mp3Mode → Str
  | .cbr => "Cbr".toList
  | .vbr => "Vbr".toList
  | .abr => "Abr".toList

theorem mp3Mode_injective : Function.Injective mp3Mode := by
  intro a b h
  cases a <;> cases b <;> first | rfl | exact absurd h (by decide)

inductive AacProfile | lcAac | heAac | heAacV2

def aacProfile : AacProfile → Str
  | .lcAac => "LcAac".toList
  | .heAac => "HeAac".toList
  | .heAacV2 => "HeAacV2".toList

theorem aacProfile_injective : Function.Injective aacProfile := by
  intro a b h
  cases a <;> cases b <;> first | rfl | exact absurd h (by decide)

inductive ReplayGainMode | track | album | both

def replayGainMode : ReplayGainMode → Str
  | .track => "Track".toList
  | .album => "Album".toList
  | .both => "Both".toList

theorem replayGainMode_injective : Function.Injective replayGainMode := by
  intro a b h
  cases a <;> cases b <;> first | rfl | exact absurd h (by decide)

inductive ReplayGainExistingTagPolicy | rescan | skipIfComplete

/-- The names `push_replay_gain` writes in place. -/
def replayGainExistingTags : ReplayGainExistingTagPolicy → Str
  | .rescan => "rescan".toList
  | .skipIfComplete => "skip_if_complete".toList

theorem replayGainExistingTags_injective : Function.Injective replayGainExistingTags := by
  intro a b h
  cases a <;> cases b <;> first | rfl | exact absurd h (by decide)

inductive OpusContentType | auto | music | speech

def opusContentType : OpusContentType → Str
  | .auto => "Auto".toList
  | .music => "Music".toList
  | .speech => "Speech".toList

theorem opusContentType_injective : Function.Injective opusContentType := by
  intro a b h
  cases a <;> cases b <;> first | rfl | exact absurd h (by decide)

inductive WavPackMode | normal | fast | high | veryHigh

def wavpackMode : WavPackMode → Str
  | .normal => "Normal".toList
  | .fast => "Fast".toList
  | .high => "High".toList
  | .veryHigh => "VeryHigh".toList

theorem wavpackMode_injective : Function.Injective wavpackMode := by
  intro a b h
  cases a <;> cases b <;> first | rfl | exact absurd h (by decide)

inductive SsrcProfile | insane | high | long | standard | short | fast | lightning

def ssrcProfile : SsrcProfile → Str
  | .insane => "Insane".toList
  | .high => "High".toList
  | .long => "Long".toList
  | .standard => "Standard".toList
  | .short => "Short".toList
  | .fast => "Fast".toList
  | .lightning => "Lightning".toList

theorem ssrcProfile_injective : Function.Injective ssrcProfile := by
  intro a b h
  cases a <;> cases b <;> first | rfl | exact absurd h (by decide)

inductive SsrcPdfType | rectangular | triangular

def ssrcPdfType : SsrcPdfType → Str
  | .rectangular => "Rectangular".toList
  | .triangular => "Triangular".toList

theorem ssrcPdfType_injective : Function.Injective ssrcPdfType := by
  intro a b h
  cases a <;> cases b <;> first | rfl | exact absurd h (by decide)

inductive SoxSincPhase | linear | minimum | intermediate

/-- The names `push_sox_resampler` writes in place. -/
def soxSincPhase : Option SoxSincPhase → Str
  | some .linear => "Linear".toList
  | some .minimum => "Minimum".toList
  | some .intermediate => "Intermediate".toList
  | none => "None".toList

theorem soxSincPhase_injective : Function.Injective soxSincPhase := by
  rintro (_ | _ | _ | _) (_ | _ | _ | _) h <;> first | rfl | exact absurd h (by decide)

inductive DsdNoiseShaper | clans | sdm | crfb

def dsdNoiseShaper : DsdNoiseShaper → Str
  | .clans => "Clans".toList
  | .sdm => "Sdm".toList
  | .crfb => "Crfb".toList

theorem dsdNoiseShaper_injective : Function.Injective dsdNoiseShaper := by
  intro a b h
  cases a <;> cases b <;> first | rfl | exact absurd h (by decide)

inductive ModulatorOrder | order4 | order5 | order6 | order7 | order8

def modulatorOrder : ModulatorOrder → Str
  | .order4 => "Order4".toList
  | .order5 => "Order5".toList
  | .order6 => "Order6".toList
  | .order7 => "Order7".toList
  | .order8 => "Order8".toList

theorem modulatorOrder_injective : Function.Injective modulatorOrder := by
  intro a b h
  cases a <;> cases b <;> first | rfl | exact absurd h (by decide)

inductive DsdFilterPreset | auto | sinc

def dsdFilterPreset : DsdFilterPreset → Str
  | .auto => "Auto".toList
  | .sinc => "Sinc".toList

theorem dsdFilterPreset_injective : Function.Injective dsdFilterPreset := by
  intro a b h
  cases a <;> cases b <;> first | rfl | exact absurd h (by decide)

inductive DsdLowpassMethod | auto | soxUltra | sinc

def dsdLowpassMethod : DsdLowpassMethod → Str
  | .auto => "Auto".toList
  | .soxUltra => "SoxUltra".toList
  | .sinc => "Sinc".toList

theorem dsdLowpassMethod_injective : Function.Injective dsdLowpassMethod := by
  intro a b h
  cases a <;> cases b <;> first | rfl | exact absurd h (by decide)

inductive TruePeakScope | track | album

def truePeakScope : TruePeakScope → Str
  | .track => "track".toList
  | .album => "album".toList

theorem truePeakScope_injective : Function.Injective truePeakScope := by
  intro a b h
  cases a <;> cases b <;> first | rfl | exact absurd h (by decide)

inductive TruePeakScanTier | reference | standard | fast

def truePeakScan : TruePeakScanTier → Str
  | .reference => "fast066v2_reference".toList
  | .standard => "fast066v2_standard".toList
  | .fast => "fast066v2_fast".toList

theorem truePeakScan_injective : Function.Injective truePeakScan := by
  intro a b h
  cases a <;> cases b <;> first | rfl | exact absurd h (by decide)

inductive DsdRate | dsd64 | dsd128 | dsd256 | dsd512 | dsd1024

def dsdRate : DsdRate → Str
  | .dsd64 => "Dsd64".toList
  | .dsd128 => "Dsd128".toList
  | .dsd256 => "Dsd256".toList
  | .dsd512 => "Dsd512".toList
  | .dsd1024 => "Dsd1024".toList

theorem dsdRate_injective : Function.Injective dsdRate := by
  intro a b h
  cases a <;> cases b <;> first | rfl | exact absurd h (by decide)

inductive PcmBitDepth | int8 | int16 | int24 | int32 | float32 | float64

def pcmBitDepth : PcmBitDepth → Str
  | .int8 => "Int8".toList
  | .int16 => "Int16".toList
  | .int24 => "Int24".toList
  | .int32 => "Int32".toList
  | .float32 => "Float32".toList
  | .float64 => "Float64".toList

theorem pcmBitDepth_injective : Function.Injective pcmBitDepth := by
  intro a b h
  cases a <;> cases b <;> first | rfl | exact absurd h (by decide)

inductive DsdSourcePathway | custom | reference | manual

/-- The names `push_dsd` writes in place. -/
def dsdSourcePathway : DsdSourcePathway → Str
  | .custom => "custom".toList
  | .reference => "reference".toList
  | .manual => "manual".toList

theorem dsdSourcePathway_injective : Function.Injective dsdSourcePathway := by
  intro a b h
  cases a <;> cases b <;> first | rfl | exact absurd h (by decide)

inductive DsdReferencePolicyVersion
  | soxNg14801V1 | soxNg14801V2 | soxNg14801V3 | soxNg14801V4 | soxNg14801V5 | soxNg14801V6 | soxNg14801V7 | soxNg14801V8
  | soxNg14801V9 | soxNg14801V10 | soxNg14801V11 | soxNg14801V12 | soxNg14801V13 | soxNg14801V14 | soxNg14801V15
  | soxNg14801V16 | soxNg14801V17 | soxNg14801V18

def DsdReferencePolicyVersion.key : DsdReferencePolicyVersion → Str
  | .soxNg14801V1 => "sox_ng_14_8_0_1_v1".toList
  | .soxNg14801V2 => "sox_ng_14_8_0_1_v2".toList
  | .soxNg14801V3 => "sox_ng_14_8_0_1_v3".toList
  | .soxNg14801V4 => "sox_ng_14_8_0_1_v4".toList
  | .soxNg14801V5 => "sox_ng_14_8_0_1_v5".toList
  | .soxNg14801V6 => "sox_ng_14_8_0_1_v6".toList
  | .soxNg14801V7 => "sox_ng_14_8_0_1_v7".toList
  | .soxNg14801V8 => "sox_ng_14_8_0_1_v8".toList
  | .soxNg14801V9 => "sox_ng_14_8_0_1_v9".toList
  | .soxNg14801V10 => "sox_ng_14_8_0_1_v10".toList
  | .soxNg14801V11 => "sox_ng_14_8_0_1_v11".toList
  | .soxNg14801V12 => "sox_ng_14_8_0_1_v12".toList
  | .soxNg14801V13 => "sox_ng_14_8_0_1_v13".toList
  | .soxNg14801V14 => "sox_ng_14_8_0_1_v14".toList
  | .soxNg14801V15 => "sox_ng_14_8_0_1_v15".toList
  | .soxNg14801V16 => "sox_ng_14_8_0_1_v16".toList
  | .soxNg14801V17 => "sox_ng_14_8_0_1_v17".toList
  | .soxNg14801V18 => "sox_ng_14_8_0_1_v18".toList

theorem DsdReferencePolicyVersion.key_eq (policy : DsdReferencePolicyVersion) :
    policy.key = "sox_ng_14_8_0_1_v".toList ++ formatNat (policy.ctorIdx + 1) := by
  cases policy <;> decide

theorem DsdReferencePolicyVersion.key_injective : Function.Injective key := by
  intro a b h
  rw [key_eq, key_eq, List.append_cancel_left_eq, formatNat_inj] at h
  cases a <;> cases b <;> first | rfl | exact absurd h (by decide)

inductive DsdReconstructionSelection | reference | wideband

def dsdReconstructionSelection : DsdReconstructionSelection → Str
  | .reference => "reference".toList
  | .wideband => "wideband".toList

theorem dsdReconstructionSelection_injective : Function.Injective dsdReconstructionSelection := by
  intro a b h
  cases a <;> cases b <;> first | rfl | exact absurd h (by decide)

inductive DsdGeneralReconstruction | general | referenceProtected

def dsdGeneralReconstruction : DsdGeneralReconstruction → Str
  | .general => "general".toList
  | .referenceProtected => "reference_protected".toList

theorem dsdGeneralReconstruction_injective : Function.Injective dsdGeneralReconstruction := by
  intro a b h
  cases a <;> cases b <;> first | rfl | exact absurd h (by decide)

/-! ## Composed values -/

theorem ne_of_letter (i : ℕ) {s t : Str} {c d : Char} (hs : s[i]? = some c) (ht : t[i]? = some d) (h : c ≠ d) : s ≠ t := by
  rintro rfl
  exact h (Option.some.inj (hs.symm.trans ht))

inductive AudioFormat
  | flac | wav | aiff | wavPack | mp3 | aac | opus | alac | dsf | dff | dts | ac3
  | custom (extension displayName : Str)

def audioFormat : AudioFormat → Str
  | .flac => "Flac".toList
  | .wav => "Wav".toList
  | .aiff => "Aiff".toList
  | .wavPack => "WavPack".toList
  | .mp3 => "Mp3".toList
  | .aac => "Aac".toList
  | .opus => "Opus".toList
  | .alac => "Alac".toList
  | .dsf => "Dsf".toList
  | .dff => "Dff".toList
  | .dts => "Dts".toList
  | .ac3 => "Ac3".toList
  | .custom extension displayName =>
    "Custom(extension=".toList ++ (stringValue extension ++ (",display_name=".toList ++ (stringValue displayName ++ [')'])))

theorem audioFormat_injective : Function.Injective audioFormat := by
  intro a b h
  cases a with
  | custom extension displayName =>
    cases b with
    | custom extension' displayName' =>
      obtain ⟨rfl, hrest⟩ := stringValue_selfDelimiting (List.append_cancel_left h)
      obtain ⟨rfl, -⟩ := stringValue_selfDelimiting (List.append_cancel_left hrest)
      rfl
    | _ => exact absurd h (ne_of_letter 0 rfl rfl (by decide))
  | _ =>
    cases b with
    | custom extension' displayName' => exact absurd h (ne_of_letter 0 rfl rfl (by decide))
    | _ => first | rfl | exact absurd h (by decide)

inductive RateTarget
  | source
  | pcmHz (hz : UInt32)
  | dsd (rate : DsdRate)

def rateTarget : RateTarget → Str
  | .source => "Source".toList
  | .pcmHz hz => "PcmHz(".toList ++ formatNat hz.toNat ++ [')']
  | .dsd rate => "Dsd(".toList ++ dsdRate rate ++ [')']

theorem rateTarget_injective : Function.Injective rateTarget := by
  rintro (_ | hz | rate) (_ | hz' | rate') h
  · rfl
  · exact absurd h (ne_of_letter 0 rfl rfl (by decide))
  · exact absurd h (ne_of_letter 0 rfl rfl (by decide))
  · exact absurd h (ne_of_letter 0 rfl rfl (by decide))
  · rw [UInt32.toNat_inj.1 (formatNat_injective (List.append_cancel_left (List.append_cancel_right h)))]
  · exact absurd h (ne_of_letter 0 rfl rfl (by decide))
  · exact absurd h (ne_of_letter 0 rfl rfl (by decide))
  · exact absurd h (ne_of_letter 0 rfl rfl (by decide))
  · rw [dsdRate_injective (List.append_cancel_left (List.append_cancel_right h))]

inductive BitDepthTarget
  | source
  | pcm (depth : PcmBitDepth)

def bitDepthTarget : BitDepthTarget → Str
  | .source => "Source".toList
  | .pcm depth => "Pcm(".toList ++ pcmBitDepth depth ++ [')']

theorem bitDepthTarget_injective : Function.Injective bitDepthTarget := by
  rintro (_ | depth) (_ | depth') h
  · rfl
  · exact absurd h (ne_of_letter 0 rfl rfl (by decide))
  · exact absurd h (ne_of_letter 0 rfl rfl (by decide))
  · rw [pcmBitDepth_injective (List.append_cancel_left (List.append_cancel_right h))]

inductive PreferredTool
  | auto | ffmpeg | sox | ssrc
  | custom (name : Str)

def preferredTool : PreferredTool → Str
  | .auto => "Auto".toList
  | .ffmpeg => "Ffmpeg".toList
  | .sox => "Sox".toList
  | .ssrc => "Ssrc".toList
  | .custom name => "Custom(".toList ++ (stringValue name ++ [')'])

theorem preferredTool_injective : Function.Injective preferredTool := by
  intro a b h
  cases a with
  | custom name =>
    cases b with
    | custom name' =>
      obtain ⟨rfl, -⟩ := stringValue_selfDelimiting (List.append_cancel_left h)
      rfl
    | _ => exact absurd h (ne_of_letter 0 rfl rfl (by decide))
  | _ =>
    cases b with
    | custom name' => exact absurd h (ne_of_letter 0 rfl rfl (by decide))
    | _ => first | rfl | exact absurd h (by decide)

inductive GainCompensation
  | auto
  | linear (value : F32)
  | decibels (value : F32)
  | disabled

def gainCompensation : GainCompensation → Str
  | .auto => "Auto".toList
  | .linear value => "Linear(".toList ++ f32Value value ++ [')']
  | .decibels value => "Decibels(".toList ++ f32Value value ++ [')']
  | .disabled => "Disabled".toList

theorem gainCompensation_injective : Function.Injective gainCompensation := by
  intro a b h
  cases a with
  | linear value =>
    cases b with
    | linear value' =>
      rw [f32Value_injective (List.append_cancel_left (List.append_cancel_right h))]
    | _ => exact absurd h (ne_of_letter 2 rfl rfl (by decide))
  | decibels value =>
    cases b with
    | decibels value' =>
      rw [f32Value_injective (List.append_cancel_left (List.append_cancel_right h))]
    | _ => exact absurd h (ne_of_letter 2 rfl rfl (by decide))
  | _ =>
    cases b with
    | linear value' => exact absurd h (ne_of_letter 2 rfl rfl (by decide))
    | decibels value' => exact absurd h (ne_of_letter 2 rfl rfl (by decide))
    | _ => first | rfl | exact absurd h (by decide)

def optionStatic (value : Option Str) : Str := optionValue id value
def optionU8 (value : Option UInt8) : Str := optionNumber (value.map UInt8.toNat)
def optionU16 (value : Option UInt16) : Str := optionValue (fun v => formatNat v.toNat) value
def optionF32 (value : Option F32) : Str := optionValue f32Value value
def optionDbNano (value : Option DbNano) : Str := optionValue (fun v => v.render false) value

theorem optionStatic_map_inj {E : Type} {name : E → Str} (h : Function.Injective name) {a b : Option E} :
    optionStatic (a.map name) = optionStatic (b.map name) ↔ a = b :=
  (optionValue_inj Function.injective_id).trans (Option.map_injective h).eq_iff

theorem optionNumber_map_inj {N : Type} {toNat : N → ℕ} (h : Function.Injective toNat) {a b : Option N} :
    optionNumber (a.map toNat) = optionNumber (b.map toNat) ↔ a = b :=
  optionNumber_inj.trans (Option.map_injective h).eq_iff

theorem optionU8_inj {a b : Option UInt8} : optionU8 a = optionU8 b ↔ a = b :=
  optionNumber_map_inj fun _ _ => UInt8.toNat_inj.1

theorem optionU16_inj {a b : Option UInt16} : optionU16 a = optionU16 b ↔ a = b :=
  optionValue_inj fun _ _ h => UInt16.toNat_inj.1 (formatNat_injective h)

theorem optionF32_inj {a b : Option F32} : optionF32 a = optionF32 b ↔ a = b := optionValue_inj f32Value_injective

theorem optionDbNano_inj {a b : Option DbNano} : optionDbNano a = optionDbNano b ↔ a = b :=
  optionValue_inj DbNano.render_injective

end Fingerprint
