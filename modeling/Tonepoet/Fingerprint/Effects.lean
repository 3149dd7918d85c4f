import Tonepoet.Fingerprint.Settings

/-!
# The settings and effects fingerprint

`settings_and_effects_fingerprint` pushes the settings' own fingerprint and then every effect of the chain: its
identity, the instances it must follow, its kind and parameters, and its placement when that is not the
default one. The lists are written without their lengths. They are still told apart, since every path names
its place in the list: what follows a list never begins with a path that could continue it.
-/

namespace Fingerprint

open Rust SelfDelimiting

/-! ## Effects -/

structure EffectInstanceId where
  id : UInt32

structure HdcdCueSegment where
  sourceOrdinal : UInt32
  startSample : UInt64
  sampleCount : UInt64

inductive RegisteredUnaryEffect
  | soxHighPass (frequencyHz : UInt32)
  | soxLowPass (frequencyHz : UInt32)
  | soxSamplePeakNormalize (targetDbfs : DbNano)
  | ffmpegHighPass (frequencyHz : UInt32)
  | ffmpegLowPass (frequencyHz : UInt32)
  | stereoFold
  | removeDcOffset
  | dcShiftAuto
  | dcShiftManual (offsetNanounits : Int64)
  | cdDeemphasis
  | hdcdDecode (sourceSizeBytes : UInt64) (sourceModifiedNs : Int64) (cueSegments : List HdcdCueSegment)

inductive EffectPlacement | afterPcmResample | beforePcmResample | sourceRate | sourceBitstreamDecode

structure EffectIntent where
  id : EffectInstanceId
  effect : RegisteredUnaryEffect
  after : List EffectInstanceId
  placement : EffectPlacement

def stereoFoldFfmpegFilter : Str :=
  ("pan=stereo|FL<FL+0.7071067811865476*FC+0.7071067811865476*BL+0.7071067811865476*SL+0.7071067811865476*FLC+0.5*BC" ++
    "|FR<FR+0.7071067811865476*FC+0.7071067811865476*BR+0.7071067811865476*SR+0.7071067811865476*FRC+0.5*BC").toList

/-- `{}` of a signed number. -/
def formatInt (n : ℤ) : Str := if n < 0 then '-' :: formatNat n.natAbs else formatNat n.natAbs

theorem formatInt_injective : Function.Injective formatInt := by
  have hminus : ∀ n s, formatNat n ≠ '-' :: s := fun n s h =>
    notMem_formatNat (c := '-') (by decide) n (h ▸ List.mem_cons_self)
  intro m n h
  rw [formatInt, formatInt] at h
  split_ifs at h with hm hn hn
  · have hdigits := formatNat_injective (List.cons.inj h).2
    omega
  · exact absurd h.symm (hminus _ _)
  · exact absurd h (hminus _ _)
  · have hdigits := formatNat_injective h
    omega

theorem formatInt64_inj {a b : Int64} : formatInt a.toInt = formatInt b.toInt ↔ a = b :=
  formatInt_injective.eq_iff.trans Int64.toInt_inj

/-- `format!("{prefix}.suffix.{index}")`. -/
def PathPrefix.child (base : PathPrefix) (suffix : Str) (index : ℕ) (separatorFree : '=' ∉ suffix := by decide) :
    PathPrefix where
  text := base.text ++ (suffix ++ formatNat index)
  separatorFree := by
    simp only [List.mem_append, not_or]
    exact ⟨base.separatorFree, separatorFree, notMem_formatNat (by decide) index⟩

def PathPrefix.whole (base : PathPrefix) (value : Str) : Field := ⟨base.text, value, base.separatorFree⟩

theorem PathPrefix.whole_inj {base : PathPrefix} {v w : Str} : base.whole v = base.whole w ↔ v = w := by
  simp [PathPrefix.whole]

/-- `format!("effect.{index}")`. -/
def effectPrefix (index : ℕ) : PathPrefix where
  text := "effect.".toList ++ formatNat index
  separatorFree := by
    simp only [List.mem_append, not_or]
    exact ⟨by decide, notMem_formatNat (by decide) index⟩

theorem effectPrefix_text (index : ℕ) : (effectPrefix index).text = "effect.".toList ++ formatNat index := rfl

/-- A path of an effect says which effect it is about. -/
theorem effectPrefix_split {i j : ℕ} {s t : Str} (h : (effectPrefix i).text ++ '.' :: s = (effectPrefix j).text ++ '.' :: t) :
    i = j ∧ s = t := by
  have hnumbers : formatNat i ++ '.' :: s = formatNat j ++ '.' :: t := by
    rw [effectPrefix_text, effectPrefix_text, List.append_assoc, List.append_assoc] at h
    exact List.append_cancel_left h
  obtain ⟨hdigits, hrest⟩ := split_at_letter (notMem_formatNat rfl i) (notMem_formatNat rfl j) hnumbers
  exact ⟨formatNat_injective hdigits, hrest⟩

/-! ## What an effect pushes -/

def pushDependency (base : PathPrefix) (index : ℕ) (dependency : EffectInstanceId) : List Field :=
  [(base.child ".after.".toList index).whole (formatNat dependency.id.toNat)]

def pushCueSegment (base : PathPrefix) (index : ℕ) (segment : HdcdCueSegment) : List Field :=
  [(base.child ".cue.".toList index).field ".ordinal".toList (formatNat segment.sourceOrdinal.toNat),
    (base.child ".cue.".toList index).field ".start".toList (formatNat segment.startSample.toNat),
    (base.child ".cue.".toList index).field ".samples".toList (formatNat segment.sampleCount.toNat)]

def pushRegisteredEffect (base : PathPrefix) : RegisteredUnaryEffect → List Field
  | .soxHighPass frequencyHz =>
    [base.field ".kind".toList "sox_highpass".toList, base.field ".frequency_hz".toList (formatNat frequencyHz.toNat)]
  | .soxLowPass frequencyHz =>
    [base.field ".kind".toList "sox_lowpass".toList, base.field ".frequency_hz".toList (formatNat frequencyHz.toNat)]
  | .soxSamplePeakNormalize targetDbfs =>
    [base.field ".kind".toList "sox_sample_peak_normalize".toList, base.field ".target_dbfs".toList (targetDbfs.render false)]
  | .ffmpegHighPass frequencyHz =>
    [base.field ".kind".toList "ffmpeg_highpass".toList, base.field ".frequency_hz".toList (formatNat frequencyHz.toNat)]
  | .ffmpegLowPass frequencyHz =>
    [base.field ".kind".toList "ffmpeg_lowpass".toList, base.field ".frequency_hz".toList (formatNat frequencyHz.toNat)]
  | .stereoFold => [base.field ".kind".toList "stereo_fold".toList, base.field ".matrix".toList stereoFoldFfmpegFilter]
  | .removeDcOffset =>
    [base.field ".kind".toList "remove_dc_offset".toList, base.field ".filter".toList "highpass_2hz_v1".toList]
  | .dcShiftAuto =>
    [base.field ".kind".toList "dc_shift_auto".toList, base.field ".policy".toList "conservative_v1".toList]
  | .dcShiftManual offsetNanounits =>
    [base.field ".kind".toList "dc_shift_manual".toList,
      base.field ".offset_nanounits".toList (formatInt offsetNanounits.toInt)]
  | .cdDeemphasis => [base.field ".kind".toList "cd_deemphasis".toList]
  | .hdcdDecode sourceSizeBytes sourceModifiedNs cueSegments =>
    [base.field ".kind".toList "hdcd_decode".toList,
      base.field ".source_size_bytes".toList (formatNat sourceSizeBytes.toNat),
      base.field ".source_modified_ns".toList (formatInt sourceModifiedNs.toInt)] ++
    indexed (pushCueSegment base) 0 cueSegments

/-- The placements `settings_and_effects_fingerprint` writes: the default one has no field. -/
def pushPlacement (base : PathPrefix) : EffectPlacement → List Field
  | .afterPcmResample => []
  | .beforePcmResample => [base.field ".placement".toList "before_pcm_resample".toList]
  | .sourceRate => [base.field ".placement".toList "source_rate".toList]
  | .sourceBitstreamDecode => [base.field ".placement".toList "source_bitstream_decode".toList]

/-- One turn of the loop of `settings_and_effects_fingerprint`. -/
def pushEffect (index : ℕ) (intent : EffectIntent) : List Field :=
  (effectPrefix index).field ".id".toList (formatNat intent.id.id.toNat) ::
    (indexed (pushDependency (effectPrefix index)) 0 intent.after ++
      (pushRegisteredEffect (effectPrefix index) intent.effect ++ pushPlacement (effectPrefix index) intent.placement))

/-! ## What can follow -/

/-- The fields that begin with a path of effect `index`, this one. -/
def StartsAt (index : ℕ) (suffix : Str) : Set (List Field) :=
  {r | r.head?.map Field.path = some ((effectPrefix index).text ++ '.' :: suffix)}

/-- What follows effect `index`: nothing, or the identity of the next one. -/
def AfterEffect (index : ℕ) : Set (List Field) := {r | r = [] ∨ r ∈ StartsAt (index + 1) "id".toList}

/-- What follows its parameters: its placement, or what follows the effect. -/
def AfterParameters (index : ℕ) : Set (List Field) :=
  {r | r ∈ StartsAt index "placement".toList ∨ r ∈ AfterEffect index}

theorem notMem_startsAt {i j : ℕ} {s t : Str} {r : List Field} (h : r ∈ StartsAt i s) (hdiff : i ≠ j ∨ s ≠ t) :
    r ∉ StartsAt j t := by
  intro h'
  obtain ⟨hij, hst⟩ := effectPrefix_split (Option.some.inj (h.symm.trans h'))
  exact hdiff.elim (· hij) (· hst)

theorem notMem_afterEffect {i : ℕ} {s : Str} {r : List Field} (h : r ∈ StartsAt i s) : r ∉ AfterEffect i := by
  rintro (rfl | hnext)
  · cases h
  · exact notMem_startsAt h (.inl (Nat.succ_ne_self i).symm) hnext

/-! ## Telling the parts apart -/

theorem pushDependencies_before (i : ℕ) :
    Before (StartsAt i "kind".toList) (indexed (pushDependency (effectPrefix i)) 0) := by
  apply indexed_before
  · intro index
    apply SelfDelimiting.before
    apply of_length (n := 1)
    · rintro ⟨a⟩ ⟨b⟩ h
      simpa only [pushDependency, List.cons.injEq, PathPrefix.whole_inj, and_true, formatNat_inj, UInt32.toNat_inj,
        EffectInstanceId.mk.injEq] using h
    · intro a
      rfl
  · intro index a r
    have hstart : pushDependency (effectPrefix i) index a ++ r ∈ StartsAt i ("after.".toList ++ formatNat index) := rfl
    exact notMem_startsAt hstart (.inr (ne_of_letter 0 rfl rfl (by decide)))

theorem pushCueSegments_before (i : ℕ) : Before (AfterParameters i) (indexed (pushCueSegment (effectPrefix i)) 0) := by
  apply indexed_before
  · intro index
    apply SelfDelimiting.before
    apply of_length (n := 3)
    · rintro ⟨_, _, _⟩ ⟨_, _, _⟩ h
      simpa only [pushCueSegment, List.cons.injEq, PathPrefix.field_inj, and_true, formatNat_inj, UInt32.toNat_inj,
        UInt64.toNat_inj, HdcdCueSegment.mk.injEq] using h
    · intro a
      rfl
  · intro index a r
    have hstart : pushCueSegment (effectPrefix i) index a ++ r ∈
        StartsAt i ("cue.".toList ++ formatNat index ++ ".ordinal".toList) := by
      simp [StartsAt, pushCueSegment, PathPrefix.field, PathPrefix.child]
    rintro (hplacement | hafter)
    · exact notMem_startsAt hstart (.inr (ne_of_letter 0 rfl rfl (by decide))) hplacement
    · exact notMem_afterEffect hstart hafter

theorem pushRegisteredEffect_before (i : ℕ) : Before (AfterParameters i) (pushRegisteredEffect (effectPrefix i)) := by
  intro a b r s hr hs h
  cases a with
  | hdcdDecode size modified segments =>
    cases b with
    | hdcdDecode size' modified' segments' =>
      simp only [pushRegisteredEffect, List.cons_append, List.nil_append, List.cons.injEq, PathPrefix.field_inj, true_and,
        formatNat_inj, UInt64.toNat_inj, formatInt64_inj] at h
      obtain ⟨rfl, rfl, hsegments⟩ := h
      obtain ⟨rfl, hrest⟩ := pushCueSegments_before i hr hs hsegments
      exact ⟨rfl, hrest⟩
    | _ => exact absurd (PathPrefix.field_inj.1 (List.cons.inj h).1) (by decide)
  | _ =>
    cases b <;> first
      | exact absurd (PathPrefix.field_inj.1 (List.cons.inj h).1) (by decide)
      | simpa only [pushRegisteredEffect, List.cons_append, List.nil_append, List.cons.injEq, PathPrefix.field_inj, true_and,
          and_true, formatNat_inj, UInt32.toNat_inj, DbNano.render_inj, formatInt64_inj,
          RegisteredUnaryEffect.soxHighPass.injEq, RegisteredUnaryEffect.soxLowPass.injEq,
          RegisteredUnaryEffect.soxSamplePeakNormalize.injEq, RegisteredUnaryEffect.ffmpegHighPass.injEq,
          RegisteredUnaryEffect.ffmpegLowPass.injEq, RegisteredUnaryEffect.dcShiftManual.injEq] using h

theorem pushPlacement_before (i : ℕ) : Before (AfterEffect i) (pushPlacement (effectPrefix i)) := by
  have hstart : ∀ v r, (effectPrefix i).field ".placement".toList v :: r ∉ AfterEffect i := fun v r =>
    notMem_afterEffect (s := "placement".toList) rfl
  intro a b r s hr hs h
  cases a with
  | afterPcmResample =>
    cases b with
    | afterPcmResample => exact ⟨rfl, h⟩
    | _ =>
      have heq : r = (effectPrefix i).field ".placement".toList _ :: s := h
      exact absurd (heq ▸ hr) (hstart _ _)
  | _ =>
    cases b with
    | afterPcmResample =>
      have heq : (effectPrefix i).field ".placement".toList _ :: r = s := h
      exact absurd (heq ▸ hs) (hstart _ _)
    | _ => first
      | exact ⟨rfl, (List.cons.inj h).2⟩
      | exact absurd (PathPrefix.field_inj.1 (List.cons.inj h).1) (by decide)

theorem pushPlacement_afterParameters {i : ℕ} {r : List Field} (hr : r ∈ AfterEffect i) (placement : EffectPlacement) :
    pushPlacement (effectPrefix i) placement ++ r ∈ AfterParameters i := by
  cases placement with
  | afterPcmResample => exact .inr hr
  | _ => exact .inl rfl

theorem pushRegisteredEffect_startsAt (i : ℕ) (effect : RegisteredUnaryEffect) (r : List Field) :
    pushRegisteredEffect (effectPrefix i) effect ++ r ∈ StartsAt i "kind".toList := by
  cases effect <;> rfl

theorem pushEffect_before (i : ℕ) : Before (AfterEffect i) (pushEffect i) := by
  rintro ⟨⟨_⟩, effect, _, placement⟩ ⟨⟨_⟩, effect', _, placement'⟩ r s hr hs h
  simp only [pushEffect, List.cons_append, List.append_assoc, List.cons.injEq, PathPrefix.field_inj, formatNat_inj,
    UInt32.toNat_inj] at h
  obtain ⟨rfl, hafter⟩ := h
  obtain ⟨rfl, heffect⟩ :=
    pushDependencies_before i (pushRegisteredEffect_startsAt i effect _) (pushRegisteredEffect_startsAt i effect' _) hafter
  obtain ⟨rfl, hplacement⟩ := pushRegisteredEffect_before i (pushPlacement_afterParameters hr placement)
    (pushPlacement_afterParameters hs placement') heffect
  obtain ⟨rfl, hrest⟩ := pushPlacement_before i hr hs hplacement
  exact ⟨rfl, hrest⟩

/-- **The effects are in the fields**: different chains of effects push different fields. -/
theorem pushEffects_injective : Function.Injective (indexed pushEffect 0) := by
  refine Before.injective (?_ : Before {[]} (indexed pushEffect 0)) rfl
  apply indexed_before
  · intro i a b r s hr hs h
    have hnext : ∀ r, (∃ l, ∃ s ∈ ({[]} : Set (List Field)), r = indexed pushEffect (i + 1) l ++ s) → r ∈ AfterEffect i := by
      rintro r ⟨_ | ⟨intent, l⟩, s, rfl, rfl⟩
      · exact .inl rfl
      · exact .inr rfl
    exact pushEffect_before i (hnext r hr) (hnext s hs) h
  · intro i a r h
    cases h

/-! ## The fingerprints -/

section Fingerprints

variable (sha256 : List UInt8 → Vector UInt8 32)

/-- `push_hex_byte`. -/
def pushHexByte (byte : UInt8) : Str := [Nat.digitChar (byte.toNat / 16), Nat.digitChar (byte.toNat % 16)]

/-- `SettingsFingerprint::to_hex`. -/
def toHex (digest : Vector UInt8 32) : Str := digest.toList.flatMap pushHexByte

theorem pushHexByte_selfDelimiting : SelfDelimiting pushHexByte := by
  apply of_length (n := 2)
  · intro a b h
    have hdigit := congrArg fromHex h
    have hbyte : ∀ byte : UInt8, fromHex (pushHexByte byte) = byte.toNat := by
      intro byte
      have hlt := byte.toNat_lt
      simp only [pushHexByte, fromHex, List.foldl_cons, List.foldl_nil]
      rw [hexDigitValue_digitChar _ (by omega), hexDigitValue_digitChar _ (by omega)]
      omega
    rw [hbyte, hbyte] at hdigit
    exact UInt8.toNat_inj.1 hdigit
  · intro a
    rfl

theorem toHex_injective : Function.Injective toHex := by
  intro a b h
  exact Vector.toList_inj.1 (pushHexByte_selfDelimiting.flatMap (fun _ => List.cons_ne_nil _ _) h)

def settingsFingerprint (settings : PipelineSettings) : Vector UInt8 32 :=
  sha256 (fed (field "schema".toList "tonepoet-pipeline-settings-fingerprint/v2".toList :: pushPipelineSettings settings))

/-- What `settings_and_effects_fingerprint` feeds its own hasher, for a chain that is not empty. -/
def settingsAndEffectsFed (settings : PipelineSettings) (effects : List EffectIntent) : List UInt8 :=
  fed (field "schema".toList "tonepoet-pipeline-settings-effects-fingerprint/v1".toList ::
    field "settings".toList (toHex (settingsFingerprint sha256 settings)) :: indexed pushEffect 0 effects)

def settingsAndEffectsFingerprint (settings : PipelineSettings) (effects : List EffectIntent) : Vector UInt8 32 :=
  if effects.isEmpty then settingsFingerprint sha256 settings else sha256 (settingsAndEffectsFed sha256 settings effects)

/-- **What is hashed is injective**: the bytes of the settings give back every setting read, and the bytes of a
chain of effects the settings' fingerprint and the chain. -/
theorem fed_settings_and_effects :
    (∀ s t, fed (pushPipelineSettings s) = fed (pushPipelineSettings t) → s = t) ∧
    ∀ s t effects effects', settingsAndEffectsFed sha256 s effects = settingsAndEffectsFed sha256 t effects' →
      settingsFingerprint sha256 s = settingsFingerprint sha256 t ∧ effects = effects' := by
  constructor
  · intro s t h
    exact pushPipelineSettings_selfDelimiting.injective (fed_injective h)
  · intro s t effects effects' h
    have hfields := (List.cons.inj (fed_injective h)).2
    obtain ⟨htoken, heffects⟩ := List.cons.inj hfields
    exact ⟨toHex_injective (field_inj.1 htoken), pushEffects_injective heffects⟩

end Fingerprints

end Fingerprint
