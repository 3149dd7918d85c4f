import Tonepoet.Dvda.Lpcm

/-!
# The parameters of an LPCM stream

The parameters that the first packet gives are those that the later packets of its format are checked against, and the
sizes, the ratio and the channel order in them fit together.
-/

namespace Dvda

open Rust

section
variable {α : Type} {r : α}

theorem orError_bind_eq_ok {β : Type} {error : LpcmDecodeError} {a : Option β} {f : β → Except LpcmDecodeError α} :
    (orError error a >>= f) = .ok r ↔ ∃ b, a = some b ∧ f b = .ok r := by
  cases a with
  | none => exact ⟨nofun, nofun⟩
  | some b =>
    constructor
    · intro h
      exact ⟨b, rfl, h⟩
    · rintro ⟨_, ⟨⟩, h⟩
      exact h

end

/-- The bit depths of samples. -/
def ValidBits (bits : ℕ) : Prop := bits = 16 ∨ bits = 20 ∨ bits = 24

theorem validateBits_eq_ok {bits : ℕ} : validateBits bits = .ok () ↔ ValidBits bits := by
  rw [validateBits, ValidBits]
  split <;> simp_all

theorem validateBits_bind_eq_ok {α : Type} {r : α} {bits : ℕ} {f : Unit → Except LpcmDecodeError α} :
    (validateBits bits >>= f) = .ok r ↔ ValidBits bits ∧ f () = .ok r := by
  rw [bind_eq_ok, ← validateBits_eq_ok]
  constructor
  · rintro ⟨⟨⟩, h⟩
    exact h
  · intro h
    exact ⟨(), h⟩

/-- Parameters that fit together. -/
structure LpcmParams.Valid (params : LpcmParams) : Prop where
  layout : ∃ layout, layoutForAssignmentCode params.channelAssignmentCode = some layout ∧ layout.group1ChannelCount = params.group1Channels ∧
    layout.group2ChannelCount = params.group2Channels
  bits1 : ValidBits params.group1Bits
  bits2 : ∀ bits ∈ params.group2Bits, ValidBits bits ∧ bits ≤ params.group1Bits
  factor : LpcmParams.groupRateFactor params.group1SampleRate params.group2SampleRate params.group2Channels = .ok params.rawGroup2Factor
  size1 : params.rawGroup1Size = params.group1Channels * params.group1Bits / 4
  size2 : params.rawGroup2Size = if params.group2Channels = 0 then 0 else params.group2Channels * (params.group2Bits.getD params.group1Bits) / 4

theorem checkGroupBits_eq_ok {group1Bits : ℕ} {group2Bits : Option ℕ} :
    LpcmParams.checkGroupBits group1Bits group2Bits = .ok () ↔
      ValidBits group1Bits ∧ ∀ bits ∈ group2Bits, ValidBits bits ∧ bits ≤ group1Bits := by
  rw [LpcmParams.checkGroupBits.eq_def, validateBits_bind_eq_ok]
  refine and_congr_right fun _ => ?_
  cases group2Bits with
  | none => exact iff_of_true rfl nofun
  | some bits =>
    dsimp only
    rw [validateBits_bind_eq_ok, error_if_eq_ok, not_lt]
    constructor
    · rintro ⟨hbits, hle, -⟩ _ ⟨⟩
      exact ⟨hbits, hle⟩
    · intro h
      exact ⟨(h bits rfl).1, (h bits rfl).2, rfl⟩

theorem rawGroupSize_eq_ok {channels bits size : ℕ} : rawGroupSize channels bits = .ok size ↔ ValidBits bits ∧ size = channels * bits / 4 := by
  rw [rawGroupSize, validateBits_bind_eq_ok]
  refine and_congr_right fun _ => ?_
  constructor
  · rintro ⟨⟩
    rfl
  · rintro rfl
    rfl

theorem LpcmParams.Valid.bits2_getD {params : LpcmParams} (h : params.Valid) : ValidBits (params.group2Bits.getD params.group1Bits) := by
  cases hbits : params.group2Bits with
  | none => exact h.bits1
  | some bits => exact (h.bits2 bits hbits).1

/-- **What `LpcmParams::new` gives.** -/
theorem new_eq_ok {code : UInt8} {rate1 channels1 channels2 bits1 : ℕ} {rate2 bits2 : Option ℕ} {params : LpcmParams} :
    LpcmParams.new code rate1 rate2 channels1 channels2 bits1 bits2 = .ok params ↔
      params.Valid ∧ params.comparable = (code, rate1, rate2, channels1, channels2, bits1, bits2) ∧ params.sampleRate = rate1 ∧
        params.channelCount = channels1 + channels2 ∧ params.bitDepth = max (bits2.getD bits1) bits1 ∧
          params.blockSize = params.rawGroup1Size + params.rawGroup2Size ∧ params.samplesPerBlockPerChannel = 2 := by
  simp only [LpcmParams.new, orError_bind_eq_ok, error_if_eq_ok]
  constructor
  · rintro ⟨layout, hlayout, hcounts, -, h⟩
    obtain ⟨⟨⟩, hbits, h⟩ := bind_eq_ok.1 h
    obtain ⟨factor, hfactor, h⟩ := bind_eq_ok.1 h
    obtain ⟨size1, hsize1, h⟩ := bind_eq_ok.1 h
    obtain ⟨size2, hsize2, ⟨⟩⟩ := bind_eq_ok.1 h
    obtain ⟨hbits1, hbits2⟩ := checkGroupBits_eq_ok.1 hbits
    obtain ⟨hcount1, hcount2⟩ := not_or.1 hcounts
    refine ⟨⟨⟨layout, hlayout, not_not.1 hcount1, not_not.1 hcount2⟩, hbits1, hbits2, hfactor, (rawGroupSize_eq_ok.1 hsize1).2, ?_⟩,
      rfl, rfl, rfl, rfl, rfl, rfl⟩
    rw [LpcmParams.secondGroupSize] at hsize2
    split at hsize2
    · cases hsize2
      exact (if_pos (by assumption)).symm
    · exact (rawGroupSize_eq_ok.1 hsize2).2.trans (if_neg (by assumption)).symm
  · rintro ⟨hvalid, hcomparable, hrate, hcount, hdepth, hblock, hper⟩
    obtain ⟨sampleRate, channelCount, bitDepth, blockSize, per, _, _, _, _, _, _, _, size1, size2, factor⟩ := params
    cases hcomparable
    obtain ⟨layout, hlayout, hcount1, hcount2⟩ := hvalid.layout
    obtain ⟨hpos, height, -⟩ := layout_spec hlayout .preserveDvdAudio
    dsimp only at *
    subst hrate hcount hdepth hblock hper
    refine ⟨layout, hlayout, by rw [hcount1, hcount2]; simp, by omega, ?_⟩
    refine bind_eq_ok.2 ⟨(), checkGroupBits_eq_ok.2 ⟨hvalid.bits1, hvalid.bits2⟩, bind_eq_ok.2 ⟨factor, hvalid.factor,
      bind_eq_ok.2 ⟨size1, rawGroupSize_eq_ok.2 ⟨hvalid.bits1, hvalid.size1⟩, bind_eq_ok.2 ⟨size2, ?_, rfl⟩⟩⟩⟩
    have hsize2 := hvalid.size2
    dsimp only at hsize2
    rw [LpcmParams.secondGroupSize]
    split
    · rename_i hzero
      rw [hsize2, if_pos hzero]
    · rename_i hne
      rw [if_neg hne] at hsize2
      exact rawGroupSize_eq_ok.2 ⟨hvalid.bits2_getD, hsize2⟩

/-! ## The first packet -/

/-- Headers of one format. -/
structure DvdaPcmSubHeader.SameFormat (a b : DvdaPcmSubHeader) : Prop where
  codes : a.comparable = b.comparable
  bits1 : a.group1Bits = b.group1Bits
  bits2 : a.group2Bits = b.group2Bits
  rate1 : a.group1SampleRate = b.group1SampleRate
  rate2 : a.group2SampleRate = b.group2SampleRate

theorem DvdaPcmSubHeader.SameFormat.refl (a : DvdaPcmSubHeader) : a.SameFormat a := ⟨rfl, rfl, rfl, rfl, rfl⟩

/-- What is chosen agrees with what the packet says. -/
theorem chooseU32_eq_ok {expected packet chosen : Option ℕ} {expectedLabel packetLabel : String}
    (h : chooseU32 expected packet expectedLabel packetLabel = .ok chosen) : ∀ n ∈ packet, chosen = some n := by
  rintro n rfl
  cases expected with
  | none =>
    cases h
    rfl
  | some lhs =>
    simp only [chooseU32] at h
    rw [error_if_eq_ok, not_not] at h
    obtain ⟨rfl, ⟨⟩⟩ := h
    rfl

theorem chooseGroup2_eq_ok {channels group1 : ℕ} {expected packet chosen : Option ℕ} {expectedLabel packetLabel : String}
    (h : DvdAudioLpcmDecoder.chooseGroup2 channels expected packet group1 expectedLabel packetLabel = .ok chosen) :
    (if channels = 0 then none else packet <|> chosen) = chosen := by
  rw [DvdAudioLpcmDecoder.chooseGroup2] at h
  split at h
  · cases h
    rw [if_pos (by assumption)]
  · rename_i hne
    rw [if_neg hne]
    obtain ⟨c, hc, rfl⟩ := map_eq_ok.1 h
    cases packet with
    | none => rfl
    | some n =>
      rw [chooseU32_eq_ok hc n rfl]
      rfl

theorem resolveLayout_eq_ok {expectation : LpcmStreamExpectation} {header : DvdaPcmSubHeader} {layout : DvdaChannelLayout}
    (h : DvdAudioLpcmDecoder.resolveLayout expectation header = .ok layout) : layoutForAssignmentCode header.channelAssignment = some layout := by
  rw [DvdAudioLpcmDecoder.resolveLayout.eq_def, orError_bind_eq_ok] at h
  obtain ⟨found, hfound, h⟩ := h
  split at h
  · rw [orError_bind_eq_ok] at h
    obtain ⟨_, -, h⟩ := h
    rw [error_if_eq_ok] at h
    cases h.2
    exact hfound
  · cases h
    exact hfound

theorem resolveChannels_eq_ok {expectation : LpcmStreamExpectation} {layout : DvdaChannelLayout} {channels : ℕ × ℕ}
    (h : DvdAudioLpcmDecoder.resolveChannels expectation layout = .ok channels) :
    channels = (layout.group1ChannelCount, layout.group2ChannelCount) := by
  obtain ⟨chosen1, hchosen1, h⟩ := bind_eq_ok.1 h
  rw [orError_bind_eq_ok] at h
  obtain ⟨channels1, hchannels1, h⟩ := h
  obtain ⟨chosen2, hchosen2, h⟩ := bind_eq_ok.1 h
  simp only [error_if_eq_ok] at h
  obtain ⟨-, -, ⟨⟩⟩ := h
  rw [chooseU32_eq_ok hchosen1 _ rfl] at hchannels1
  rw [chooseU32_eq_ok hchosen2 _ rfl]
  cases hchannels1
  rfl

/-- **The parameters of the first packet are those that every packet of its format says.** -/
theorem validate_of_firstParams {expectation : LpcmStreamExpectation} {header header' : DvdaPcmSubHeader} {params : LpcmParams}
    (h : DvdAudioLpcmDecoder.firstParams expectation header = .ok params) (hsame : header.SameFormat header') :
    params.Valid ∧ DvdAudioLpcmDecoder.validatePacketHeader header' params = .ok () := by
  obtain ⟨layout, hlayout, h⟩ := bind_eq_ok.1 h
  obtain ⟨⟨channels1, channels2⟩, hchannels, h⟩ := bind_eq_ok.1 h
  obtain ⟨chosenRate, hchosenRate, h⟩ := bind_eq_ok.1 h
  rw [orError_bind_eq_ok] at h
  obtain ⟨rate1, hrate1, h⟩ := h
  obtain ⟨rate2, hrate2, h⟩ := bind_eq_ok.1 h
  obtain ⟨chosenBits, hchosenBits, h⟩ := bind_eq_ok.1 h
  rw [orError_bind_eq_ok] at h
  obtain ⟨bits1, hbits1, h⟩ := h
  obtain ⟨bits2, hbits2, h⟩ := bind_eq_ok.1 h
  obtain ⟨⟨⟩, -, hnew⟩ := bind_eq_ok.1 h
  have hlayout := resolveLayout_eq_ok hlayout
  obtain ⟨rfl, rfl⟩ := Prod.mk.inj (resolveChannels_eq_ok hchannels)
  obtain ⟨hvalid, hcomparable, -⟩ := new_eq_ok.1 hnew
  refine ⟨hvalid, ?_⟩
  have hassignment : header'.channelAssignment = header.channelAssignment := (congrArg (fun code => code.2.2.2.2) hsame.codes).symm
  have hsameRate : (header.group1SampleRate.map UInt32.toNat).getD rate1 = rate1 := by
    cases hpacket : header.group1SampleRate.map UInt32.toNat with
    | none => rfl
    | some n =>
      rw [chooseU32_eq_ok hchosenRate n hpacket] at hrate1
      exact Option.some.inj hrate1
  have hsameBits : (header.group1Bits.map UInt32.toNat).getD bits1 = bits1 := by
    cases hpacket : header.group1Bits.map UInt32.toNat with
    | none => rfl
    | some n =>
      rw [chooseU32_eq_ok hchosenBits n hpacket] at hbits1
      exact Option.some.inj hbits1
  simp only [LpcmParams.comparable, Prod.mk.injEq] at hcomparable
  obtain ⟨-, hr1, hr2, -, hc2, hb1, hb2⟩ := hcomparable
  rw [DvdAudioLpcmDecoder.validatePacketHeader, orError_bind_eq_ok]
  refine ⟨layout, hassignment ▸ hlayout, bind_eq_ok.2 ⟨params, ?_, error_if_eq_ok.2 ⟨not_not.2 rfl, rfl⟩⟩⟩
  rw [hassignment, ← hsame.rate1, ← hsame.rate2, ← hsame.bits1, ← hsame.bits2, hr1, hr2, hc2, hb1, hb2, hsameRate, hsameBits,
    chooseGroup2_eq_ok hrate2, chooseGroup2_eq_ok hbits2]
  exact hnew

end Dvda
