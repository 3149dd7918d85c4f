import Tonepoet.Dvda.LpcmUnpacking

/-!
# The LPCM decoder does not see packet boundaries

However a stream is cut into packets, its steps are decoded where they lie in the stream, and what is left over at the end of
a packet waits for the next.
-/

namespace Dvda

open ByteFile Rust

variable {params : LpcmParams} {policy : DvdaChannelOrderPolicy} {data : List UInt8} {n : ℕ}

/-! ## A call -/

/-- **What a call decodes**: the steps that end in what it is given, and what is left over waits for the next call. -/
theorem decodeAvailable_eq (h : params.Valid) (expectation : LpcmStreamExpectation) (policy : DvdaChannelOrderPolicy) (data : List UInt8)
    (count : LpcmDecodeStats) (n : ℕ) (avail : List UInt8) (hfront : avail <+: data.drop (params.stepStart n)) :
    ∃ out m, (params.decoderAt expectation policy data count n []).decodeAvailable avail params =
        .ok (params.decoderAt expectation policy data count m (avail.drop (params.stepStart m - params.stepStart n)), out) ∧
      params.stepStart n ≤ params.stepStart m ∧ params.stepStart m ≤ params.stepStart n + avail.length ∧
        params.stepStart n + avail.length < params.stepStart (m + 1) ∧
          (List.range n).flatMap (params.stepBytes policy data) ++ out = (List.range m).flatMap (params.stepBytes policy data) := by
  have hsize1 := h.size1_pos
  have hnext : params.stepStart (n + 1) = params.stepStart n + params.group2Size n + params.rawGroup1Size := rfl
  have hneeded : params.nextRawStepSize (params.decoderAt expectation policy data count n []).rawGroup2Index =
    params.group2Size n + params.rawGroup1Size := params.nextRawStepSize_eq n
  rw [DvdAudioLpcmDecoder.decodeAvailable]
  split
  · rename_i hempty
    rw [List.isEmpty_iff] at hempty
    subst hempty
    exact ⟨[], n, by rw [List.drop_nil], le_rfl, Nat.le_add_right _ _, by rw [List.length_nil]; omega, List.append_nil _⟩
  · rw [hneeded]
    dsimp only
    split
    · refine ⟨[], n, ?_, le_rfl, Nat.le_add_right _ _, by omega, List.append_nil _⟩
      rw [Nat.sub_self, List.drop_zero]
      rfl
    · rename_i hlong
      rw [if_neg (by omega)]
      obtain ⟨rest, hrest⟩ := hfront
      have hdata : params.stepStart n + avail.length ≤ data.length := by
        have hlength := congrArg List.length hrest
        rw [List.length_append, List.length_drop] at hlength
        omega
      have htake : avail.take (params.group2Size n + params.rawGroup1Size) =
          (data.drop (params.stepStart n)).take (params.nextRawStepSize (n % params.rawGroup2Factor)) := by
        rw [params.nextRawStepSize_eq, ← hrest, List.take_append_of_le_length (by omega)]
      have hfront' : avail.drop (params.group2Size n + params.rawGroup1Size) <+: data.drop (params.stepStart (n + 1)) := by
        refine ⟨rest, ?_⟩
        rw [← List.drop_append_of_le_length (by omega), hrest, List.drop_drop, hnext, Nat.add_assoc]
      obtain ⟨out, m, hrun, hle, hfits, hlast, hbytes⟩ :=
        decodeAvailable_eq h expectation policy data count (n + 1) (avail.drop (params.group2Size n + params.rawGroup1Size)) hfront'
      rw [List.length_drop] at hfits hlast
      refine ⟨params.stepBytes policy data n ++ out, m, ?_, by omega, by omega, by omega, ?_⟩
      · rw [htake, decodeReferenceStep_eq h (by omega)]
        refine bind_eq_ok.2 ⟨_, rfl, bind_eq_ok.2 ⟨(_, out), ?_, rfl⟩⟩
        rw [List.drop_drop] at hrun
        have hdrop : params.group2Size n + params.rawGroup1Size + (params.stepStart m - params.stepStart (n + 1)) =
          params.stepStart m - params.stepStart n := by omega
        rw [hdrop] at hrun
        have hbytesDecoded : saturatingAdd (min (params.stepStart n) u64Max) (params.group2Size n + params.rawGroup1Size) =
            min (params.stepStart (n + 1)) u64Max := by
          rw [LpcmParams.saturatingAdd_min, hnext, Nat.add_assoc]
        have hsamples : saturatingAdd (min (2 * n) u64Max) 2 = min (2 * (n + 1)) u64Max := LpcmParams.saturatingAdd_min _ _
        dsimp only
        rw [hbytesDecoded, hsamples]
        exact hrun
      · rw [← List.append_assoc, ← hbytes, List.range_succ, List.flatMap_append, List.flatMap_singleton]
termination_by avail.length
decreasing_by
  rw [List.length_drop]
  omega

/-! ## Packets -/

namespace LpcmParams

/-- The decoder when it has been given `length` bytes of the stream. -/
def stateAt (params : LpcmParams) (expectation : LpcmStreamExpectation) (policy : DvdaChannelOrderPolicy) (data : List UInt8)
    (count : LpcmDecodeStats) (length : ℕ) : DvdAudioLpcmDecoder :=
  params.decoderAt expectation policy data count (params.stepCount length)
    ((data.take length).drop (params.stepStart (params.stepCount length)))

theorem stepCount_spec (h : params.Valid) (length : ℕ) :
    params.stepStart (params.stepCount length) ≤ length ∧ length < params.stepStart (params.stepCount length + 1) := by
  have hle : params.stepStart (params.stepCount length) ≤ length :=
    Nat.findGreatest_spec (P := fun n => params.stepStart n ≤ length) (Nat.zero_le length) (Nat.zero_le _)
  refine ⟨hle, ?_⟩
  by_contra hge
  have hfits : params.stepStart (params.stepCount length + 1) ≤ length := not_lt.1 hge
  have hgreatest := Nat.le_findGreatest (P := fun n => params.stepStart n ≤ length) ((le_stepStart h _).trans hfits) hfits
  exact absurd hgreatest (Nat.not_succ_le_self _)

end LpcmParams

/-- The statistics of packets. -/
def countPackets (count : LpcmDecodeStats) (packets : List (DvdaPcmSubHeader × List UInt8)) : LpcmDecodeStats :=
  packets.foldl (fun count packet => DvdAudioLpcmDecoder.countPacket count packet.1 packet.2) count

/-- The bytes of packets. -/
def payloads (packets : List (DvdaPcmSubHeader × List UInt8)) : List UInt8 := packets.flatMap Prod.snd

theorem countPacket_eq (stats : LpcmDecodeStats) (header : DvdaPcmSubHeader) (payload : List UInt8) :
    DvdAudioLpcmDecoder.countPacket stats header payload =
      { stats with
        firstHeader := some (stats.firstHeader.getD header)
        firstAudioFramePointer := if stats.firstHeader.isNone then some header.firstAudioFrame else stats.firstAudioFramePointer
        formatChangeCount :=
          if stats.lastHeader.any (fun previous => previous.comparable ≠ header.comparable) then saturatingAdd stats.formatChangeCount 1
          else stats.formatChangeCount
        lastHeader := some header
        packets := saturatingAdd stats.packets 1
        payloadBytes := saturatingAdd stats.payloadBytes payload.length } := by
  obtain ⟨_, _, _, _, first, last, _, _, _, _, _⟩ := stats
  cases first <;> simp only [DvdAudioLpcmDecoder.countPacket, Option.isNone_none, Option.isNone_some, reduceIte, Bool.false_eq_true] <;>
    split <;> rfl

theorem countPacket_statsAt (params : LpcmParams) (count : LpcmDecodeStats) (header : DvdaPcmSubHeader) (payload : List UInt8) (n : ℕ) :
    DvdAudioLpcmDecoder.countPacket (params.statsAt count n) header payload =
      params.statsAt (DvdAudioLpcmDecoder.countPacket count header payload) n := by
  rw [countPacket_eq, countPacket_eq]
  rfl

/-- **A packet** is decoded as its part of the stream. -/
theorem decodePacket_eq (h : params.Valid) (expectation : LpcmStreamExpectation) (policy : DvdaChannelOrderPolicy) (count : LpcmDecodeStats) {header : DvdaPcmSubHeader}
    {payload : List UInt8} {length : ℕ} (hheader : DvdAudioLpcmDecoder.validatePacketHeader header params = .ok ())
    (hpayload : payload <+: data.drop length) (hlength : length ≤ data.length) :
    ∃ out, (params.stateAt expectation policy data count length).decodePacket header payload =
        .ok (params.stateAt expectation policy data (DvdAudioLpcmDecoder.countPacket count header payload) (length + payload.length), out) ∧
      (List.range (params.stepCount length)).flatMap (params.stepBytes policy data) ++ out =
        (List.range (params.stepCount (length + payload.length))).flatMap (params.stepBytes policy data) := by
  obtain ⟨hstart, -⟩ := params.stepCount_spec h length
  obtain ⟨rest, hrest⟩ := hpayload
  have havail : (data.take length).drop (params.stepStart (params.stepCount length)) ++ payload =
      (data.take (length + payload.length)).drop (params.stepStart (params.stepCount length)) := by
    have htake : data.take (length + payload.length) = data.take length ++ payload := by
      rw [List.take_add, ← hrest, List.take_left]
    rw [htake, List.drop_append_of_le_length (by rw [List.length_take]; omega)]
  have htotal : length + payload.length ≤ data.length := by
    have hlengths := congrArg List.length hrest
    rw [List.length_append, List.length_drop] at hlengths
    omega
  have hfront : (data.take (length + payload.length)).drop (params.stepStart (params.stepCount length)) <+:
      data.drop (params.stepStart (params.stepCount length)) := by
    rw [List.drop_take]
    exact List.take_prefix _ _
  obtain ⟨out, m, hrun, hle, hfits, hlast, hbytes⟩ := decodeAvailable_eq h expectation policy data
    (DvdAudioLpcmDecoder.countPacket count header payload) (params.stepCount length) _ hfront
  rw [List.length_drop, List.length_take, Nat.min_eq_left htotal, Nat.add_sub_cancel' (by omega)] at hfits hlast
  have hm : params.stepCount (length + payload.length) = m := params.stepCount_eq h hfits hlast
  rw [List.drop_drop, Nat.add_sub_cancel' hle, ← hm] at hrun
  refine ⟨out, ?_, by rw [hm]; exact hbytes⟩
  rw [DvdAudioLpcmDecoder.decodePacket]
  refine bind_eq_ok.2 ⟨_, rfl, bind_eq_ok.2 ⟨_, hheader, ?_⟩⟩
  dsimp only [LpcmParams.stateAt, LpcmParams.decoderAt]
  rw [havail, countPacket_statsAt]
  exact hrun

/-- **A run of packets** is decoded as its part of the stream. -/
theorem decodePackets_eq (h : params.Valid) (expectation : LpcmStreamExpectation) (policy : DvdaChannelOrderPolicy) {packets : List (DvdaPcmSubHeader × List UInt8)}
    (hheaders : ∀ packet ∈ packets, DvdAudioLpcmDecoder.validatePacketHeader packet.1 params = .ok ()) {count : LpcmDecodeStats} {length : ℕ}
    (hpayload : data.drop length = payloads packets) (hlength : length ≤ data.length) :
    ∃ out, (params.stateAt expectation policy data count length).decodePackets packets =
        .ok (params.stateAt expectation policy data (countPackets count packets) data.length, out) ∧
      (List.range (params.stepCount length)).flatMap (params.stepBytes policy data) ++ out = params.unpacked policy data := by
  induction packets generalizing count length with
  | nil =>
    have hall : length = data.length := le_antisymm hlength (List.drop_eq_nil_iff.1 hpayload)
    rw [hall]
    exact ⟨[], rfl, List.append_nil _⟩
  | cons packet packets ih =>
    obtain ⟨header, payload⟩ := packet
    have hsplit : data.drop length = payload ++ payloads packets := hpayload
    obtain ⟨out, hpacket, hbytes⟩ := decodePacket_eq h expectation policy count
      (hheaders _ List.mem_cons_self) ⟨_, hsplit.symm⟩ hlength
    have hnext : data.drop (length + payload.length) = payloads packets := by
      rw [← List.drop_drop, hsplit, List.drop_left]
    have htotal : length + payload.length ≤ data.length := by
      have hlengths := congrArg List.length hsplit
      rw [List.length_append, List.length_drop] at hlengths
      omega
    obtain ⟨out', hrun, hbytes'⟩ := ih (fun packet hpacket => hheaders packet (List.mem_cons_of_mem _ hpacket)) hnext htotal
    refine ⟨out ++ out', ?_, ?_⟩
    · rw [DvdAudioLpcmDecoder.decodePackets]
      refine bind_eq_ok.2 ⟨_, hpacket, bind_eq_ok.2 ⟨_, hrun, rfl⟩⟩
    · rw [← List.append_assoc, hbytes, hbytes']

/-! ## Whole streams -/

/-- A decoder before its first packet. -/
def decoderFor (expectation : LpcmStreamExpectation) (policy : DvdaChannelOrderPolicy) : DvdAudioLpcmDecoder :=
  (DvdAudioLpcmDecoder.new expectation).withChannelOrderPolicy policy

/-- The statistics of no packets. -/
def noPackets (policy : DvdaChannelOrderPolicy) : LpcmDecodeStats := ⟨0, 0, 0, 0, none, none, 0, none, 0, 0, policy⟩

theorem decodePacket_decoderFor {expectation : LpcmStreamExpectation} {header : DvdaPcmSubHeader} (payload data : List UInt8)
    (hparams : DvdAudioLpcmDecoder.firstParams expectation header = .ok params) :
    (decoderFor expectation policy).decodePacket header payload =
      (params.stateAt expectation policy data (noPackets policy) 0).decodePacket header payload := by
  have hresolve : (decoderFor expectation policy).resolveParams header =
      .ok (params.stateAt expectation policy data (noPackets policy) 0, params) := by
    rw [DvdAudioLpcmDecoder.resolveParams]
    have hnone : (decoderFor expectation policy).params = none := rfl
    rw [hnone]
    refine bind_eq_ok.2 ⟨params, hparams, ?_⟩
    have hcount : params.stepCount 0 = 0 := rfl
    have hzero : 0 % params.rawGroup2Factor = 0 := Nat.zero_mod _
    simp only [LpcmParams.stateAt, hcount, LpcmParams.decoderAt, hzero]
    rfl
  rw [DvdAudioLpcmDecoder.decodePacket, DvdAudioLpcmDecoder.decodePacket, hresolve]
  rfl

/-- **A stream in packets of one format** is unpacked from its first byte. -/
theorem decodePackets_decoderFor {expectation : LpcmStreamExpectation} {header : DvdaPcmSubHeader} {payload : List UInt8}
    {packets : List (DvdaPcmSubHeader × List UInt8)} (hparams : DvdAudioLpcmDecoder.firstParams expectation header = .ok params)
    (hsame : ∀ packet ∈ packets, header.SameFormat packet.1) (hdata : data = payloads ((header, payload) :: packets)) :
    (decoderFor expectation policy).decodePackets ((header, payload) :: packets) =
      .ok (params.stateAt expectation policy data (countPackets (noPackets policy) ((header, payload) :: packets)) data.length,
        params.unpacked policy data) := by
  obtain ⟨hvalid, hfirst⟩ := validate_of_firstParams hparams (DvdaPcmSubHeader.SameFormat.refl header)
  have hheaders : ∀ packet ∈ (header, payload) :: packets, DvdAudioLpcmDecoder.validatePacketHeader packet.1 params = .ok () := by
    intro packet hpacket
    rcases List.mem_cons.1 hpacket with rfl | hpacket
    · exact hfirst
    · exact (validate_of_firstParams hparams (hsame packet hpacket)).2
  have hdrop : data.drop 0 = payloads ((header, payload) :: packets) := hdata
  obtain ⟨out, hrun, hbytes⟩ := decodePackets_eq hvalid expectation policy hheaders hdrop (Nat.zero_le _)
  have hcount : params.stepCount 0 = 0 := rfl
  rw [hcount] at hbytes
  have hout : out = params.unpacked policy data := hbytes
  rw [← hout, ← hrun, DvdAudioLpcmDecoder.decodePackets, DvdAudioLpcmDecoder.decodePackets, decodePacket_decoderFor payload data hparams]

/-- The statistics of packets of one format. -/
theorem countPackets_eq {header : DvdaPcmSubHeader} {packets : List (DvdaPcmSubHeader × List UInt8)} {stats : LpcmDecodeStats} {k total : ℕ}
    {last : DvdaPcmSubHeader} (hsame : ∀ packet ∈ packets, header.SameFormat packet.1) (hlast : header.SameFormat last) :
    countPackets { stats with
        firstHeader := some header, lastHeader := some last, packets := min k u64Max, payloadBytes := min total u64Max } packets =
      { stats with
        firstHeader := some header
        lastHeader := some ((packets.map Prod.fst).getLastD last)
        packets := min (k + packets.length) u64Max
        payloadBytes := min (total + (payloads packets).length) u64Max } := by
  induction packets generalizing k total last with
  | nil => rfl
  | cons packet packets ih =>
    obtain ⟨header', payload⟩ := packet
    have hheader' : header.SameFormat header' := hsame _ List.mem_cons_self
    have hcodes : last.comparable = header'.comparable := hlast.codes.symm.trans hheader'.codes
    have hstep := countPacket_eq { stats with
      firstHeader := some header, lastHeader := some last, packets := min k u64Max, payloadBytes := min total u64Max } header' payload
    simp only [Option.any_some, hcodes, ne_eq, not_true_eq_false, decide_false, Bool.false_eq_true, reduceIte, Option.isNone_some,
      Option.getD_some, LpcmParams.saturatingAdd_min] at hstep
    rw [countPackets, List.foldl_cons, hstep]
    refine (ih (fun packet hpacket => hsame packet (List.mem_cons_of_mem _ hpacket)) hheader').trans ?_
    have hlength : (payloads ((header', payload) :: packets)).length = payload.length + (payloads packets).length := List.length_append
    rw [hlength, List.length_cons, List.map_cons, List.getLastD_cons, Nat.add_assoc, Nat.add_assoc, Nat.add_comm 1]

/-- The statistics of the packets of a stream. -/
theorem countPackets_noPackets {header : DvdaPcmSubHeader} {packets : List (DvdaPcmSubHeader × List UInt8)} (policy : DvdaChannelOrderPolicy)
    (payload : List UInt8) (hsame : ∀ packet ∈ packets, header.SameFormat packet.1) :
    countPackets (noPackets policy) ((header, payload) :: packets) =
      { noPackets policy with
        firstHeader := some header
        lastHeader := some ((packets.map Prod.fst).getLastD header)
        packets := min (1 + packets.length) u64Max
        payloadBytes := min (payload.length + (payloads packets).length) u64Max
        firstAudioFramePointer := some header.firstAudioFrame } := by
  have hfirst : DvdAudioLpcmDecoder.countPacket (noPackets policy) header payload =
      { { noPackets policy with firstAudioFramePointer := some header.firstAudioFrame } with
        firstHeader := some header, lastHeader := some header, packets := min 1 u64Max, payloadBytes := min payload.length u64Max } := by
    rw [countPacket_eq, noPackets, saturatingAdd, saturatingAdd, Nat.zero_add, Nat.zero_add]
    rfl
  rw [countPackets, List.foldl_cons, hfirst]
  exact countPackets_eq hsame (DvdaPcmSubHeader.SameFormat.refl header)

/-- **The end of a stream** is reached without an error when no bytes of a step are left. -/
theorem finish_stateAt (h : params.Valid) (expectation : LpcmStreamExpectation) (policy : DvdaChannelOrderPolicy) (count : LpcmDecodeStats) :
    (params.stateAt expectation policy data count data.length).finish =
        .ok (params.stateAt expectation policy data count data.length).stats ↔
      params.stepStart (params.stepCount data.length) = data.length := by
  obtain ⟨hle, -⟩ := params.stepCount_spec h data.length
  have hpending : (params.stateAt expectation policy data count data.length).pending.isEmpty = true ↔
      params.stepStart (params.stepCount data.length) = data.length := by
    rw [LpcmParams.stateAt, LpcmParams.decoderAt, List.isEmpty_iff, List.take_length, List.drop_eq_nil_iff]
    exact ⟨fun hge => le_antisymm hle hge, fun heq => heq.ge⟩
  rw [DvdAudioLpcmDecoder.finish, ← hpending]
  split
  · exact iff_of_true rfl (by assumption)
  · refine iff_of_false (fun h => ?_) (by assumption)
    cases h

/-- The signed number of a sample. -/
def sourceNumber (block : List UInt8) (channels bits i : ℕ) : ℤ := (BitVec.ofNat bits (sourceSample block channels bits i)).toInt

/-- **The samples of the first group come out left-aligned and sign-exact.** -/
theorem channelWord_group1 (h : params.Valid) {t s : ℕ} (hs : s < params.group1Channels) :
    (params.channelWord data n t s).toInt =
      sourceNumber (params.group1Block data n) params.group1Channels params.group1Bits (t * params.group1Channels + s) *
        2 ^ (32 - params.group1Bits) := by
  have hneither : ¬ (LpcmGroup.group1 = .group2 ∧ params.group1Bits = 20) := by simp
  rw [LpcmParams.channelWord, if_pos hs, groupWord, if_neg hneither]
  exact leftAligned_toInt h.bits1 (sourceSample_lt h.bits1)

/-- **So do those of the second group, of 16 or 24 bits.** -/
theorem channelWord_group2 (h : params.Valid) {t s : ℕ} (hs : params.group1Channels ≤ s) (hbits : params.group2Bits.getD params.group1Bits ≠ 20) :
    (params.channelWord data n t s).toInt =
      sourceNumber (params.group2Block data n) params.group2Channels (params.group2Bits.getD params.group1Bits)
          (t * params.group2Channels + (s - params.group1Channels)) *
        2 ^ (32 - params.group2Bits.getD params.group1Bits) := by
  rw [LpcmParams.channelWord, if_neg (not_lt.2 hs), groupWord, if_neg fun hboth => hbits hboth.2]
  exact leftAligned_toInt h.bits2_getD (sourceSample_lt h.bits2_getD)

/-- The low four bits of a 20-bit sample of the second group stay four bits to the right of where they belong. -/
theorem channelWord_group2_20 {t s : ℕ} (hs : params.group1Channels ≤ s) (hbits : params.group2Bits.getD params.group1Bits = 20) :
    (params.channelWord data n t s).toNat =
      highBits (params.group2Block data n) (t * params.group2Channels + (s - params.group1Channels)) * 2 ^ 16 +
        lowNibble (params.group2Block data n) params.group2Channels (t * params.group2Channels + (s - params.group1Channels)) * 2 ^ 8 := by
  have hhigh := highBits_lt (params.group2Block data n) (t * params.group2Channels + (s - params.group1Channels))
  have hlow := lowNibble_lt (params.group2Block data n) params.group2Channels (t * params.group2Channels + (s - params.group1Channels))
  rw [LpcmParams.channelWord, if_neg (not_lt.2 hs), groupWord, if_pos ⟨rfl, hbits⟩, BitVec.toNat_add,
    leftAligned_toNat (.inl rfl) hhigh, BitVec.toNat_ofNat]
  omega

/-- **Unpacking does not see packet boundaries.** However a stream is cut into packets of the first one's format, it is unpacked
step by step, each step with its two instants of the first group and the last instants read of the second; the samples are left-aligned and
sign-exact, but for the low bits of a 20-bit second group; the statistics are those of one packet, but for the number of
packets and the last header; and the end is reached without an error when no bytes of a step are left. -/
theorem unpacks_packets {expectation : LpcmStreamExpectation} {header : DvdaPcmSubHeader} (policy : DvdaChannelOrderPolicy) (payload : List UInt8)
    (packets : List (DvdaPcmSubHeader × List UInt8)) (hparams : DvdAudioLpcmDecoder.firstParams expectation header = .ok params)
    (hsame : ∀ packet ∈ packets, header.SameFormat packet.1) :
    ∃ split whole : DvdAudioLpcmDecoder, ∃ data : List UInt8, ∃ steps : ℕ, data = payload ++ payloads packets ∧ steps = params.stepCount data.length ∧
      (decoderFor expectation policy).decodePackets ((header, payload) :: packets) = .ok (split, params.unpacked policy data) ∧
      (decoderFor expectation policy).decodePacket header data = .ok (whole, params.unpacked policy data) ∧
      split = { whole with stats := { whole.stats with
        packets := min (packets.length + 1) u64Max, lastHeader := some ((packets.map Prod.fst).getLastD header) } } ∧
      whole.stats = {
        packets := 1, payloadBytes := min data.length u64Max, bytesDecoded := min (params.stepStart steps) u64Max
        samplesPerChannel := min (2 * steps) u64Max, firstHeader := some header, lastHeader := some header, formatChangeCount := 0
        firstAudioFramePointer := some header.firstAudioFrame, group2BlocksRead := min (params.blocksRead steps) u64Max
        group2BlocksRepeated := min (params.blocksRepeated steps) u64Max, channelOrderPolicy := policy } ∧
      (params.stepStart steps ≤ data.length ∧ data.length < params.stepStart (steps + 1)) ∧
      (split.finish = .ok split.stats ↔ params.stepStart steps = data.length) ∧
      (whole.finish = .ok whole.stats ↔ params.stepStart steps = data.length) ∧
      (params.outputChannelIndices policy).Perm (List.range (params.group1Channels + params.group2Channels)) ∧
      (∀ j t s, s < params.group1Channels → (params.channelWord data j t s).toInt =
        sourceNumber (params.group1Block data j) params.group1Channels params.group1Bits (t * params.group1Channels + s) *
          2 ^ (32 - params.group1Bits)) ∧
      (∀ j t s, params.group1Channels ≤ s → params.group2Bits.getD params.group1Bits ≠ 20 → (params.channelWord data j t s).toInt =
        sourceNumber (params.group2Block data j) params.group2Channels (params.group2Bits.getD params.group1Bits)
            (t * params.group2Channels + (s - params.group1Channels)) *
          2 ^ (32 - params.group2Bits.getD params.group1Bits)) ∧
      ∀ j t s, params.group1Channels ≤ s → params.group2Bits.getD params.group1Bits = 20 → (params.channelWord data j t s).toNat =
        highBits (params.group2Block data j) (t * params.group2Channels + (s - params.group1Channels)) * 2 ^ 16 +
          lowNibble (params.group2Block data j) params.group2Channels (t * params.group2Channels + (s - params.group1Channels)) * 2 ^ 8 := by
  obtain ⟨hvalid, -⟩ := validate_of_firstParams hparams (DvdaPcmSubHeader.SameFormat.refl header)
  have hsplit : (decoderFor expectation policy).decodePackets ((header, payload) :: packets) = .ok _ :=
    decodePackets_decoderFor hparams hsame rfl
  have hwhole : (decoderFor expectation policy).decodePackets [(header, payload ++ payloads packets)] = .ok _ :=
    decodePackets_decoderFor hparams (fun _ hmem => nomatch hmem) rfl
  have hdata : payloads ((header, payload) :: packets) = payload ++ payloads packets := rfl
  have hdata' : payloads [(header, payload ++ payloads packets)] = payload ++ payloads packets := List.append_nil _
  have hnil : ∀ packet ∈ ([] : List (DvdaPcmSubHeader × List UInt8)), header.SameFormat packet.1 := fun _ hmem => nomatch hmem
  rw [hdata, countPackets_noPackets policy payload hsame] at hsplit
  rw [hdata', countPackets_noPackets policy _ hnil, DvdAudioLpcmDecoder.decodePackets] at hwhole
  obtain ⟨⟨whole, bytes⟩, hpacket, hrest⟩ := bind_eq_ok.1 hwhole
  obtain ⟨hstate, hbytes⟩ := Prod.mk.inj (Except.ok.inj hrest)
  dsimp only at hstate hbytes
  rw [List.append_nil] at hbytes
  obtain ⟨layout, hlayout, hcount1, hcount2⟩ := hvalid.layout
  refine ⟨_, whole, payload ++ payloads packets, _, rfl, rfl, hsplit, hbytes ▸ hpacket, ?_, ?_, params.stepCount_spec hvalid _,
    finish_stateAt hvalid expectation policy _, ?_, ?_, fun j t s hs => channelWord_group1 hvalid hs,
    fun j t s hs hbits => channelWord_group2 hvalid hs hbits, fun j t s hs hbits => channelWord_group2_20 hs hbits⟩
  · rw [hstate, Nat.add_comm packets.length, List.length_append]
    rfl
  · rw [hstate]
    rfl
  · rw [hstate]
    exact finish_stateAt hvalid expectation policy _
  · rw [LpcmParams.outputChannelIndices, hlayout, ← hcount1, ← hcount2]
    exact (layout_spec hlayout policy).2.2

/-- The header of a stream of left, right and a surround channel in a second group, with samples of 20 bits. -/
def sampleHeader : DvdaPcmSubHeader where
  firstAudioFrame := 0
  group1BitsCode := 1
  group2BitsCode := 1
  group1SampleRateCode := 0
  group2SampleRateCode := 0
  group1Bits := some 20
  group2Bits := some 20
  group1SampleRate := some 48000
  group2SampleRate := some 48000
  channelCount := some 3
  channelAssignment := 2
  cci := 0

def anyStream : LpcmStreamExpectation := ⟨none, none, none, none, none, none, none, none, none, none⟩

def sampleParams : LpcmParams where
  sampleRate := 48000
  channelCount := 3
  bitDepth := 20
  blockSize := 15
  samplesPerBlockPerChannel := 2
  group1SampleRate := 48000
  group2SampleRate := some 48000
  group1Channels := 2
  group2Channels := 1
  channelAssignmentCode := 2
  group1Bits := 20
  group2Bits := some 20
  rawGroup1Size := 10
  rawGroup2Size := 5
  rawGroup2Factor := 1

theorem firstParams_sample : DvdAudioLpcmDecoder.firstParams anyStream sampleHeader = .ok sampleParams := rfl

/-- A step of ones: each sample of both groups is the number one. -/
def onesStep : List UInt8 := [0, 0, 0, 0, 0x11, 0, 0, 0, 0, 0, 0, 0, 0, 0x11, 0x11]

theorem ones_unpacked : ∃ split whole : DvdAudioLpcmDecoder, ∃ output : List UInt8,
    (decoderFor anyStream .preserveDvdAudio).decodePackets [(sampleHeader, onesStep.take 7), (sampleHeader, onesStep.drop 7)] = .ok (split, output) ∧
      (decoderFor anyStream .preserveDvdAudio).decodePacket sampleHeader onesStep = .ok (whole, output) ∧
      split.stats.packets = 2 ∧ whole.stats.packets = 1 :=
  have h := unpacks_packets .preserveDvdAudio (onesStep.take 7) [(sampleHeader, onesStep.drop 7)] firstParams_sample
    (fun packet hpacket => by rw [List.mem_singleton.1 hpacket]; exact DvdaPcmSubHeader.SameFormat.refl _)
  let ⟨split, whole, _, _, hdata, _, hsplit, hwhole, heq, hstats, _⟩ := h
  ⟨split, whole, _, hsplit, by rw [hdata] at hwhole ⊢; exact hwhole, by rw [heq]; rfl, by rw [hstats]⟩

/-- The packets are counted, and the samples of the second group that are one come out as a sixteenth of those of the first. -/
theorem ones_not_alike : ∃ split whole : DvdAudioLpcmDecoder, ∃ output : List UInt8,
    (decoderFor anyStream .preserveDvdAudio).decodePackets [(sampleHeader, onesStep.take 7), (sampleHeader, onesStep.drop 7)] = .ok (split, output) ∧
      (decoderFor anyStream .preserveDvdAudio).decodePackets [(sampleHeader, onesStep)] = .ok (whole, output) ∧ split.stats ≠ whole.stats ∧
      output = [0, 0x10, 0, 0, 0, 0x10, 0, 0, 0, 0x01, 0, 0, 0, 0x10, 0, 0, 0, 0x10, 0, 0, 0, 0x01, 0, 0] ∧
      (leftAligned 20 (sourceSample (onesStep.take 5) 1 20 0)).toNat = 0x1000 := by
  have hsame : ∀ packet ∈ [(sampleHeader, onesStep.drop 7)], sampleHeader.SameFormat packet.1 := by
    intro packet hpacket
    rw [List.mem_singleton.1 hpacket]
    exact DvdaPcmSubHeader.SameFormat.refl _
  refine ⟨_, _, _, decodePackets_decoderFor firstParams_sample hsame rfl, decodePackets_decoderFor firstParams_sample (fun _ h => nomatch h) ?_,
    fun heq => ?_, by decide +kernel, by decide +kernel⟩
  · rfl
  · exact absurd (congrArg LpcmDecodeStats.packets heq) (by decide)

end Dvda
