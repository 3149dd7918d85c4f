import Tonepoet.Dvda.LpcmSamples

/-!
# The LPCM decoder does not see packet boundaries

What the decoder writes is a function of the stream alone: step after step, each at the place that the steps before it
leave, the second group read once in every `rawGroup2Factor` steps and repeated in between.
-/

namespace Dvda

open ByteFile Rust

/-! ## The steps of a stream -/

namespace LpcmParams

/-- The bytes of the second group in the step `j`. -/
def group2Size (params : LpcmParams) (j : ℕ) : ℕ :=
  if params.group2Channels ≠ 0 ∧ j % params.rawGroup2Factor = 0 then params.rawGroup2Size else 0

/-- Where the step `j` begins. -/
def stepStart (params : LpcmParams) : ℕ → ℕ
  | 0 => 0
  | j + 1 => params.stepStart j + params.group2Size j + params.rawGroup1Size

/-- The whole steps of a stream of `length` bytes. -/
def stepCount (params : LpcmParams) (length : ℕ) : ℕ := Nat.findGreatest (fun n => params.stepStart n ≤ length) length

/-- The block of the first group in the step `j`. -/
def group1Block (params : LpcmParams) (data : List UInt8) (j : ℕ) : List UInt8 :=
  (data.drop (params.stepStart j + params.group2Size j)).take params.rawGroup1Size

/-- The block of the second group that the step `j` carries: that of the last step that reads one. -/
def group2Block (params : LpcmParams) (data : List UInt8) (j : ℕ) : List UInt8 :=
  (data.drop (params.stepStart (params.rawGroup2Factor * (j / params.rawGroup2Factor)))).take params.rawGroup2Size

/-- The word of the source channel `s` at the instant `t` of the step `j`. -/
def channelWord (params : LpcmParams) (data : List UInt8) (j t s : ℕ) : BitVec 32 :=
  if s < params.group1Channels then
    groupWord .group1 (params.group1Block data j) params.group1Channels params.group1Bits (t * params.group1Channels + s)
  else
    groupWord .group2 (params.group2Block data j) params.group2Channels (params.group2Bits.getD params.group1Bits)
      (t * params.group2Channels + (s - params.group1Channels))

/-- An instant in the order of the output channels. -/
def instantBytes (params : LpcmParams) (policy : DvdaChannelOrderPolicy) (data : List UInt8) (j t : ℕ) : List UInt8 :=
  (params.outputChannelIndices policy).flatMap fun s => leBytes 4 (params.channelWord data j t s).toNat

/-- The two instants of the step `j`. -/
def stepBytes (params : LpcmParams) (policy : DvdaChannelOrderPolicy) (data : List UInt8) (j : ℕ) : List UInt8 :=
  params.instantBytes policy data j 0 ++ params.instantBytes policy data j 1

/-- What a stream is unpacked to. -/
def unpacked (params : LpcmParams) (policy : DvdaChannelOrderPolicy) (data : List UInt8) : List UInt8 :=
  (List.range (params.stepCount data.length)).flatMap (params.stepBytes policy data)

/-- The blocks of the second group that `n` steps read. -/
def blocksRead (params : LpcmParams) (n : ℕ) : ℕ :=
  (List.range n).countP fun j => decide (params.group2Channels ≠ 0 ∧ j % params.rawGroup2Factor = 0)

/-- The steps of `n` that repeat the second group. -/
def blocksRepeated (params : LpcmParams) (n : ℕ) : ℕ :=
  (List.range n).countP fun j => decide (params.group2Channels ≠ 0 ∧ j % params.rawGroup2Factor ≠ 0)

end LpcmParams

variable {params : LpcmParams} {policy : DvdaChannelOrderPolicy} {data cur rest : List UInt8} {d : DvdAudioLpcmDecoder} {j n : ℕ}

namespace LpcmParams

theorem Valid.group1_pos (h : params.Valid) : 0 < params.group1Channels := by
  obtain ⟨layout, hlayout, hcount, -⟩ := h.layout
  rw [← hcount]
  exact (layout_spec hlayout .preserveDvdAudio).1

theorem Valid.size1_pos (h : params.Valid) : 0 < params.rawGroup1Size := by
  have hpos := h.group1_pos
  rw [h.size1]
  rcases h.bits1 with hbits | hbits | hbits <;> rw [hbits] <;> omega

theorem Valid.factor_pos (h : params.Valid) : 0 < params.rawGroup2Factor := by
  have hfactor := h.factor
  rw [groupRateFactor] at hfactor
  split at hfactor
  · rw [← Except.ok.inj hfactor]
    exact Nat.one_pos
  · simp only [error_if_eq_ok] at hfactor
    obtain ⟨hnot, hsome⟩ := hfactor
    rw [not_or, not_or] at hnot
    rw [← Except.ok.inj hsome]
    exact Nat.div_pos (by omega) (by omega)

theorem Valid.factor_one (h : params.Valid) (hzero : params.group2Channels = 0) : params.rawGroup2Factor = 1 := by
  have hfactor := h.factor
  rw [groupRateFactor, if_pos hzero] at hfactor
  exact (Except.ok.inj hfactor).symm

/-- The channel order is one of the channels of both groups. -/
theorem Valid.indices_lt (h : params.Valid) (policy : DvdaChannelOrderPolicy) :
    ∀ s ∈ params.outputChannelIndices policy, s < params.group1Channels + params.group2Channels := by
  obtain ⟨layout, hlayout, hcount1, hcount2⟩ := h.layout
  intro s hs
  rw [outputChannelIndices, hlayout] at hs
  have hmem := (layout_spec hlayout policy).2.2.mem_iff.1 hs
  rw [hcount1, hcount2] at hmem
  exact List.mem_range.1 hmem

theorem nextRawStepSize_eq (params : LpcmParams) (j : ℕ) :
    params.nextRawStepSize (j % params.rawGroup2Factor) = params.group2Size j + params.rawGroup1Size := Nat.add_comm _ _

theorem stepStart_lt (h : params.Valid) (n : ℕ) : params.stepStart n < params.stepStart (n + 1) := by
  have := h.size1_pos
  rw [stepStart]
  omega

theorem le_stepStart (h : params.Valid) (n : ℕ) : n ≤ params.stepStart n := by
  induction n with
  | zero => exact Nat.zero_le _
  | succ n ih => exact ih.trans_lt (stepStart_lt h n)

/-- **The whole steps of a stream**: those that end in it. -/
theorem stepCount_eq (h : params.Valid) {length : ℕ} (hle : params.stepStart n ≤ length) (hlt : length < params.stepStart (n + 1)) :
    params.stepCount length = n := by
  have hmono : StrictMono params.stepStart := strictMono_nat_of_lt_succ (stepStart_lt h)
  rw [stepCount, Nat.findGreatest_eq_iff]
  refine ⟨(le_stepStart h n).trans hle, fun _ => hle, fun {m} hm _ hmle => ?_⟩
  have := hmono.monotone (show n + 1 ≤ m from hm)
  omega

end LpcmParams

/-! ## A frame -/

/-- A frame in the order of the output channels. -/
theorem writeOrderedSplitFrame_eq {frame1 frame2 : List (BitVec 32)} {indices : List ℕ} (h : ∀ s ∈ indices, s < frame1.length + frame2.length) :
    writeOrderedSplitFrame frame1 frame2 indices =
      .ok (indices.flatMap fun s => leBytes 4 ((if s < frame1.length then frame1.getD s 0 else frame2.getD (s - frame1.length) 0)).toNat) := by
  induction indices with
  | nil => rfl
  | cons s indices ih =>
    have hs := h s List.mem_cons_self
    have hsample : (if s < frame1.length then frame1[s]? else frame2[s - frame1.length]?) =
        some (if s < frame1.length then frame1.getD s 0 else frame2.getD (s - frame1.length) 0) := by
      split
      · exact getElem?_getD 0 (by assumption)
      · exact getElem?_getD 0 (by omega)
    simp only [writeOrderedSplitFrame]
    rw [hsample]
    dsimp only
    rw [ih fun r hr => h r (List.mem_cons_of_mem _ hr)]
    rfl

theorem getD_map_range {w : ℕ → BitVec 32} {g s t : ℕ} (hs : s < g) (ht : t < 2) :
    (if t = 0 then ((List.range (2 * g)).map w).take g else ((List.range (2 * g)).map w).drop g).getD s 0 = w (t * g + s) := by
  have hget : ∀ i < 2 * g, ((List.range (2 * g)).map w)[i]? = some (w i) := by
    intro i hi
    rw [List.getElem?_map, List.getElem?_range hi]
    rfl
  rw [List.getD_eq_getElem?_getD]
  split
  · rename_i hzero
    rw [List.getElem?_take_of_lt hs, hget s (by omega), hzero, Nat.zero_mul, Nat.zero_add]
    rfl
  · obtain rfl : t = 1 := by omega
    rw [List.getElem?_drop, hget _ (by omega), Nat.one_mul]
    rfl

/-! ## A step -/

/-- The words of a block. -/
def groupWords (group : LpcmGroup) (block : List UInt8) (channels bits : ℕ) : List (BitVec 32) :=
  (List.range (2 * channels)).map (groupWord group block channels bits)

theorem decodeGroupSamplesInto_eq {block : List UInt8} {channels bits : ℕ} {group : LpcmGroup} (hbits : ValidBits bits)
    (hlength : block.length = channels * bits / 4) :
    decodeGroupSamplesInto block channels bits group = .ok (groupWords group block channels bits) := by
  have hcount : (if bits = 16 then min (2 * channels) (block.length / 2) else 2 * channels) = 2 * channels := by
    split
    · rename_i h16
      rw [h16] at hlength
      omega
    · rfl
  simp only [decodeGroupSamplesInto]
  rw [validateBits_bind_eq_ok, hcount, if_neg (not_not.2 rfl)]
  refine ⟨hbits, congrArg Except.ok (List.map_congr_left fun i hi => ?_)⟩
  exact groupSample_eq hbits hlength (List.mem_range.1 hi)

namespace LpcmParams

/-- The samples of the second group after `n` steps. -/
def group2Words (params : LpcmParams) (data : List UInt8) (n : ℕ) : List (BitVec 32) :=
  if n = 0 then List.replicate (2 * params.group2Channels) 0
  else groupWords .group2 (params.group2Block data (n - 1)) params.group2Channels (params.group2Bits.getD params.group1Bits)

/-- The samples of the first group after `n` steps. -/
def group1Words (params : LpcmParams) (data : List UInt8) (n : ℕ) : List (BitVec 32) :=
  if n = 0 then [] else groupWords .group1 (params.group1Block data (n - 1)) params.group1Channels params.group1Bits

/-- The statistics after `n` steps, where the packets have been counted in `count`. -/
def statsAt (params : LpcmParams) (count : LpcmDecodeStats) (n : ℕ) : LpcmDecodeStats :=
  { count with
    bytesDecoded := min (params.stepStart n) u64Max
    samplesPerChannel := min (2 * n) u64Max
    group2BlocksRead := min (params.blocksRead n) u64Max
    group2BlocksRepeated := min (params.blocksRepeated n) u64Max }

/-- The decoder after `n` steps. -/
def decoderAt (params : LpcmParams) (expectation : LpcmStreamExpectation) (policy : DvdaChannelOrderPolicy) (data : List UInt8)
    (count : LpcmDecodeStats) (n : ℕ) (pending : List UInt8) : DvdAudioLpcmDecoder where
  expectation := expectation
  params := some params
  pending := pending
  stats := params.statsAt count n
  channelOrderPolicy := policy
  rawGroup2Index := n % params.rawGroup2Factor
  group1Samples := params.group1Words data n
  lastGroup2Samples := params.group2Words data n
  outputChannelIndices := some (params.outputChannelIndices policy)

theorem saturatingAdd_min (a b : ℕ) : saturatingAdd (min a u64Max) b = min (a + b) u64Max := by
  rw [saturatingAdd]
  omega

/-- The group's place in the cadence. -/
theorem nextIndex (hpos : 0 < params.rawGroup2Factor) (n : ℕ) :
    (if n % params.rawGroup2Factor + 1 = params.rawGroup2Factor then 0 else n % params.rawGroup2Factor + 1) = (n + 1) % params.rawGroup2Factor := by
  have hlt := Nat.mod_lt n hpos
  have hdiv := Nat.div_add_mod n params.rawGroup2Factor
  split
  · rename_i hwrap
    have hnext : n + 1 = params.rawGroup2Factor * (n / params.rawGroup2Factor + 1) := by
      rw [Nat.mul_add]
      omega
    rw [hnext, Nat.mul_mod_right]
  · rename_i hin
    have hnext : n + 1 = params.rawGroup2Factor * (n / params.rawGroup2Factor) + (n % params.rawGroup2Factor + 1) := by omega
    have hsmall : n % params.rawGroup2Factor + 1 < params.rawGroup2Factor := by omega
    rw [hnext, Nat.mul_add_mod, Nat.mod_eq_of_lt hsmall]

/-- A step that reads no block of the second group repeats the last one. -/
theorem group2Words_repeat (hmod : n % params.rawGroup2Factor ≠ 0) : params.group2Words data (n + 1) = params.group2Words data n := by
  have hne : n ≠ 0 := by
    rintro rfl
    exact hmod (Nat.zero_mod _)
  obtain ⟨m, rfl⟩ := Nat.exists_eq_succ_of_ne_zero hne
  have hdiv : (m + 1) / params.rawGroup2Factor = m / params.rawGroup2Factor := by
    rw [Nat.succ_div, if_neg fun hdvd => hmod (Nat.mod_eq_zero_of_dvd hdvd), Nat.add_zero]
  rw [group2Words, group2Words, if_neg (by omega), if_neg (by omega), Nat.add_sub_cancel, Nat.succ_sub_one, group2Block, group2Block, hdiv]

theorem group2Words_read (hmod : n % params.rawGroup2Factor = 0) :
    params.group2Words data (n + 1) =
      groupWords .group2 ((data.drop (params.stepStart n)).take params.rawGroup2Size) params.group2Channels (params.group2Bits.getD params.group1Bits) := by
  rw [group2Words, if_neg (Nat.succ_ne_zero n), Nat.add_sub_cancel, group2Block, Nat.mul_div_cancel' (Nat.dvd_of_mod_eq_zero hmod)]

theorem group2Words_none (hzero : params.group2Channels = 0) (n m : ℕ) : params.group2Words data n = params.group2Words data m := by
  have hnil : ∀ k, params.group2Words data k = [] := by
    intro k
    rw [group2Words]
    split
    · rw [hzero]
      rfl
    · rw [hzero]
      rfl
  rw [hnil, hnil]

theorem length_group2Words (params : LpcmParams) (data : List UInt8) (n : ℕ) :
    (params.group2Words data n).length = 2 * params.group2Channels := by
  rw [group2Words]
  split
  · exact List.length_replicate
  · rw [groupWords, List.length_map, List.length_range]

theorem blocksRead_succ (params : LpcmParams) (n : ℕ) :
    params.blocksRead (n + 1) = params.blocksRead n + if params.group2Channels ≠ 0 ∧ n % params.rawGroup2Factor = 0 then 1 else 0 := by
  rw [blocksRead, blocksRead, List.range_succ, List.countP_append, List.countP_singleton]
  simp only [decide_eq_true_eq]

theorem blocksRepeated_succ (params : LpcmParams) (n : ℕ) :
    params.blocksRepeated (n + 1) = params.blocksRepeated n + if params.group2Channels ≠ 0 ∧ n % params.rawGroup2Factor ≠ 0 then 1 else 0 := by
  rw [blocksRepeated, blocksRepeated, List.range_succ, List.countP_append, List.countP_singleton]
  simp only [decide_eq_true_eq]

end LpcmParams

/-- **The second group of a step**: it is read or repeated, and what follows it is the block of the first group. -/
theorem stepGroup2_eq (h : params.Valid) {expectation : LpcmStreamExpectation} {count : LpcmDecodeStats} {pending : List UInt8}
    (hle : params.stepStart (n + 1) ≤ data.length) :
    (params.decoderAt expectation policy data count n pending).stepGroup2
        ((data.drop (params.stepStart n)).take (params.nextRawStepSize (n % params.rawGroup2Factor))) params =
      .ok ({ params.decoderAt expectation policy data count (n + 1) pending with
        stats := { params.statsAt count (n + 1) with
          bytesDecoded := min (params.stepStart n) u64Max, samplesPerChannel := min (2 * n) u64Max }
        group1Samples := params.group1Words data n }, params.group1Block data n) := by
  have hstart : params.stepStart (n + 1) = params.stepStart n + params.group2Size n + params.rawGroup1Size := rfl
  rw [LpcmParams.nextRawStepSize_eq, DvdAudioLpcmDecoder.stepGroup2]
  split
  · rename_i hzero
    have hsize : params.group2Size n = 0 := if_neg fun hne => hne.1 hzero
    have hread : params.blocksRead (n + 1) = params.blocksRead n := by
      rw [LpcmParams.blocksRead_succ, if_neg fun hboth => hboth.1 hzero, Nat.add_zero]
    have hrepeated : params.blocksRepeated (n + 1) = params.blocksRepeated n := by
      rw [LpcmParams.blocksRepeated_succ, if_neg fun hboth => hboth.1 hzero, Nat.add_zero]
    have hmod : ∀ k, k % params.rawGroup2Factor = 0 := fun k => by rw [h.factor_one hzero, Nat.mod_one]
    simp only [LpcmParams.decoderAt, LpcmParams.statsAt, hread, hrepeated, hmod, LpcmParams.group2Words_none hzero (n + 1) n,
      LpcmParams.group1Block, hsize, Nat.zero_add, Nat.add_zero]
  · rename_i hne
    have hindex : (params.decoderAt expectation policy data count n pending).rawGroup2Index = n % params.rawGroup2Factor := rfl
    rw [hindex]
    by_cases hmod : n % params.rawGroup2Factor = 0
    · have hsize : params.group2Size n = params.rawGroup2Size := if_pos ⟨hne, hmod⟩
      have hsize2 := h.size2
      have hread : params.blocksRead (n + 1) = params.blocksRead n + 1 := by rw [LpcmParams.blocksRead_succ, if_pos ⟨hne, hmod⟩]
      have hrepeated : params.blocksRepeated (n + 1) = params.blocksRepeated n := by
        rw [LpcmParams.blocksRepeated_succ, if_neg fun hboth => hboth.2 hmod, Nat.add_zero]
      rw [if_neg hne] at hsize2
      rw [hsize] at hstart
      have hblock : ((data.drop (params.stepStart n)).take (params.rawGroup2Size + params.rawGroup1Size)).take params.rawGroup2Size =
          (data.drop (params.stepStart n)).take params.rawGroup2Size := by
        rw [List.take_take, Nat.min_eq_left (Nat.le_add_right _ _)]
      have hrest : ((data.drop (params.stepStart n)).take (params.rawGroup2Size + params.rawGroup1Size)).drop params.rawGroup2Size =
          params.group1Block data n := by
        rw [List.drop_take, List.drop_drop, Nat.add_sub_cancel_left, LpcmParams.group1Block, hsize]
      have hlength : ((data.drop (params.stepStart n)).take params.rawGroup2Size).length =
          params.group2Channels * (params.group2Bits.getD params.group1Bits) / 4 := by
        rw [List.length_take, List.length_drop, ← hsize2]
        omega
      rw [if_pos hmod, hsize, hblock, hrest, decodeGroupSamplesInto_eq h.bits2_getD hlength, ← LpcmParams.group2Words_read hmod]
      simp only [LpcmParams.decoderAt, LpcmParams.statsAt, hread, hrepeated, ← LpcmParams.nextIndex h.factor_pos n,
        ← LpcmParams.saturatingAdd_min _ 1]
      rfl
    · have hsize : params.group2Size n = 0 := if_neg fun hboth => hmod hboth.2
      have hread : params.blocksRead (n + 1) = params.blocksRead n := by
        rw [LpcmParams.blocksRead_succ, if_neg fun hboth => hmod hboth.2, Nat.add_zero]
      have hrepeated : params.blocksRepeated (n + 1) = params.blocksRepeated n + 1 := by
        rw [LpcmParams.blocksRepeated_succ, if_pos ⟨hne, hmod⟩]
      have hrest : (data.drop (params.stepStart n)).take (0 + params.rawGroup1Size) = params.group1Block data n := by
        rw [LpcmParams.group1Block, hsize, Nat.zero_add, Nat.add_zero]
      rw [if_neg hmod, hsize, hrest]
      simp only [LpcmParams.decoderAt, LpcmParams.statsAt, hread, hrepeated, ← LpcmParams.nextIndex h.factor_pos n,
        ← LpcmParams.saturatingAdd_min _ 1, LpcmParams.group2Words_repeat hmod]
      rfl

theorem length_group1Block (hle : params.stepStart (n + 1) ≤ data.length) : (params.group1Block data n).length = params.rawGroup1Size := by
  rw [LpcmParams.stepStart] at hle
  rw [LpcmParams.group1Block, List.length_take, List.length_drop]
  omega

/-- The two instants of a step. -/
theorem writeReferenceInterleave_eq (h : params.Valid) (policy : DvdaChannelOrderPolicy) :
    writeReferenceInterleave (params.group1Words data (n + 1)) (params.group2Words data (n + 1)) params (params.outputChannelIndices policy) =
      .ok (params.stepBytes policy data n) := by
  have hlength1 : (params.group1Words data (n + 1)).length = 2 * params.group1Channels := by
    rw [LpcmParams.group1Words, if_neg (Nat.succ_ne_zero n), groupWords, List.length_map, List.length_range]
  have hlength2 := params.length_group2Words data (n + 1)
  have hwords1 : params.group1Words data (n + 1) = groupWords .group1 (params.group1Block data n) params.group1Channels params.group1Bits := rfl
  have hwords2 : params.group2Words data (n + 1) =
    groupWords .group2 (params.group2Block data n) params.group2Channels (params.group2Bits.getD params.group1Bits) := rfl
  have hindices := h.indices_lt policy
  -- the halves of the groups are the instants
  have hinstant : ∀ t < 2,
      writeOrderedSplitFrame
          (if t = 0 then (params.group1Words data (n + 1)).take params.group1Channels else (params.group1Words data (n + 1)).drop params.group1Channels)
          (if t = 0 then (params.group2Words data (n + 1)).take params.group2Channels else (params.group2Words data (n + 1)).drop params.group2Channels)
          (params.outputChannelIndices policy) = .ok (params.instantBytes policy data n t) := by
    intro t ht
    have hhalf1 : (if t = 0 then (params.group1Words data (n + 1)).take params.group1Channels
        else (params.group1Words data (n + 1)).drop params.group1Channels).length = params.group1Channels := by
      split <;> simp only [List.length_take, List.length_drop, hlength1] <;> omega
    have hhalf2 : (if t = 0 then (params.group2Words data (n + 1)).take params.group2Channels
        else (params.group2Words data (n + 1)).drop params.group2Channels).length = params.group2Channels := by
      split <;> simp only [List.length_take, List.length_drop, hlength2] <;> omega
    rw [writeOrderedSplitFrame_eq (by rw [hhalf1, hhalf2]; exact hindices), hhalf1, LpcmParams.instantBytes]
    refine congrArg Except.ok (List.flatMap_congr fun s hs => congrArg (fun word => leBytes 4 (BitVec.toNat word)) ?_)
    rw [LpcmParams.channelWord]
    split
    · rw [hwords1, groupWords, getD_map_range (by assumption) ht]
    · have := hindices s hs
      rw [hwords2, groupWords, getD_map_range (by omega) ht]
  have h0 := hinstant 0 (by omega)
  have h1 := hinstant 1 (by omega)
  simp only [reduceIte, one_ne_zero] at h0 h1
  simp only [writeReferenceInterleave]
  rw [if_neg (by rw [hlength1, hlength2]; simp), h0, h1]
  rfl

/-- **A step** writes its two instants. -/
theorem decodeReferenceStep_eq (h : params.Valid) {expectation : LpcmStreamExpectation} {count : LpcmDecodeStats} {pending : List UInt8}
    (hle : params.stepStart (n + 1) ≤ data.length) :
    (params.decoderAt expectation policy data count n pending).decodeReferenceStep
        ((data.drop (params.stepStart n)).take (params.nextRawStepSize (n % params.rawGroup2Factor))) params =
      .ok ({ params.decoderAt expectation policy data count (n + 1) pending with
        stats := { params.statsAt count (n + 1) with
          bytesDecoded := min (params.stepStart n) u64Max, samplesPerChannel := min (2 * n) u64Max } }, params.stepBytes policy data n) := by
  have hblock : (params.group1Block data n).take params.rawGroup1Size = params.group1Block data n :=
    List.take_of_length_le (length_group1Block hle).le
  have hlength : (params.group1Block data n).length = params.group1Channels * params.group1Bits / 4 := (length_group1Block hle).trans h.size1
  have hwords : params.group1Words data (n + 1) = groupWords .group1 (params.group1Block data n) params.group1Channels params.group1Bits := rfl
  rw [DvdAudioLpcmDecoder.decodeReferenceStep, stepGroup2_eq h hle]
  refine bind_eq_ok.2 ⟨_, rfl, ?_⟩
  dsimp only
  rw [hblock, decodeGroupSamplesInto_eq h.bits1 hlength, ← hwords]
  refine bind_eq_ok.2 ⟨_, rfl, bind_eq_ok.2 ⟨_, rfl, ?_⟩⟩
  exact bind_eq_ok.2 ⟨_, writeReferenceInterleave_eq h policy, rfl⟩

end Dvda
