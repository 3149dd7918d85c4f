import Tonepoet.Dst.HeaderSafety
import Tonepoet.Dst.Residuals

/-!
# Decoding is total (dst/decoder.rs:176-367)

What the validators establish is enough for the bit loop: the cursors stay on segments of the tables, the
element numbers inside the tables, the width of the arithmetic decoder in the upper half of its range, and the
output index inside the frame.
-/

namespace Dst

open Rust BitString BitReader Hoare

/-! ## Segment cursors -/

namespace SegmentData

variable {data : SegmentData} {bitsPerChannel : ℕ}

/-- The end of a segment: at most `2 ^ 50` bits behind its start, or the end of the frame. -/
theorem Sane.segmentEnd_sound (h : data.Sane) (hbits : bitsPerChannel ≤ 2 ^ 18) {ch seg count start k : ℕ}
    (hch : ch < maxChannels) (hseg : seg < maxSegments) (hk : k ≤ 8) (hstart : start ≤ 2 ^ 18 + k * 2 ^ 50) :
    Returns Expected (· ≤ 2 ^ 18 + (k + 1) * 2 ^ 50) (data.segmentEndFromStart ch seg count start bitsPerChannel) := by
  unfold segmentEndFromStart
  refine Returns.ite (fun _ => ?_) fun _ => ?_
  · exact Returns.pure (by omega)
  · refine (h.segmentLenBits_sound hch hseg).bind fun len hlen => ?_
    rw [checkedAdd_of_le (by simp only [usizeMax]; omega), okOr_some]
    exact Returns.pure (by omega)

theorem Sane.validateSegment_sound (h : data.Sane) (hbits : bitsPerChannel ≤ 2 ^ 18) {ch seg count tableCount start : ℕ}
    {kind : SegmentKind} (hch : ch < maxChannels) (hseg : seg < maxSegments) (hstart : start ≤ bitsPerChannel) :
    Returns Expected (· ≤ bitsPerChannel) (data.validateSegment ch count bitsPerChannel tableCount kind start seg) := by
  obtain ⟨t, ht⟩ := exists_at2 h.table hch hseg
  unfold validateSegment
  rw [index2_of_at2 ht, pure_bind]
  refine Returns.ite (fun _ => Sound.fail (by cases kind <;> rfl)) fun _ => ?_
  refine (h.segmentEnd_sound hbits hch hseg (Nat.zero_le 8) (by omega)).bind fun stop _ => ?_
  exact Returns.ite (fun _ => Sound.fail rfl) fun hstop => Returns.pure (by omega)

theorem Sane.validateChannel_sound (h : data.Sane) (hbits : bitsPerChannel ≤ 2 ^ 18) {ch tableCount : ℕ} {kind : SegmentKind}
    (hch : ch < maxChannels) : Returns Expected (fun _ => True) (data.validateChannel bitsPerChannel tableCount kind ch) := by
  obtain ⟨n, hn, -, hn8⟩ := h.channel hch
  unfold validateChannel
  rw [index_of_getElem? hn, pure_bind]
  refine Returns.ite (fun _ => Sound.fail rfl) fun _ => ?_
  refine (Sound.forRange (fun _ stop => stop ≤ bitsPerChannel) (Nat.zero_le n) (fun seg _ hseg start hstart =>
    h.validateSegment_sound hbits hch (show seg < maxSegments by omega) hstart) (Nat.zero_le _)).bind fun stop _ => ?_
  exact Returns.ite (fun _ => Sound.fail rfl) fun _ => Returns.pure trivial

theorem Sane.validateDecodeMapping_sound (h : data.Sane) (hbits : bitsPerChannel ≤ 2 ^ 18) {channels tableCount : ℕ}
    {kind : SegmentKind} (h6 : channels ≤ maxChannels) :
    Returns Expected (fun _ => True) (data.validateDecodeMapping channels bitsPerChannel tableCount kind) :=
  Sound.forRange (fun _ _ => True) (Nat.zero_le channels)
    (fun _ _ hch _ _ => h.validateChannel_sound hbits (show _ < maxChannels by omega)) trivial

end SegmentData

/-- A cursor on a segment of its table, whose end is no farther than its number allows. -/
def SegmentCursor.Placed (c : SegmentCursor) : Prop :=
  c.segmentIndex < maxSegments ∧ c.segmentEndBit ≤ 2 ^ 18 + (c.segmentIndex + 1) * 2 ^ 50

namespace SegmentCursorSet

/-- Six placed cursors. -/
structure Placed (cursors : SegmentCursorSet) : Prop where
  length : cursors.length = maxChannels
  cursor : ∀ c ∈ cursors, c.Placed

variable {cursors : SegmentCursorSet} {segments : SegmentData} {bitsPerChannel : ℕ}

theorem Placed.get (h : cursors.Placed) {ch : ℕ} (hch : ch < maxChannels) :
    ∃ c, cursors[ch]? = some c ∧ SegmentCursor.Placed c := by
  have hlt : ch < cursors.length := by rw [h.length]; exact hch
  exact ⟨cursors[ch], List.getElem?_eq_getElem hlt, h.cursor _ (List.getElem_mem hlt)⟩

theorem Placed.set (h : cursors.Placed) (ch : ℕ) {c : SegmentCursor} (hc : c.Placed) : Placed (cursors.set ch c) where
  length := by simpa using h.length
  cursor := by
    intro c' hc'
    rcases List.mem_or_eq_of_mem_set hc' with hc' | rfl
    · exact h.cursor c' hc'
    · exact hc

theorem openChannel_sound (hs : segments.Sane) (hbits : bitsPerChannel ≤ 2 ^ 18) (h : cursors.Placed) {ch : ℕ}
    (hch : ch < maxChannels) : Returns Expected Placed (openChannel segments bitsPerChannel cursors ch) := by
  obtain ⟨n, hn, -⟩ := hs.channel hch
  obtain ⟨c, hc, hplaced⟩ := h.get hch
  unfold openChannel
  rw [index_of_getElem? hn, pure_bind, index_of_getElem? hc, pure_bind]
  refine (hs.segmentEnd_sound hbits hch (show 0 < maxSegments by decide) (Nat.zero_le 8) (Nat.zero_le _)).bind fun stop hstop => ?_
  rw [assign_of_lt (by rw [h.length]; exact hch)]
  have hend : stop ≤ 2 ^ 18 + (c.segmentIndex + 1) * 2 ^ 50 :=
    hstop.trans (Nat.add_le_add_left (Nat.mul_le_mul_right _ (Nat.add_le_add_right (Nat.zero_le _) 1)) _)
  exact Returns.pure (h.set ch ⟨hplaced.1, hend⟩)

theorem new_sound (hs : segments.Sane) (hbits : bitsPerChannel ≤ 2 ^ 18) {channels tableCount : ℕ} {kind : SegmentKind}
    (h6 : channels ≤ maxChannels) : Returns Expected Placed (new segments channels bitsPerChannel tableCount kind) := by
  unfold new
  refine (hs.validateDecodeMapping_sound hbits h6).bind fun _ _ => ?_
  refine Sound.forRange (fun _ cs => Placed cs) (Nat.zero_le channels)
    (fun ch _ hch cs hcs => openChannel_sound hs hbits hcs (show ch < maxChannels by omega)) ⟨List.length_replicate, ?_⟩
  intro c hc
  obtain rfl := List.eq_of_mem_replicate hc
  exact ⟨by decide, Nat.zero_le _⟩

/-- The `while` of `table_for_bit` moves over the segments that are left. -/
theorem seek_sound (hs : segments.Sane) (hbits : bitsPerChannel ≤ 2 ^ 18) {ch bitIndex count : ℕ} (hch : ch < maxChannels)
    (hcount : count ≤ maxSegments) (c : SegmentCursor) (hc : c.Placed) :
    Returns Expected SegmentCursor.Placed (seek segments ch bitIndex bitsPerChannel count c) := by
  have h8 : count ≤ 8 := hcount
  rw [seek]
  split
  case isTrue hmore =>
    refine (hs.segmentEnd_sound hbits hch (show c.segmentIndex + 1 < maxSegments by omega)
      (show c.segmentIndex + 1 ≤ 8 by omega) hc.2).bind fun stop hstop => ?_
    exact seek_sound hs hbits hch hcount ⟨c.segmentIndex + 1, c.segmentEndBit, stop⟩
      ⟨show c.segmentIndex + 1 < maxSegments by omega, hstop⟩
  case isFalse => exact hc
termination_by count - c.segmentIndex

/-- **A cursor yields a table of the map.** -/
theorem tableForBit_sound (hs : segments.Sane) (hbits : bitsPerChannel ≤ 2 ^ 18) (h : cursors.Placed)
    {ch bitIndex tableCount : ℕ} {kind : SegmentKind} (hch : ch < maxChannels) :
    Returns Expected (fun out => out.1 < tableCount ∧ Placed out.2)
      (tableForBit cursors segments ch bitIndex bitsPerChannel tableCount kind) := by
  obtain ⟨n, hn, -, hn8⟩ := hs.channel hch
  obtain ⟨c, hc, hplaced⟩ := h.get hch
  unfold tableForBit
  rw [index_of_getElem? hn, pure_bind, index_of_getElem? hc, pure_bind]
  refine (seek_sound hs hbits hch hn8 c hplaced).bind fun c' hc' => ?_
  rw [assign_of_lt (by rw [h.length]; exact hch), pure_bind]
  refine Returns.ite (fun _ => Sound.fail rfl) fun _ => ?_
  obtain ⟨t, ht⟩ := exists_at2 hs.table hch hc'.1
  rw [index2_of_at2 ht, pure_bind]
  refine Returns.ite (fun _ => Sound.fail (by cases kind <;> rfl)) fun hlt => ?_
  exact Returns.pure ⟨by omega, h.set ch hc'⟩

end SegmentCursorSet

/-! ## The arithmetic decoder -/

namespace ArithmeticCoder

/-- The width is in the upper half of its twelve bits. -/
def Wide (s : ArithmeticCoder) : Prop := 2048 ≤ s.a ∧ s.a ≤ 4095

/-- The coders a decoder goes through: the one it starts with, and the one after each symbol. -/
inductive Reached : ArithmeticCoder → Prop
  | new {r t : BitReader} {s : ArithmeticCoder} (h : ArithmeticCoder.new r = .ok (s, t)) : Reached s
  | get {r t : BitReader} {s s' : ArithmeticCoder} {probability : ℤ} {bit : Bool} (hs : Reached s)
      (h : ArithmeticCoder.get s probability r = .ok ((bit, s'), t)) : Reached s'

/-- One symbol of a wide coder: both parts of the interval are non-empty, no shift leaves the registers, and what is read
    afterwards refills at most eleven bits. -/
theorem Wide.get_eq {s : ArithmeticCoder} (hs : s.Wide) {probability : ℤ} (hp : 1 ≤ probability ∧ probability ≤ 128) :
    ∃ bit a c n, n ≤ 11 ∧ (2048 ≤ a ∧ a ≤ 4095) ∧
      get s probability = (do let low ← readBits n; return (bit, ⟨a, c ||| low⟩)) := by
  have hzero : ∀ {α : Type} (f : ℕ → Parse α), (readBits 0 >>= f) = f 0 := fun _ => rfl
  obtain ⟨p, rfl⟩ := Int.eq_ofNat_of_zero_le (show 0 ≤ probability by omega)
  have hnormal : IntervalCoder.Normal 12 s.a := ⟨hs.1, by have := hs.2; omega⟩
  obtain ⟨hq0, hq1⟩ := ArithmeticBitEncoder.symbol_fits false (show 1 ≤ p by omega) (show p ≤ 128 by omega) s.a hnormal
  simp only [ArithmeticBitEncoder.symbol] at hq0 hq1
  obtain ⟨q, hq⟩ : ∃ q, splitWidth p s.a = q := ⟨_, rfl⟩
  have hqk : (s.a >>> 8 ||| s.a >>> 7 &&& 1) * p = q := hq
  rw [hq] at hq0 hq1
  have hmax := hs.2
  obtain ⟨bit, hbit⟩ : ∃ bit, decide (s.c < s.a - q) = bit := ⟨_, rfl⟩
  obtain ⟨a, ha⟩ : ∃ a, (if bit = true then s.a - q else q) = a := ⟨_, rfl⟩
  obtain ⟨c, hc⟩ : ∃ c, (if bit = true then s.c else s.c - (s.a - q)) = c := ⟨_, rfl⟩
  have ha0 : 0 < a := by rw [← ha]; split <;> omega
  have ha1 : a < 4096 := by rw [← ha]; split <;> omega
  unfold get
  rw [if_neg (not_not.2 hp)]
  simp only [Int.toNat_natCast, hqk, if_pos (show q < 2 ^ 32 by omega), okOr_some, pure_bind,
    checkedSub_of_le hq1.le, hbit, ha, hc, if_neg ha0.ne']
  by_cases hhalf : a < arithmeticHalf
  · have hn : 11 - Nat.log2 a = IntervalCoder.renorm 12 a := by rw [IntervalCoder.renorm, Nat.log2_eq_log_two]
    have hn11 : IntervalCoder.renorm 12 a ≤ 11 := by unfold IntervalCoder.renorm; omega
    obtain ⟨hlo, hhi⟩ := IntervalCoder.renorm_normal (w := 12) (by omega) ha0 ha1
    have hshift : checkedShl a (IntervalCoder.renorm 12 a) = some (a * 2 ^ IntervalCoder.renorm 12 a) := by
      rw [checkedShl, if_pos (by omega), Nat.shiftLeft_eq, Nat.mod_eq_of_lt (by omega)]
    refine ⟨bit, a * 2 ^ IntervalCoder.renorm 12 a, (c <<< IntervalCoder.renorm 12 a) % 2 ^ 32, _, hn11, ⟨hlo, by omega⟩, ?_⟩
    rw [if_pos hhalf, hn, hshift, okOr_some, pure_bind, checkedShl, if_pos (by omega), okOr_some, pure_bind]
  · refine ⟨bit, a, c, 0, by omega, ⟨not_lt.1 hhalf, by omega⟩, ?_⟩
    rw [if_neg hhalf, hzero, Nat.or_zero]

theorem get_safe {s : ArithmeticCoder} (hs : s.Wide) (probability : ℤ) :
    Safe (fun out => out.2.Wide) 11 (get s probability) := by
  by_cases hp : 1 ≤ probability ∧ probability ≤ 128
  · obtain ⟨bit, a, c, n, hn, ha, hget⟩ := hs.get_eq hp
    rw [hget]
    exact (readBits_safe (by omega)).bind hn fun low _ => Safe.pure ha
  · rw [get, if_pos hp]
    exact Safe.fail rfl

theorem new_safe : Safe Wide 12 new := by
  intro r hr
  refine (readBits_safe (n := 12) (by omega)).bind le_rfl (fun c _ => Safe.pure ⟨show 2048 ≤ 4095 by decide, le_refl 4095⟩)
    { r with zeroPadAfterEof := true } ⟨hr.fits, hr.left⟩

/-- **Between two symbols the width has its leading bit.** -/
theorem Reached.wide {s : ArithmeticCoder} (h : Reached s) : s.Wide := by
  induction h with
  | @new r t s h =>
    have hmeets : Meets (fun _ => True) (fun s _ => s.Wide) ArithmeticCoder.new r :=
      (Meets.any _ r).bind fun _ _ _ => (Meets.any _ _).bind fun c _ _ => Meets.pure ⟨show 2048 ≤ 4095 by decide, le_refl 4095⟩
    exact hmeets.of_ok h
  | @get r t s s' probability bit hs h ih =>
    by_cases hp : 1 ≤ probability ∧ probability ≤ 128
    · obtain ⟨bit', a, c, n, -, ha, hget⟩ := ih.get_eq hp
      have hmeets : Meets (fun _ => True) (fun out _ => out.2.Wide) (ArithmeticCoder.get s probability) r := by
        rw [hget]
        exact (Meets.any _ r).bind fun low _ _ => Meets.pure ha
      exact hmeets.of_ok h
    · rw [ArithmeticCoder.get, if_pos hp] at h
      cases h

end ArithmeticCoder

/-! ## The bit loop -/

/-- A decoder as `new` builds it. -/
structure DstDecoder.Built (d : DstDecoder) : Prop where
  channels : 1 ≤ d.channelCount ∧ d.channelCount ≤ maxChannels
  bytes : 128 ≤ d.frameBytesPerChannel ∧ d.frameBytesPerChannel ≤ 2 ^ 15
  bits : d.frameBitsPerChannel = d.frameBytesPerChannel * 8

/-- What the bit loop keeps. -/
structure DecodeState.Kept (d : DstDecoder) (s : DecodeState) : Prop where
  wide : s.arithmetic.Wide
  filter : s.filterCursor.Placed
  probability : s.probabilityCursor.Placed
  status : s.status.length = maxChannels
  out : s.out.length = d.frameBytesPerChannel * d.channelCount

namespace DstDecoder

variable {d : DstDecoder} {syn : CompressedSyntax}

theorem Built.frame_le (h : d.Built) : d.frameBytesPerChannel * d.channelCount ≤ 2 ^ 15 * 6 :=
  Nat.mul_le_mul h.bytes.2 h.channels.2

theorem Built.frame_le_usizeMax (h : d.Built) : d.frameBytesPerChannel * d.channelCount ≤ usizeMax := h.frame_le.trans (by decide)

theorem Built.bits_le (h : d.Built) : d.frameBitsPerChannel ≤ 2 ^ 18 := by
  rw [h.bits]
  have := h.bytes.2
  omega

/-- The probability that `residual_probability` finds is one of the coder's. -/
theorem residualProbability_sound (h : d.Built) (hs : syn.Sane) {cursor : SegmentCursorSet} (hc : cursor.Placed)
    {bitIndex ch : ℕ} (hch : ch < maxChannels) (predict : ℤ) :
    Returns Expected (fun out => (1 ≤ out.1 ∧ out.1 ≤ 128) ∧ out.2.Placed)
      (d.residualProbability syn cursor bitIndex ch predict) := by
  have hhalf : ch < syn.halfProbability.length := by rw [hs.half]; exact hch
  have hbits : ch < syn.halfProbabilityBits.length := by rw [hs.halfBits]; exact hch
  unfold residualProbability
  rw [index_of_getElem? (List.getElem?_eq_getElem hhalf), pure_bind, index_of_getElem? (List.getElem?_eq_getElem hbits), pure_bind]
  refine Returns.ite (fun _ => Returns.pure ⟨⟨by norm_num, le_rfl⟩, hc⟩) fun _ => ?_
  refine (SegmentCursorSet.tableForBit_sound hs.probabilitySegments h.bits_le hc hch).bind fun out hout => ?_
  obtain ⟨element, cursor'⟩ := out
  have hel := hs.probabilityElements
  have helement : element < maxElements := hout.1.trans_le hel
  have hlt : element < syn.probabilityTables.length.length := by rw [hs.probabilityTables.shaped.length]; exact helement
  simp only [index_of_getElem? (List.getElem?_eq_getElem hlt), pure_bind]
  refine Returns.ite (fun _ => Sound.fail rfl) fun hpos => ?_
  have hlen := hs.probabilityTables.len _ _ (List.getElem?_eq_getElem hlt)
  obtain ⟨z, hz⟩ := exists_at2 hs.probabilityTables.shaped.coeff helement
    (show min (predict.natAbs >>> 3) (syn.probabilityTables.length[element] - 1) < maxTableLen by omega)
  rw [index2_of_at2 hz, pure_bind]
  exact Returns.ite (fun _ => Sound.fail rfl) fun hok => Returns.pure ⟨not_not.1 hok, hout.2⟩

theorem checkedDecodedOutputIndex_sound {byteBase ch outputLen : ℕ} (h : byteBase + ch < outputLen) (hmax : outputLen ≤ usizeMax) :
    Returns Expected (fun _ => True) (checkedDecodedOutputIndex byteBase ch outputLen) := by
  unfold checkedDecodedOutputIndex
  rw [checkedAdd_of_le (by omega), okOr_some, pure_bind, if_neg (by omega)]
  exact Returns.pure trivial

/-- One residual bit. -/
theorem decodeBit_safe (h : d.Built) (hs : syn.Sane) {bitIndex byteBase ch : ℕ} (hch : ch < d.channelCount)
    (hindex : byteBase + ch < d.frameBytesPerChannel * d.channelCount)
    (hmax : d.frameBytesPerChannel * d.channelCount ≤ usizeMax) {s : DecodeState} (hk : s.Kept d) :
    Safe (fun s' => s'.Kept d) 11 (d.decodeBit syn (filterTables syn.filterTables) bitIndex byteBase s ch) := by
  have hch6 : ch < maxChannels := by have := h.channels.2; omega
  unfold decodeBit
  refine (Safe.lift (c := 0) (SegmentCursorSet.tableForBit_sound hs.filterSegments h.bits_le hk.filter hch6)).bind (by omega)
    fun out hout => ?_
  obtain ⟨element, filterCursor⟩ := out
  have hel := hs.filterElements
  have helement : element < (filterTables syn.filterTables).length := by
    simp only [filterTables, List.length_map, List.length_range]
    exact hout.1.trans_le hel
  have hstatus : ch < s.status.length := by rw [hk.status]; exact hch6
  simp only [index_of_getElem? (List.getElem?_eq_getElem helement), index_of_getElem? (List.getElem?_eq_getElem hstatus), pure_bind]
  refine (Safe.lift (c := 0) (d.residualProbability_sound h hs hk.probability hch6 _)).bind (by omega) fun out hp => ?_
  obtain ⟨probability, probabilityCursor⟩ := out
  refine (ArithmeticCoder.get_safe hk.wide probability).bind (by omega) fun out hwide => ?_
  obtain ⟨residual, arithmetic⟩ := out
  refine (Safe.lift (c := 0) (checkedDecodedOutputIndex_sound (by rw [hk.out]; exact hindex) (by rw [hk.out]; exact hmax))).bind
    (by omega) fun outputIndex _ => ?_
  simp only [assign_of_lt hstatus, pure_bind]
  refine Safe.pure ⟨hwide, hout.2, hp.2, by simpa using hk.status, ?_⟩
  simp only
  split
  · simpa [setOutputBit] using hk.out
  · exact hk.out

/-- One bit of every channel. -/
theorem decodeBits_safe (h : d.Built) (hs : syn.Sane) {bitIndex : ℕ} (hbit : bitIndex < d.frameBitsPerChannel) {s : DecodeState}
    (hk : s.Kept d) : Safe (fun s' => s'.Kept d) 66 (d.decodeBits syn (filterTables syn.filterTables) s bitIndex) := by
  have h6 : d.channelCount ≤ 6 := h.channels.2
  have hmax := h.frame_le_usizeMax
  have hrow : bitIndex >>> 3 + 1 ≤ d.frameBytesPerChannel := by
    rw [Nat.shiftRight_eq_div_pow]
    have := h.bits
    omega
  have hbase : bitIndex >>> 3 * d.channelCount + d.channelCount ≤ d.frameBytesPerChannel * d.channelCount := by
    rw [← Nat.succ_mul]
    exact Nat.mul_le_mul_right _ hrow
  unfold decodeBits
  rw [checkedMul_of_le (by omega), okOr_some, pure_bind]
  refine Safe.forRange (c := 11) (fun _ (s : DecodeState) => s.Kept d) (Nat.zero_le _) (fun ch _ hch s hk => ?_) hk (by omega)
  exact decodeBit_safe h hs hch (by omega) hmax hk

theorem buildFilters_sane (hs : syn.Sane) : buildFilters syn.filterTables = .ok (filterTables syn.filterTables) := by
  refine buildFilters_ok fun element helement i hi => ?_
  have hel : element < maxElements := helement.trans_le hs.filterElements
  have hlt : element < syn.filterTables.length.length := by rw [hs.filterTables.shaped.length]; exact hel
  have hlen := hs.filterTables.len _ _ (getElem?_getD 0 hlt)
  obtain ⟨z, hz⟩ := exists_at2 hs.filterTables.shaped.coeff hel (show i < maxTableLen by omega)
  exact ⟨z, hz, (hs.filterTables.coeff _ _ _ hz).trans (by norm_num)⟩

theorem decodeResiduals_safe (h : d.Built) (hs : syn.Sane) {out : List UInt8}
    (hout : out.length = d.frameBytesPerChannel * d.channelCount) :
    Safe (fun out' => out'.length = d.frameBytesPerChannel * d.channelCount) (2 ^ 25) (d.decodeResiduals syn out) := by
  have hbits := h.bits_le
  unfold decodeResiduals
  refine ArithmeticCoder.new_safe.bind (by omega) fun arithmetic hwide => ?_
  refine (Safe.lift (c := 0) (Q := fun filters => filters = filterTables syn.filterTables) ?_).bind (by omega) fun filters hf => ?_
  · rw [buildFilters_sane hs]
    exact Returns.pure rfl
  subst hf
  refine (Safe.lift (c := 0) (SegmentCursorSet.new_sound hs.filterSegments hbits h.channels.2)).bind (by omega) fun fc hfc => ?_
  refine (Safe.lift (c := 0) (SegmentCursorSet.new_sound hs.probabilitySegments hbits h.channels.2)).bind (by omega) fun pc hpc => ?_
  obtain ⟨z, hz⟩ := exists_at2 hs.filterTables.shaped.coeff (show 0 < maxElements by decide) (show 0 < maxTableLen by decide)
  rw [index2_of_at2 hz, pure_bind]
  refine (ArithmeticCoder.get_safe hwide _).bind (by omega) fun first hfirst => ?_
  refine (Safe.forRange (c := 66) (k := 2 ^ 18 * 66) (fun _ (s : DecodeState) => s.Kept d) (Nat.zero_le _)
    (fun bitIndex _ hbit s hk => decodeBits_safe h hs hbit hk) ?_ ?_).bind (by omega) fun s hk => Safe.pure hk.out
  · exact ⟨hfirst, hfc, hpc, List.length_replicate, hout⟩
  · exact Nat.mul_le_mul_right _ hbits

theorem hasPhysicalBitsRemaining_safe : Safe (fun _ => True) 0 hasPhysicalBitsRemaining := by
  intro r hr
  unfold hasPhysicalBitsRemaining
  apply Meets.get_bind
  refine (okOr_meets (Q := fun _ t => t = r) (fun _ _ => rfl) fun h => ?_).bind ?_
  · rw [checkedMul_of_le hr.fits] at h
    cases h
  · rintro total t rfl
    exact Meets.pure ⟨trivial, rfl, le_rfl⟩

theorem decodeCompressedDstPayload_safe (h : d.Built) {out : List UInt8}
    (hout : out.length = d.frameBytesPerChannel * d.channelCount) :
    Safe (fun out' => out'.length = d.frameBytesPerChannel * d.channelCount) (2 ^ 35) (d.decodeCompressedDstPayload out) := by
  unfold decodeCompressedDstPayload
  refine (CompressedSyntax.read_safe h.channels.1 h.channels.2 h.bytes.2 h.bytes.1).bind (by omega) fun syn hs => ?_
  have htail : Safe (fun out' => out'.length = d.frameBytesPerChannel * d.channelCount) (2 ^ 26) (d.decodeResiduals syn out) :=
    (decodeResiduals_safe h hs hout).mono (by omega) fun _ => id
  refine hasPhysicalBitsRemaining_safe.bind (by omega) fun more _ => ?_
  refine Safe.ite (fun _ => ?_) fun _ => htail.mono (by omega) fun _ => id
  refine readBit_safe.bind (by omega) fun bit _ => ?_
  exact Safe.ite (fun _ => Safe.fail rfl) fun _ => htail.mono (by omega) fun _ => id

/-- A turn of the padding's loop: the end of the slice, or one bit less. -/
theorem readBitBeforeEnd_meets {r : BitReader} (hpad : r.zeroPadAfterEof = false) (hfits : r.input.length * 8 ≤ usizeMax)
    (hpos : r.bitPos < usizeMax) :
    Meets Expected (fun o t => o = none ∨ t = r.advance 1 ∧ r.bitPos < r.input.length * 8) readBitBeforeEnd r := by
  have hread := readBit_meets (r := r) (E := fun fault => ∃ n, fault = .err (.unexpectedEof n)) (fun h => absurd h (by omega))
    (fun h => absurd h (by omega)) fun _ => ⟨_, rfl⟩
  unfold Meets at hread ⊢
  unfold readBitBeforeEnd
  cases hrun : readBit r with
  | ok out =>
    obtain ⟨ht, hrest⟩ := Returns.of_ok hread hrun
    have hlt : r.bitPos < r.input.length * 8 := by
      by_contra hge
      have hnil : r.rest = [] := List.drop_eq_nil_of_le (by rw [length_bitsOf]; omega)
      exact absurd (hrest hpad) (by rw [hnil]; simp)
    simp only [tryCatch, tryCatchThe, MonadExceptOf.tryCatch, bind, StateT.bind, hrun]
    exact .inr ⟨ht, hlt⟩
  | error fault =>
    obtain ⟨n, rfl⟩ := Returns.of_error hread hrun
    simp only [tryCatch, tryCatchThe, MonadExceptOf.tryCatch, bind, StateT.bind, hrun]
    exact .inl rfl

theorem ensureRemainingBitsAreZeroLoop_meets : ∀ (fuel : ℕ) (r : BitReader), r.zeroPadAfterEof = false →
    r.input.length * 8 ≤ usizeMax → r.bitPos < usizeMax → r.input.length * 8 - r.bitPos < fuel →
    Meets Expected (fun _ _ => True) (ensureRemainingBitsAreZeroLoop fuel) r
  | 0, _, _, _, _, hfuel => absurd hfuel (Nat.not_lt_zero _)
  | fuel + 1, r, hpad, hfits, hpos, hfuel => by
    rw [ensureRemainingBitsAreZeroLoop]
    refine (readBitBeforeEnd_meets hpad hfits hpos).bind fun o t ht => ?_
    match o, ht with
    | none, _ => exact Meets.pure trivial
    | some true, _ => exact Meets.throw rfl
    | some false, .inr ⟨ht, hlt⟩ =>
      rw [ht]
      have h8 : r.input.length * 8 < usizeMax := by simp only [usizeMax] at hfits ⊢; omega
      exact ensureRemainingBitsAreZeroLoop_meets fuel (r.advance 1) hpad hfits (show r.bitPos + 1 < usizeMax by omega)
        (show r.input.length * 8 - (r.bitPos + 1) < fuel by omega)

theorem ensureRemainingBitsAreZero_meets {r : BitReader} (hpad : r.zeroPadAfterEof = false)
    (hfits : r.input.length * 8 ≤ usizeMax) (hpos : r.bitPos < usizeMax) :
    Meets Expected (fun _ _ => True) ensureRemainingBitsAreZero r :=
  Meets.get_bind (ensureRemainingBitsAreZeroLoop_meets _ r hpad hfits hpos (Nat.lt_succ_self _))

theorem decodeUncompressedDstPayload_meets {r : BitReader} (hpad : r.zeroPadAfterEof = false) {out : List UInt8}
    (hr : Room r (8 + out.length * 8)) :
    Meets Expected (fun out' _ => out'.length = out.length) (decodeUncompressedDstPayload out) r := by
  unfold decodeUncompressedDstPayload
  refine (readBit_safe.meets_accepts (readBit_accepts hpad) hr (by omega)).bind ?_
  rintro _ t ⟨-, hpad, hr⟩
  refine ((readBits_safe (by omega)).meets_accepts (readBits_accepts 6 hpad) hr (by omega)).bind ?_
  rintro _ t ⟨-, hpad, hr⟩
  have hloop : Safe (fun out' => out'.length = out.length) (out.length * 8) (forRange 0 out.length out fun out i => do
      let v ← readBits 8
      assign out i (UInt8.ofNat v)) := by
    refine Safe.forRange (c := 8) (fun _ (out' : List UInt8) => out'.length = out.length) (Nat.zero_le _) ?_ rfl le_rfl
    intro i _ hi out' hout'
    refine (readBits_safe (by omega)).bind le_rfl fun v _ => ?_
    rw [assign_of_lt (by omega)]
    exact Safe.pure (by simpa using hout')
  have hplain : Accepts (fun _ _ => True) (forRange 0 out.length out fun out i => do
      let v ← readBits 8
      assign out i (UInt8.ofNat v)) t := by
    refine Accepts.forRange (fun _ _ _ => True) (Nat.zero_le _) hpad ?_ trivial
    intro i _ _ out' t' hpad' _
    refine (readBits_accepts 8 hpad').bind fun v u hu _ => ?_
    unfold assign
    exact Meets.ite (fun _ => Accepts.pure hu trivial) fun _ => trivial
  refine (hloop.meets_accepts hplain hr (by omega)).bind ?_
  rintro out' t' ⟨hout', hpad', hr'⟩
  refine (ensureRemainingBitsAreZero_meets hpad' hr'.fits (by have := hr'.left; omega)).bind fun _ _ _ => Meets.pure hout'

theorem new_built (channelCount : ℕ) (rate : DstRate) :
    Returns Expected (fun d => Built d ∧ d.channelCount = channelCount ∧ d.frameBytesPerChannel = 588 * rate.fs44 / 8)
      (new channelCount rate) := by
  have hbytes : rate.frameBytesPerChannel = .ok (588 * rate.fs44 / 8) := by cases rate <;> rfl
  have hbits : rate.frameBitsPerChannel = .ok (588 * rate.fs44 / 8 * 8) := by cases rate <;> rfl
  have hrange : 128 ≤ 588 * rate.fs44 / 8 ∧ 588 * rate.fs44 / 8 ≤ 2 ^ 15 := by cases rate <;> decide
  unfold new validateChannelCount
  refine (Returns.ite (Q := fun n => n = channelCount ∧ 1 ≤ n ∧ n ≤ 6) (fun h => Returns.pure ⟨rfl, h⟩) fun _ => Sound.fail rfl).bind ?_
  rintro n ⟨rfl, h1, h6⟩
  rw [hbytes, hbits]
  exact ⟨⟨⟨h1, h6⟩, hrange, rfl⟩, rfl, rfl⟩

/-- **A frame whose bits can be counted** is decoded, or refused with an error that speaks of the frame. -/
theorem decodeFrameInto_sound (h : d.Built) {input output : List UInt8} (hfits : input.length * 8 ≤ usizeMax) :
    Returns Expected (fun r => r.1 = d.frameBytesPerChannel * d.channelCount ∧ r.2.length = output.length ∧
      r.2.drop r.1 = output.drop r.1) (d.decodeFrameInto input output) := by
  have hsize := h.frame_le
  unfold decodeFrameInto dsdFrameBytes
  rw [checkedMul_of_le h.frame_le_usizeMax, okOr_some, pure_bind]
  refine Returns.ite (fun _ => Sound.fail rfl) fun hbuffer => Returns.ite (fun _ => Sound.fail rfl) fun _ => ?_
  have hroom : Room (BitReader.new input) (2 ^ 36) := ⟨hfits, by simp [BitReader.new, usizeMax]⟩
  have hrun : Meets Expected (fun out _ => out.length = d.frameBytesPerChannel * d.channelCount)
      (do
        if ← readBit then d.decodeCompressedDstPayload (List.replicate (d.frameBytesPerChannel * d.channelCount) 0)
        else decodeUncompressedDstPayload (List.replicate (d.frameBytesPerChannel * d.channelCount) 0))
      (BitReader.new input) := by
    refine (readBit_safe.meets_accepts (readBit_accepts rfl) hroom (by omega)).bind ?_
    rintro coded t ⟨-, hpad, ht⟩
    have hleft := ht.left
    refine Meets.ite (fun _ => ?_) fun _ => ?_
    · exact (decodeCompressedDstPayload_safe h List.length_replicate t ⟨ht.fits, by omega⟩).mono fun _ _ hout => hout.1
    · refine (decodeUncompressedDstPayload_meets hpad ⟨ht.fits, ?_⟩).mono fun _ _ hout => ?_
      · rw [List.length_replicate]
        omega
      · rw [hout, List.length_replicate]
  refine Returns.bind (Q := fun r : List UInt8 × BitReader => r.1.length = d.frameBytesPerChannel * d.channelCount) hrun ?_
  rintro ⟨out, t⟩ hout
  refine Returns.pure ⟨rfl, ?_, ?_⟩
  · rw [List.length_append, List.length_drop, hout]
    omega
  · rw [← hout, List.drop_left]

/-- A longer slice: the reader cannot count its bits. -/
theorem decodeFrameInto_uncountable (h : d.Built) {input output : List UInt8} (hover : usizeMax < input.length * 8)
    (hbuffer : d.frameBytesPerChannel * d.channelCount ≤ output.length) :
    d.decodeFrameInto input output = .error (.err (.internalDecodeError "bit reader input length overflow")) := by
  have hne : input ≠ [] := by
    rintro rfl
    exact absurd hover (by decide)
  have hnone : checkedMul input.length 8 = none := if_neg (not_le.2 hover)
  unfold decodeFrameInto dsdFrameBytes
  rw [checkedMul_of_le h.frame_le_usizeMax, okOr_some, pure_bind, if_neg (not_lt.2 hbuffer), if_neg hne]
  have hread : readBit (BitReader.new input) = .error (.err (.internalDecodeError "bit reader input length overflow")) := by
    simp only [readBit, totalBits, BitReader.new, bind, StateT.bind, get, getThe, MonadStateOf.get, StateT.get, Except.bind,
      pure, Except.pure, hnone]
    rfl
  simp only [StateT.run, bind, StateT.bind, hread, Except.bind]

/-- **`decode_frame_into` is total**: on every byte string, for every channel count and rate, it ends; it writes the
    frame and nothing behind it, or it ends in an error that is none of the internal failures. Only a slice whose
    bits a `usize` cannot count is refused by a `checked_` operation, the reader's first. In between the width
    of the arithmetic decoder has its leading bit. -/
theorem decodeFrameInto_total (channelCount : ℕ) (rate : DstRate) (input output : List UInt8) :
    Returns (fun fault => Expected fault ∨
        usizeMax < input.length * 8 ∧ fault = .err (.internalDecodeError "bit reader input length overflow"))
      (fun r => r.1 = 588 * rate.fs44 / 8 * channelCount ∧ r.2.length = output.length ∧ r.2.drop r.1 = output.drop r.1)
      (do (← new channelCount rate).decodeFrameInto input output) ∧
    ∀ coder, ArithmeticCoder.Reached coder → 2048 ≤ coder.a ∧ coder.a ≤ 4095 := by
  refine ⟨?_, fun coder h => h.wide⟩
  have hnew := new_built channelCount rate
  cases hd : new channelCount rate with
  | error fault => exact .inl (hnew.of_error hd)
  | ok d =>
    obtain ⟨hbuilt, hchannels, hbytes⟩ := hnew.of_ok hd
    rw [ok_bind]
    by_cases hfits : input.length * 8 ≤ usizeMax
    · have h : Returns Expected _ (d.decodeFrameInto input output) := decodeFrameInto_sound hbuilt hfits
      rw [hbytes, hchannels] at h
      cases hrun : d.decodeFrameInto input output with
      | error fault => exact .inl (h.of_error hrun)
      | ok r => exact h.of_ok hrun
    · by_cases hbuffer : d.frameBytesPerChannel * d.channelCount ≤ output.length
      · rw [decodeFrameInto_uncountable hbuilt (not_le.1 hfits) hbuffer]
        exact .inr ⟨not_le.1 hfits, rfl⟩
      · unfold decodeFrameInto dsdFrameBytes
        rw [checkedMul_of_le hbuilt.frame_le_usizeMax, okOr_some, pure_bind, if_pos (not_le.1 hbuffer)]
        exact .inl rfl

/-- With `2 ^ 61` bytes the multiplication by eight that counts the bits overflows. -/
theorem length_overflow : ∃ input output : List UInt8, 588 * DstRate.dsd64.fs44 / 8 * 2 ≤ output.length ∧
    checkedMul input.length 8 = none ∧ (do (← new 2 .dsd64).decodeFrameInto input output) =
      (.error (.err (.internalDecodeError "bit reader input length overflow")) : Outcome DstError (ℕ × List UInt8)) := by
  have hover : usizeMax < (List.replicate (2 ^ 61) (0 : UInt8)).length * 8 := by
    rw [List.length_replicate]
    decide
  refine ⟨List.replicate (2 ^ 61) 0, List.replicate 9408 0, by rw [List.length_replicate]; decide, if_neg (not_le.2 hover), ?_⟩
  have hnew := new_built 2 .dsd64
  cases hd : new 2 .dsd64 with
  | error fault => cases hd
  | ok d =>
    obtain ⟨hbuilt, hchannels, hbytes⟩ := hnew.of_ok hd
    rw [ok_bind]
    exact decodeFrameInto_uncountable hbuilt hover (by rw [hchannels, hbytes, List.length_replicate]; decide)

end DstDecoder
end Dst
