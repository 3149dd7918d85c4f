import Tonepoet.Dst.Residuals

/-!
# The decoder inverts the predictive encoder

The decoder's loop is run against the encoder's walk: at every position both have the same history, so
they predict the same bit and use the same probability; `decodeBit_reads` is the step, `decodeLoop_reads`
the run, and `paint_positions` says that the decoded bits fill the frame.
-/

namespace Dst

open Rust BitString BitReader IntervalCoder

/-! ## The prediction tables agree -/

/-- Eight coefficients of at most 255 stay within sixteen bits, so neither the cast nor the clamp changes the sum. -/
theorem abs_foldl_le {f : ℕ → ℤ} (hf : ∀ i, |f i| ≤ 255) (n : ℕ) :
    |(List.range n).foldl (fun total i => total + f i) 0| ≤ 255 * n := by
  induction n with
  | zero => simp
  | succ n ih =>
    rw [List.range_succ, List.foldl_append, List.foldl_cons, List.foldl_nil]
    calc _ ≤ |(List.range n).foldl (fun total i => total + f i) 0| + |f n| := abs_add_le _ _
      _ ≤ 255 * n + 255 := add_le_add ih (hf n)
      _ = 255 * (n + 1 : ℕ) := by push_cast; ring

theorem filterEntry_eq {t : Table} {element : ℕ} {coeffs : List ℤ} (h : t.Holds element coeffs)
    (hrange : ∀ z ∈ coeffs, -255 ≤ z ∧ z ≤ 255) : filterEntry t element = filterLutRow coeffs := by
  funext byteTap history
  have hlen : t.length.getD element 0 = coeffs.length := by simp [List.getD_eq_getElem?_getD, h.length]
  obtain ⟨n, hn⟩ : ∃ n, min (coeffs.length - byteTap.val * 8) 8 = n := ⟨_, rfl⟩
  obtain ⟨f, hf⟩ : ∃ f : ℕ → ℤ, (fun bit => (if history.toNat.testBit bit then 1 else -1) *
      coeffs.getD (byteTap.val * 8 + bit) 0) = f := ⟨_, rfl⟩
  have hsum : (List.range n).foldl (fun total bit => total + (if history.toNat.testBit bit then 1 else -1) *
      (t.coeff.getD element []).getD (byteTap.val * 8 + bit) 0) (0 : ℤ) =
      (List.range n).foldl (fun total bit => total + f bit) 0 := by
    refine List.foldl_ext _ _ _ fun total bit hbit => ?_
    rw [← hf]
    have hlt : byteTap.val * 8 + bit < coeffs.length := by
      have := List.mem_range.1 hbit
      omega
    have hc := h.coeff _ hlt
    rw [getElem?_getD 0 hlt] at hc
    obtain ⟨row, hrow, hz⟩ := Option.bind_eq_some_iff.1 hc
    simp only [List.getD_eq_getElem?_getD, hrow, Option.getD_some, hz]
  have habs : ∀ i, |f i| ≤ 255 := by
    intro i
    have hz : -255 ≤ coeffs.getD (byteTap.val * 8 + i) 0 ∧ coeffs.getD (byteTap.val * 8 + i) 0 ≤ 255 := by
      by_cases hi : byteTap.val * 8 + i < coeffs.length
      · exact hrange _ (List.mem_of_getElem? (getElem?_getD 0 hi))
      · rw [List.getD_eq_default _ _ (by omega)]
        omega
    rw [← hf, abs_le]
    dsimp only
    split <;> omega
  have hbound := abs_le.1 (abs_foldl_le habs n)
  have hn8 : n ≤ 8 := by omega
  simp only [filterEntry, filterLutRow, hlen, hn, hsum]
  have hsame : (List.range n).foldl (fun total bit => total + (if history.toNat.testBit bit then 1 else -1) *
      coeffs.getD (byteTap.val * 8 + bit) 0) (0 : ℤ) = (List.range n).foldl (fun total bit => total + f bit) 0 := by
    rw [← hf]
  rw [hsame, Int.bmod_eq_of_le (by push_cast; omega) (by push_cast; omega)]
  omega

/-- The decoder's filters are the encoder's tables, padded with zero filters. -/
theorem filterTables_getElem? {t : Table} {filters : List (List ℤ)} (hel : t.elements = filters.length)
    (hmax : filters.length ≤ maxElements) (h : ∀ e (he : e < filters.length), t.Holds e filters[e])
    (hrange : ∀ cs ∈ filters, ∀ z ∈ cs, -255 ≤ z ∧ z ≤ 255) {e : ℕ} (he : e < filters.length) :
    (filterTables t)[e]? = some ((buildFilterLut filters).getD e fun _ _ => 0) := by
  have hrow := filterEntry_eq (h e he) (hrange _ (List.getElem_mem he))
  have hlt : e < maxElements := by omega
  simp [filterTables, buildFilterLut, List.getD_eq_getElem?_getD, hel, he, hlt, hrow]

theorem buildFilters_of_holds {t : Table} {filters : List (List ℤ)} (hel : t.elements = filters.length)
    (h : ∀ e (he : e < filters.length), t.Holds e filters[e]) (hrange : ∀ cs ∈ filters, ∀ z ∈ cs, -255 ≤ z ∧ z ≤ 255) :
    buildFilters t = .ok (filterTables t) := by
  refine buildFilters_ok fun e he i hi => ?_
  rw [hel] at he
  have hold := h e he
  rw [List.getD_eq_getElem?_getD, hold.length, Option.getD_some] at hi
  refine ⟨filters[e][i], by rw [hold.coeff i hi, List.getElem?_eq_getElem hi], ?_⟩
  have := hrange _ (List.getElem_mem he) _ (List.getElem_mem hi)
  rw [abs_le]
  omega

/-! ## Cursors over single segments -/

section Cursors

variable {data : SegmentData} {tables : List ℕ} {count : ℕ}

/-- Every channel's cursor is on its only segment. -/
def AtStart (cursors : SegmentCursorSet) (channels bits : ℕ) : Prop :=
  ∀ ch < channels, cursors[ch]? = some ⟨0, 0, bits⟩

theorem SingleSegment.validateChannel (h : SingleSegment data tables) (bits : ℕ) (kind : SegmentKind) (hlt : ∀ t ∈ tables, t < count) {ch : ℕ}
    (hch : ch < tables.length) : data.validateChannel bits count kind ch = .ok () := by
  have htab := h.table ch hch
  have hmem : tables[ch]? = some tables[ch] := List.getElem?_eq_getElem hch
  have hx := hlt _ (List.getElem_mem hch)
  rw [SegmentData.validateChannel, index_of_getElem? (h.count ch hch), pure_bind, if_neg (by decide), forRange_one,
    SegmentData.validateSegment, index2_of_at2 (htab.trans hmem), pure_bind, if_neg (by omega),
    SegmentData.segmentEndFromStart, if_pos rfl, pure_bind, if_neg (by omega), pure_bind, if_neg (by simp)]
  rfl

theorem SingleSegment.new (h : SingleSegment data tables) (bits : ℕ) (kind : SegmentKind) (hlt : ∀ t ∈ tables, t < count)
    (h6 : tables.length ≤ maxChannels) :
    ∃ cursors, SegmentCursorSet.new data tables.length bits count kind = .ok cursors ∧ AtStart cursors tables.length bits := by
  obtain ⟨u, hu, _⟩ := forRange_inv (fun _ (_ : Unit) => True) (Nat.zero_le tables.length)
    (f := fun _ ch => data.validateChannel bits count kind ch)
    (fun ch _ hch _ _ => ⟨(), h.validateChannel bits kind hlt hch, trivial⟩) (s := ()) trivial
  obtain ⟨cursors, hc, hlen, hat⟩ := forRange_inv
    (fun n (cursors : SegmentCursorSet) => cursors.length = maxChannels ∧ (∀ ch, n ≤ ch → ch < maxChannels →
      cursors[ch]? = some ⟨0, 0, 0⟩) ∧ ∀ ch < n, cursors[ch]? = some ⟨0, 0, bits⟩)
    (Nat.zero_le tables.length) (f := SegmentCursorSet.openChannel data bits) (by
      rintro ch - hch cursors ⟨hlen, hzero, hat⟩
      refine ⟨cursors.set ch ⟨0, 0, bits⟩, ?_, by simpa using hlen, fun k hk hkm => ?_, fun k hk => ?_⟩
      · rw [SegmentCursorSet.openChannel, index_of_getElem? (h.count ch hch), pure_bind,
          index_of_getElem? (hzero ch le_rfl (by omega)), pure_bind, SegmentData.segmentEndFromStart, if_pos rfl,
          pure_bind, assign_of_lt (by omega)]
        rfl
      · rw [List.getElem?_set_ne (by omega)]
        exact hzero k (by omega) hkm
      · by_cases hkc : k = ch
        · subst hkc
          exact List.getElem?_set_self (by omega)
        · rw [List.getElem?_set_ne (Ne.symm hkc)]
          exact hat k (by omega))
    (s := List.replicate maxChannels ⟨0, 0, 0⟩)
    ⟨List.length_replicate, fun ch _ hch => List.getElem?_replicate_of_lt hch, by simp⟩
  refine ⟨cursors, ?_, hat.2⟩
  rw [SegmentCursorSet.new, SegmentData.validateDecodeMapping, hu, ok_bind]
  exact hc

/-- The only segment's table, and an unmoved cursor. -/
theorem SingleSegment.tableForBit (h : SingleSegment data tables) (kind : SegmentKind) (hlt : ∀ t ∈ tables, t < count)
    {bits : ℕ} {cursors : SegmentCursorSet} (hc : AtStart cursors tables.length bits) {ch bitIndex : ℕ} (hch : ch < tables.length)
    (hbit : bitIndex < bits) :
    cursors.tableForBit data ch bitIndex bits count kind = .ok (tables.getD ch 0, cursors) := by
  have hmem := getElem?_getD 0 hch
  have hx := hlt _ (List.mem_of_getElem? hmem)
  have hcur := hc ch hch
  have hlen : ch < cursors.length := (List.getElem?_eq_some_iff.1 hcur).1
  have hset : cursors.set ch ⟨0, 0, bits⟩ = cursors := by
    rw [← (List.getElem?_eq_some_iff.1 hcur).2]
    exact List.set_getElem_self hlen
  rw [SegmentCursorSet.tableForBit, index_of_getElem? (h.count ch hch), pure_bind, index_of_getElem? hcur, pure_bind,
    SegmentCursorSet.seek, dif_neg (by simp), pure_bind, assign_of_lt hlen, hset, pure_bind]
  simp only
  rw [if_neg (by omega), index2_of_at2 ((h.table ch hch).trans hmem), pure_bind, if_neg (by omega)]
  rfl

end Cursors

/-! ## The bit loop -/

def paintBit (channels : ℕ) (out : List UInt8) (p : ℕ × ℕ) (bit : Bool) : List UInt8 :=
  if bit then DstDecoder.setOutputBit out (p.1 >>> 3 * channels + p.2) (7 - p.1 % 8) else out

/-- The output after the walk's bits are painted. -/
def paint (dsd : List UInt8) (channels : ℕ) (out : List UInt8) (ps : List (ℕ × ℕ)) : List UInt8 :=
  ps.foldl (fun out p => paintBit channels out p (actualBit dsd channels p)) out

@[simp] theorem length_paintBit (channels : ℕ) (out : List UInt8) (p : ℕ × ℕ) (bit : Bool) :
    (paintBit channels out p bit).length = out.length := by
  unfold paintBit DstDecoder.setOutputBit
  split <;> simp

/-- What the decoder has read from the header, and the frame the encoder walks over. -/
structure Session (d : DstDecoder) (syn : CompressedSyntax) (dsd : List UInt8) (tables : List ℕ)
    (filters : List (List ℤ)) (probabilities : List (List ℕ)) : Prop where
  bits : d.frameBitsPerChannel = frameBitsPerChannel
  fits : Fits dsd d.channelCount (buildFilterLut filters) tables
  usable : Usable probabilities filters.length
  describes : Describes syn tables filters (probabilities.map (List.map Nat.cast))
  filters_le : filters.length ≤ maxElements
  range : ∀ cs ∈ filters, ∀ z ∈ cs, -255 ≤ z ∧ z ≤ 255

section Loop

variable {d : DstDecoder} {syn : CompressedSyntax} {dsd : List UInt8} {tables : List ℕ} {filters : List (List ℤ)}
  {probabilities : List (List ℕ)} {status : List (List UInt8)} {p : ℕ × ℕ}

theorem Session.usable' (h : Session d syn dsd tables filters probabilities) :
    Usable probabilities (buildFilterLut filters).length := by
  rw [buildFilterLut, List.length_map]
  exact h.usable

theorem Session.table_lt (h : Session d syn dsd tables filters probabilities) : ∀ t ∈ tables, t < filters.length := by
  have := h.fits.table_lt
  rwa [buildFilterLut, List.length_map] at this

/-- The decoder looks up the encoder's probability. -/
theorem residualProbability_ok (h : Session d syn dsd tables filters probabilities) (hp : p ∈ positions d.channelCount)
    {cursor : SegmentCursorSet} (hc : AtStart cursor tables.length frameBitsPerChannel) {c : BitContext}
    (hctx : contextAt dsd d.channelCount (buildFilterLut filters) tables status p = c) :
    d.residualProbability syn cursor p.1 p.2 c.predict = .ok ((probabilityAt probabilities c : ℤ), cursor) := by
  obtain ⟨h1, h2⟩ := mem_grid.1 hp
  have h6 := h.fits.channels_le
  have hhalf : syn.halfProbability[p.2]? = some false := by
    rw [h.describes.half]
    exact List.getElem?_replicate_of_lt (by omega)
  have hbits := getElem?_getD 0 (show p.2 < syn.halfProbabilityBits.length by rw [h.describes.halfBits]; omega)
  have hel : syn.probabilityTables.elements = filters.length := by
    rw [h.describes.probabilityElements, List.length_map, h.usable.length]
  obtain ⟨row, hrow, hne, hentry, hr1, hr2⟩ := h.usable'.probability h.fits status hp
  rw [hctx] at hrow hentry hr1 hr2
  have htable : c.table = tables.getD p.2 0 := by rw [← hctx]; rfl
  obtain ⟨hlt, hget⟩ := List.getElem?_eq_some_iff.1 hrow
  have hholds := h.describes.probability c.table (by simpa using hlt)
  simp only [List.getElem_map, hget] at hholds
  have hpos := List.length_pos_iff.2 hne
  have hidx : min (c.predict.natAbs >>> 3) (row.length - 1) = probabilityBin c.predict row.length := rfl
  have hcoeff : at2 syn.probabilityTables.coeff c.table (probabilityBin c.predict row.length) =
      some ((probabilityAt probabilities c : ℕ) : ℤ) := by
    rw [hholds.coeff _ (by rw [List.length_map]; unfold probabilityBin; omega), List.getElem?_map, hentry]
    rfl
  have hcursor := h.describes.probabilitySegments.tableForBit .probability h.table_lt hc
    (by rw [h.fits.length_tables]; exact h2) h1
  have hl := hholds.length
  rw [List.length_map] at hl
  rw [DstDecoder.residualProbability, index_of_getElem? hhalf, pure_bind, index_of_getElem? hbits, pure_bind,
    if_neg (by simp), h.bits, hel, hcursor, ok_bind]
  simp only
  rw [← htable, index_of_getElem? hl, pure_bind, if_neg (by omega), hidx, index2_of_at2 hcoeff, pure_bind,
    if_neg (by omega)]
  rfl

/-- **One decoded bit.** -/
theorem decodeBit_reads (h : Session d syn dsd tables filters probabilities) (hp : p ∈ positions d.channelCount)
    {fc pc : SegmentCursorSet} (hfc : AtStart fc tables.length frameBitsPerChannel)
    (hpc : AtStart pc tables.length frameBitsPerChannel) (hs : status.length = maxChannels) {out : List UInt8}
    (hout : out.length = frameBytesPerChannel * d.channelCount) {c : BitContext}
    (hctx : contextAt dsd d.channelCount (buildFilterLut filters) tables status p = c) {code : List Bool}
    {st t : State} {dec : Decoder} (hcodes : Codes 12 code t) (hn : Normal 12 st.width)
    (ht : Within t (step 12 st (ArithmeticBitEncoder.symbol c.residual (probabilityAt probabilities c))))
    (hd : Tracks 12 code st dec) :
    ∃ dec', Reads (d.decodeBit syn (filterTables syn.filterTables) p.1 (p.1 >>> 3 * d.channelCount)
          ⟨ArithmeticCoder.ofDecoder dec, fc, pc, status, out⟩ p.2)
        ((code.drop dec.pos).take (dec'.pos - dec.pos))
        ⟨ArithmeticCoder.ofDecoder dec', fc, pc, nextStatus dsd d.channelCount status p,
          paintBit d.channelCount out p (actualBit dsd d.channelCount p)⟩ ∧
      dec.pos ≤ dec'.pos ∧
      Tracks 12 code (step 12 st (ArithmeticBitEncoder.symbol c.residual (probabilityAt probabilities c))) dec' := by
  obtain ⟨h1, h2⟩ := mem_grid.1 hp
  have h6 := h.fits.channels_le
  obtain ⟨_, _, _, _, hr1, hr2⟩ := h.usable'.probability h.fits status hp
  rw [hctx] at hr1 hr2
  obtain ⟨q, hq⟩ : ∃ q, probabilityAt probabilities c = q := ⟨_, rfl⟩
  rw [hq] at hr1 hr2 ht
  obtain ⟨dec', hget, hmono, htr⟩ := ArithmeticCoder.get_symbol hr1 hr2 hcodes hn ht hd
  have hfel : syn.filterTables.elements = filters.length := h.describes.filterElements
  have hcursor := h.describes.filterSegments.tableForBit .filter h.table_lt hfc
    (by rw [h.fits.length_tables]; exact h2) h1
  have hlt : tables.getD p.2 0 < filters.length := by
    have := (h.fits.table_mem hp).2
    rwa [buildFilterLut, List.length_map] at this
  have hfilter := filterTables_getElem? hfel h.filters_le h.describes.filter h.range hlt
  have hstat := getElem?_status hs h6 hp
  have hpredict : predictFromLut ((buildFilterLut filters).getD (tables.getD p.2 0) fun _ _ => 0) (status.getD p.2 []) =
      c.predict := by rw [← hctx]; rfl
  have hprob := residualProbability_ok h hp hpc hctx
  have hactual : (predictedBit c.predict ^^ c.residual) = actualBit dsd d.channelCount p := by
    rw [← hctx]
    simp only [contextAt, ← Bool.xor_assoc, Bool.xor_self, Bool.false_xor]
  have hidx := byteIndex_lt hp
  have hmax : p.1 >>> 3 * d.channelCount + p.2 ≤ usizeMax := by
    have : frameBytesPerChannel * d.channelCount ≤ frameBytesPerChannel * maxChannels := Nat.mul_le_mul_left _ h6
    simp only [frameBytesPerChannel, maxChannels, usizeMax] at this hidx ⊢
    omega
  have hindex : checkedDecodedOutputIndex (p.1 >>> 3 * d.channelCount) p.2 out.length =
      .ok (p.1 >>> 3 * d.channelCount + p.2) := by
    rw [checkedDecodedOutputIndex, checkedAdd_of_le hmax, okOr_some, pure_bind, if_neg (by omega)]
    rfl
  refine ⟨dec', ?_, hmono, hq ▸ htr⟩
  rw [DstDecoder.decodeBit]
  simp only
  rw [h.bits, hfel]
  refine (Reads.lift hcursor).seq ?_ (List.nil_append _).symm
  simp only
  rw [index_of_getElem? hfilter, pure_bind, index_of_getElem? hstat, pure_bind, hpredict]
  refine (Reads.lift hprob).seq ?_ (List.nil_append _).symm
  simp only [hq]
  refine hget.seq ?_ (List.append_nil _).symm
  simp only [hactual]
  refine (Reads.lift hindex).seq ?_ rfl
  rw [assign_of_lt (by omega), pure_bind]
  exact Reads.pure _

/-- **The bit loop.** A decoder that tracks the encoder's interval reads the rest of the walk's symbols and
    paints the frame's bits. -/
theorem decodeLoop_reads (h : Session d syn dsd tables filters probabilities) {fc pc : SegmentCursorSet}
    (hfc : AtStart fc tables.length frameBitsPerChannel) (hpc : AtStart pc tables.length frameBitsPerChannel)
    {code : List Bool} {t : State} (hcodes : Codes 12 code t) :
    ∀ (ps : List (ℕ × ℕ)) (status : List (List UInt8)) (out : List UInt8) {st : State} {dec : Decoder},
      (∀ p ∈ ps, p ∈ positions d.channelCount) → status.length = maxChannels →
      out.length = frameBytesPerChannel * d.channelCount → Normal 12 st.width →
      encode 12 st (ArithmeticBitEncoder.symbols
        (symbolsFrom dsd d.channelCount (buildFilterLut filters) tables probabilities status ps)) = t →
      Tracks 12 code st dec →
      ∃ s' pos, Reads (ps.foldlM (fun s p => d.decodeBit syn (filterTables syn.filterTables) p.1
            (p.1 >>> 3 * d.channelCount) s p.2) ⟨ArithmeticCoder.ofDecoder dec, fc, pc, status, out⟩)
          ((code.drop dec.pos).take (pos - dec.pos)) s' ∧ dec.pos ≤ pos ∧ s'.out = paint dsd d.channelCount out ps
  | [], status, out, st, dec, _, _, _, _, _, _ => by
    refine ⟨⟨ArithmeticCoder.ofDecoder dec, fc, pc, status, out⟩, dec.pos, ?_, le_rfl, rfl⟩
    rw [Nat.sub_self, List.take_zero]
    exact Reads.pure _
  | p :: ps, status, out, st, dec, hps, hs, hout, hn, henc, hd => by
    have hp := hps p (by simp)
    have hlegal := symbolsFrom_legal h.usable' h.fits (p :: ps) status hps
    simp only [symbolsFrom] at henc hlegal
    obtain ⟨c, hctx⟩ : ∃ c, contextAt dsd d.channelCount (buildFilterLut filters) tables status p = c := ⟨_, rfl⟩
    rw [hctx] at henc hlegal
    obtain ⟨hr1, hr2⟩ := hlegal _ List.mem_cons_self
    have hfit := ArithmeticBitEncoder.symbol_fits c.residual hr1 hr2
    have hn' := step_normal (by omega) hn hfit
    have hrest := ArithmeticBitEncoder.symbols_fit fun x hx => hlegal x (List.mem_cons_of_mem _ hx)
    -- what is coded after this bit stays inside its interval
    have hwithin := encode_within (by omega) hrest hn'
    rw [ArithmeticBitEncoder.symbols, List.map_cons, encode, List.foldl_cons] at henc
    rw [encode, ArithmeticBitEncoder.symbols, henc] at hwithin
    obtain ⟨dec', hr, hmono, htr⟩ := decodeBit_reads h hp hfc hpc hs hout hctx hcodes hn hwithin hd
    obtain ⟨s', pos, hr', hle, hpaint⟩ := decodeLoop_reads h hfc hpc hcodes ps (nextStatus dsd d.channelCount status p)
      (paintBit d.channelCount out p (actualBit dsd d.channelCount p)) (fun q hq => hps q (by simp [hq]))
      (length_nextStatus hs) (by rw [length_paintBit]; exact hout) hn' henc htr
    refine ⟨s', pos, ?_, hmono.trans hle, hpaint⟩
    rw [List.foldlM_cons]
    refine hr.seq hr' ?_
    rw [show pos - dec.pos = (dec'.pos - dec.pos) + (pos - dec'.pos) by omega, List.take_add, List.drop_drop,
      show dec.pos + (dec'.pos - dec.pos) = dec'.pos by omega]

end Loop

/-! ## The painted frame -/

theorem getD_setOutputBit (out : List UInt8) {i : ℕ} (hi : i < out.length) {b : ℕ} (hb : b < 8) (i' j : ℕ) :
    ((DstDecoder.setOutputBit out i b).getD i' 0).toNat.testBit j =
      ((out.getD i' 0).toNat.testBit j || decide (i = i' ∧ b = j)) := by
  have hpow : (UInt8.ofNat (1 <<< b)).toNat = 2 ^ b := by
    rw [UInt8.toNat_ofNat', Nat.one_shiftLeft]
    exact Nat.mod_eq_of_lt (Nat.pow_lt_pow_right (by omega) (by omega))
  unfold DstDecoder.setOutputBit
  rw [List.getD_eq_getElem?_getD, List.getElem?_modify, List.getD_eq_getElem?_getD]
  by_cases hii : i = i'
  · subst hii
    simp [hi, hpow, Nat.testBit_two_pow]
  · simp [hii]

theorem testBit_paint (dsd : List UInt8) (channels : ℕ) : ∀ (ps : List (ℕ × ℕ)) (out : List UInt8),
    (∀ p ∈ ps, p.1 >>> 3 * channels + p.2 < out.length) → ∀ i j,
    ((paint dsd channels out ps).getD i 0).toNat.testBit j = ((out.getD i 0).toNat.testBit j ||
      ps.any fun p => decide (p.1 >>> 3 * channels + p.2 = i ∧ 7 - p.1 % 8 = j) && actualBit dsd channels p)
  | [], _, _, i, j => by simp [paint]
  | p :: ps, out, hps, i, j => by
    have ih := testBit_paint dsd channels ps (paintBit channels out p (actualBit dsd channels p))
      (fun q hq => by rw [length_paintBit]; exact hps q (by simp [hq])) i j
    rw [paint] at ih
    rw [paint, List.foldl_cons, ih, List.any_cons, ← Bool.or_assoc]
    congr 1
    unfold paintBit
    cases hb : actualBit dsd channels p
    · simp
    · simp only [if_true, Bool.and_true]
      rw [getD_setOutputBit _ (hps p (by simp)) (by omega)]

theorem length_paint (dsd : List UInt8) (channels : ℕ) : ∀ (ps : List (ℕ × ℕ)) (out : List UInt8),
    (paint dsd channels out ps).length = out.length
  | [], _ => rfl
  | p :: ps, out => by
    have ih := length_paint dsd channels ps (paintBit channels out p (actualBit dsd channels p))
    rw [length_paintBit] at ih
    exact ih

theorem ext_testBit {xs ys : List UInt8} (hl : xs.length = ys.length)
    (h : ∀ i < ys.length, ∀ j, (xs.getD i 0).toNat.testBit j = (ys.getD i 0).toNat.testBit j) : xs = ys := by
  refine List.ext_getElem hl fun i h1 h2 => UInt8.toNat_inj.1 (Nat.eq_of_testBit_eq fun j => ?_)
  have := h i h2 j
  simpa [List.getD_eq_getElem?_getD, h1, h2] using this

/-- Painting every position of a frame over zeros gives the frame. -/
theorem paint_positions {dsd : List UInt8} {channels : ℕ} (hlen : dsd.length = frameBytesPerChannel * channels)
    (hc : 0 < channels) : paint dsd channels (List.replicate dsd.length 0) (positions channels) = dsd := by
  refine ext_testBit (by rw [length_paint, List.length_replicate]) fun i h2 j => ?_
  have hzero : ((List.replicate dsd.length (0 : UInt8)).getD i 0).toNat.testBit j = false := by
    simp [List.getD_eq_getElem?_getD, h2]
  rw [testBit_paint dsd channels (positions channels) (List.replicate dsd.length (0 : UInt8))
    (fun p hp => by rw [List.length_replicate, hlen]; exact byteIndex_lt hp) i j, hzero, Bool.false_or]
  by_cases hj : j < 8
  · -- the one position whose byte is `i` and whose bit is `j`
    apply Bool.eq_iff_iff.2
    rw [List.any_eq_true]
    constructor
    · rintro ⟨p, _, hp⟩
      simp only [Bool.and_eq_true, decide_eq_true_eq] at hp
      obtain ⟨⟨rfl, rfl⟩, ha⟩ := hp
      exact ha
    · intro hb
      refine ⟨(i / channels * 8 + (7 - j), i % channels), ?_, ?_⟩
      · have hdiv : i / channels < frameBytesPerChannel := by
          rw [Nat.div_lt_iff_lt_mul hc, ← hlen]
          exact h2
        refine mem_grid.2 ⟨?_, Nat.mod_lt _ hc⟩
        simp only [frameBitsPerChannel]
        omega
      · have hidx : (i / channels * 8 + (7 - j)) >>> 3 * channels + i % channels = i := by
          rw [Nat.shiftRight_eq_div_pow, show (i / channels * 8 + (7 - j)) / 2 ^ 3 = i / channels by omega, Nat.mul_comm]
          exact Nat.div_add_mod i channels
        have hmod : 7 - (i / channels * 8 + (7 - j)) % 8 = j := by omega
        simp only [actualBit, hidx, hmod, hb, and_self, decide_true, Bool.and_self]
  · have hhigh : (dsd.getD i 0).toNat.testBit j = false := by
      apply Nat.testBit_eq_false_of_lt
      calc (dsd.getD i 0).toNat < 2 ^ 8 := UInt8.toNat_lt _
        _ ≤ 2 ^ j := Nat.pow_le_pow_right (by omega) (by omega)
    rw [hhigh, List.any_eq_false]
    intro p _
    simp only [Bool.and_eq_true, decide_eq_true_eq]
    rintro ⟨⟨_, hj'⟩, _⟩
    omega

/-! ## The whole frame -/

theorem probDstXBit_range (z : ℤ) : 1 ≤ probDstXBit z ∧ probDstXBit z ≤ 128 := by
  have h := value_lt (ofNat 8 (z % 128).toNat).reverse
  rw [List.length_reverse, length_ofNat] at h
  unfold probDstXBit
  omega

/-- The payload after the header and the marker bit: the decoder returns the frame. -/
theorem decodeResiduals_run {d : DstDecoder} {syn : CompressedSyntax} {dsd : List UInt8} {tables : List ℕ}
    {filters : List (List ℤ)} {probabilities : List (List ℕ)} (h : Session d syn dsd tables filters probabilities)
    (hc : 0 < d.channelCount) {z : ℤ} (hz : at2 syn.filterTables.coeff 0 0 = some z) {code : List Bool} {t : State}
    (ht : encode 12 (start 12) (ArithmeticBitEncoder.symbols ((false, probDstXBit z) ::
      symbolsFrom dsd d.channelCount (buildFilterLut filters) tables probabilities initialStatus
        (positions d.channelCount))) = t)
    (hcodes : Codes 12 code t) {r : BitReader} (hr : r.Sized) (hpre : code <+: r.rest) :
    ∃ r', d.decodeResiduals syn (List.replicate dsd.length 0) r = .ok (dsd, r') := by
  have hlen : 12 ≤ code.length := by rw [hcodes.length_eq]; omega
  have hnew := ArithmeticCoder.new_run hr (code.take 12) (by rw [List.length_take]; omega)
    ((List.take_prefix _ _).trans hpre)
  have hstart : ArithmeticCoder.ofDecoder (Decoder.start 12 code) = ⟨4095, value (code.take 12)⟩ := rfl
  rw [← hstart] at hnew
  obtain ⟨fc, hfcn, hfc⟩ := h.describes.filterSegments.new frameBitsPerChannel .filter h.table_lt
    (by rw [h.fits.length_tables]; exact h.fits.channels_le)
  obtain ⟨pc, hpcn, hpc⟩ := h.describes.probabilitySegments.new frameBitsPerChannel .probability
    h.table_lt (by rw [h.fits.length_tables]; exact h.fits.channels_le)
  -- the marker bit is the first symbol
  obtain ⟨hp1, hp2⟩ := probDstXBit_range z
  have hlegal := symbolsFrom_legal h.usable' h.fits (positions d.channelCount) initialStatus fun _ hp => hp
  have hn0 : Normal 12 (start 12).width := start_normal (by omega)
  have hfit := ArithmeticBitEncoder.symbol_fits false hp1 hp2
  have hn := step_normal (by omega) hn0 hfit
  have hwithin := encode_within (by omega) (ArithmeticBitEncoder.symbols_fit hlegal) hn
  rw [ArithmeticBitEncoder.symbols, List.map_cons, encode, List.foldl_cons] at ht
  rw [encode, ArithmeticBitEncoder.symbols, ht] at hwithin
  obtain ⟨dec, hget, hmono, htr⟩ := ArithmeticCoder.get_symbol hp1 hp2 hcodes hn0 hwithin (start_tracks 12 code)
  obtain ⟨s, pos, hloop, hle, hpaint⟩ := decodeLoop_reads h hfc hpc hcodes (positions d.channelCount) initialStatus
    (List.replicate dsd.length 0) (fun _ hp => hp) List.length_replicate
    (by rw [List.length_replicate]; exact h.fits.length_dsd) hn ht htr
  rw [paint_positions h.fits.length_dsd hc] at hpaint
  have hsized : { r.advance 12 with zeroPadAfterEof := true }.Sized := hr
  have hrest : (code.drop 12).take (pos - 12) <+: { r.advance 12 with zeroPadAfterEof := true }.rest := by
    refine (List.take_prefix _ _).trans ?_
    obtain ⟨tl, htl⟩ := hpre
    refine ⟨tl, ?_⟩
    have : (r.advance 12).rest = code.drop 12 ++ tl := by
      rw [rest_advance, ← htl, List.drop_append_of_le_length hlen]
    exact this.symm
  have hread : ∀ p : Parse (List UInt8), Reads p ((code.drop 12).take (pos - 12)) dsd →
      ∃ r', p { r.advance 12 with zeroPadAfterEof := true } = .ok (dsd, r') := fun p hp => ⟨_, hp _ hsized hrest⟩
  rw [DstDecoder.decodeResiduals, bind_run hnew]
  refine hread _ ?_
  simp only
  rw [h.bits, h.describes.filterElements]
  rw [h.fits.length_tables] at hfcn hpcn
  have hpel : syn.probabilityTables.elements = filters.length := by
    rw [h.describes.probabilityElements, List.length_map, h.usable.length]
  rw [hpel]
  refine (Reads.lift (buildFilters_of_holds h.describes.filterElements h.describes.filter h.range)).seq ?_
    (List.nil_append _).symm
  refine (Reads.lift hfcn).seq ?_ (List.nil_append _).symm
  refine (Reads.lift hpcn).seq ?_ (List.nil_append _).symm
  rw [index2_of_at2 hz, pure_bind]
  have hsplit : (code.drop 12).take (pos - 12) =
      (code.drop (Decoder.start 12 code).pos).take (dec.pos - (Decoder.start 12 code).pos) ++
        (code.drop dec.pos).take (pos - dec.pos) := by
    have h12 : (Decoder.start 12 code).pos = 12 := rfl
    rw [h12] at hmono ⊢
    rw [show pos - 12 = (dec.pos - 12) + (pos - dec.pos) by omega, List.take_add, List.drop_drop,
      show 12 + (dec.pos - 12) = dec.pos by omega]
  refine hget.seq ?_ hsplit
  simp only
  rw [forRange_grid (f := fun bitIndex => d.decodeBit syn (filterTables syn.filterTables) bitIndex
    (bitIndex >>> 3 * d.channelCount))]
  · refine hloop.seq ?_ (List.append_nil _).symm
    rw [hpaint]
    exact Reads.pure _
  · intro i hi s
    have hmax : i >>> 3 * d.channelCount ≤ usizeMax := by
      have h6 := h.fits.channels_le
      have : i >>> 3 * d.channelCount ≤ frameBitsPerChannel * maxChannels :=
        Nat.mul_le_mul ((Nat.shiftRight_le _ _).trans hi.le) h6
      exact this.trans (by decide)
    rw [DstDecoder.decodeBits, checkedMul_of_le hmax, okOr_some, pure_bind]

/-- The filters a candidate is built from. -/
structure Encodable (channels : ℕ) (layout : DstTableStrategy) (filters : List (List ℤ)) : Prop where
  count : filters.length = layout.tableCount channels
  filter : ∀ cs ∈ filters, cs ≠ [] ∧ cs.length ≤ 128 ∧ ∀ z ∈ cs, -255 ≤ z ∧ z ≤ 255

section Frame

variable {channels : ℕ} {dsd : List UInt8} {layout : DstTableStrategy} {filters : List (List ℤ)}

theorem Encodable.fits (h : Encodable channels layout filters) (h6 : channels ≤ maxChannels)
    (hlen : dsd.length = frameBytesPerChannel * channels) :
    Fits dsd channels (buildFilterLut filters) (layout.tableForChannel channels) where
  channels_le := h6
  length_dsd := hlen
  length_tables := length_tableForChannel layout channels
  table_lt := by
    rw [buildFilterLut, List.length_map, h.count]
    exact tableForChannel_lt layout channels

/-- The symbols of the whole frame, the marker bit first. -/
def frameSymbols (dsd : List UInt8) (channels : ℕ) (layout : DstTableStrategy) (filters : List (List ℤ))
    (probabilities : List (List ℕ)) : List (Bool × ℕ) :=
  (false, probDstXBit ((filters.head?.bind List.head?).getD 0)) ::
    symbolsFrom dsd channels (buildFilterLut filters) (layout.tableForChannel channels) probabilities initialStatus
      (positions channels)

/-- **What a candidate consists of**: the coded flag, the header, the marker bit and the arithmetic code. -/
theorem encodePredictiveCandidate_ok {E : Type} (h2 : 2 ≤ channels) (h6 : channels ≤ maxChannels)
    (hlen : dsd.length = frameBytesPerChannel * channels) (h : Encodable channels layout filters) :
    ∃ bytes probabilities, (encodePredictiveCandidate dsd channels filters (layout.tableForChannel channels) layout :
        Outcome E (List UInt8)) = .ok bytes ∧ Usable probabilities filters.length ∧
      ∃ w, BitWriter.Wrote w ([true] ++ headerBits channels layout filters probabilities ++ [false] ++
        (ArithmeticBitEncoder.new.encodeAll (frameSymbols dsd channels layout filters probabilities)).finish) ∧
        w.intoBytes = bytes := by
  have hfits := h.fits h6 hlen
  have hcount : 0 < layout.tableCount channels := by cases layout <;> simp only [DstTableStrategy.tableCount] <;> omega
  have hne : buildFilterLut filters ≠ [] := by
    rw [buildFilterLut, ne_eq, List.map_eq_nil_iff, ← List.length_eq_zero_iff, h.count]
    omega
  obtain ⟨probabilities, hprob, hu⟩ := deriveProbabilityTables_ok (E := E) hfits hne
  have hres := encodeResiduals_ok (E := E) hu hfits ((filters.head?.bind List.head?).getD 0)
  rw [buildFilterLut, List.length_map] at hu
  -- the writes in order
  have hw₁ := BitWriter.writeBit_wrote (BitWriter.writeBit_wrote (BitWriter.writeBit_wrote (BitWriter.writeBit_wrote
    (BitWriter.writeBit_wrote BitWriter.wrote_new true) true) true) true) true
  have hw₂ := foldl_wrote (fun _ {w bs} (h : BitWriter.Wrote w bs) => BitWriter.writeBit_wrote h false)
    (List.range channels) (writeTableMap_wrote hw₁ h2 layout)
  obtain ⟨w₃, hw₃, hwrote₃⟩ := foldlM_wrote (E := E) filters hw₂ fun cs hcs {w bs} hw =>
    writeFilter_wrote (h.filter cs hcs).1 hw
  obtain ⟨w₄, hw₄, hwrote₄⟩ := foldlM_wrote (E := E) probabilities hwrote₃ fun ps hps {w bs} hw =>
    writeProbabilities_wrote (hu.row ps hps).1 hw
  have hw₅ := BitWriter.writeBitSlice_wrote (BitWriter.writeBit_wrote hwrote₄ false)
    (ArithmeticBitEncoder.new.encodeAll (frameSymbols dsd channels layout filters probabilities)).finish
  refine ⟨((w₄.writeBit false).writeBitSlice (ArithmeticBitEncoder.new.encodeAll
    (frameSymbols dsd channels layout filters probabilities)).finish).intoBytes, probabilities, ?_, hu, _, ?_, rfl⟩
  rotate_left
  · have hzeros : (List.range channels).flatMap (fun _ => [false]) = List.replicate channels false := by
      rw [← List.map_eq_flatMap, List.map_const', List.length_range]
    rw [hzeros] at hw₅
    convert hw₅ using 1
    simp [headerBits]
  · rw [encodePredictiveCandidate, hprob]
    simp only [ok_bind, writeSegmentHeader]
    rw [hw₃, ok_bind, hw₄, ok_bind, hres]
    rfl

theorem length_flatMap_le {α β : Type} (f : α → List β) (xs : List α) (n : ℕ) (h : ∀ x ∈ xs, (f x).length ≤ n) :
    (xs.flatMap f).length ≤ xs.length * n := by
  induction xs with
  | nil => simp
  | cons x xs ih =>
    have h1 := h x (by simp)
    have h2 := ih fun y hy => h y (by simp [hy])
    rw [List.flatMap_cons, List.length_append, List.length_cons, Nat.succ_mul]
    omega

/-- A candidate is far shorter than the address space. -/
theorem length_headerBits_le (h6 : channels ≤ maxChannels) (h : Encodable channels layout filters)
    {probabilities : List (List ℕ)} (hu : Usable probabilities filters.length) :
    (headerBits channels layout filters probabilities).length ≤ 10000 := by
  have hcount : filters.length ≤ 6 := by
    rw [h.count]
    simp only [maxChannels] at h6
    cases layout <;> simp only [DstTableStrategy.tableCount] <;> omega
  have hmap : (mapBits channels layout).length ≤ 100 := by
    cases layout
    · simp [mapBits]
    · have := length_flatMap_le (fun i => ofNat (Nat.log2 i + 1) i) (List.range' 1 (channels - 1)) 7
        (fun i hi => by
          have h7 := (List.mem_range'_1.1 hi).2
          simp only [maxChannels] at h6
          rw [length_ofNat]
          have : Nat.log2 i ≤ i := Nat.log2_le_self i
          omega)
      rw [List.length_range'] at this
      simp only [mapBits, List.length_cons, maxChannels] at h6 ⊢
      omega
  have hf := length_flatMap_le filterBits filters 1160 fun cs hcs => by
    have h128 := (h.filter cs hcs).2.1
    have := length_flatMap_le (fun z : ℤ => ofNat 9 (z % 2 ^ 9).toNat) cs 9 (by simp)
    simp only [filterBits, elementBits, List.length_append, length_ofNat, List.length_singleton]
    omega
  have hp := length_flatMap_le probabilityBits probabilities 455 fun ps hps => by
    have h64 := (hu.row ps hps).2.1
    have := length_flatMap_le (fun p => ofNat 7 (p - 1)) ps 7 (by simp)
    simp only [probabilityBits, elementBits, List.length_append, length_ofNat, List.length_singleton,
      probabilityTableLen] at h64 ⊢
    omega
  have hfm : filters.length * 1160 ≤ 6 * 1160 := Nat.mul_le_mul_right _ hcount
  have hpm : probabilities.length * 455 ≤ 6 * 455 := Nat.mul_le_mul_right _ (by rw [hu.length]; exact hcount)
  simp only [headerBits, List.length_append, List.length_cons, List.length_nil, List.length_replicate, maxChannels] at h6 ⊢
  omega

/-- The code of a frame, as the end of an interval coder's run. -/
theorem frameCode_codes (h6 : channels ≤ maxChannels) (hlen : dsd.length = frameBytesPerChannel * channels)
    (h : Encodable channels layout filters) {probabilities : List (List ℕ)} (hu : Usable probabilities filters.length) :
    Codes 12 (ArithmeticBitEncoder.new.encodeAll (frameSymbols dsd channels layout filters probabilities)).finish
        (encode 12 (start 12) (ArithmeticBitEncoder.symbols (frameSymbols dsd channels layout filters probabilities))) ∧
      (ArithmeticBitEncoder.new.encodeAll (frameSymbols dsd channels layout filters probabilities)).finish.length ≤
        10000000 := by
  have hu' : Usable probabilities (buildFilterLut filters).length := by rwa [buildFilterLut, List.length_map]
  have hlegal : ArithmeticBitEncoder.Legal (frameSymbols dsd channels layout filters probabilities) := by
    intro x hx
    rcases List.mem_cons.1 hx with rfl | hx
    · exact probDstXBit_range _
    · exact symbolsFrom_legal hu' (h.fits h6 hlen) _ _ (fun _ hp => hp) x hx
  have hfit := ArithmeticBitEncoder.symbols_fit hlegal
  have hn : Normal 12 (start 12).width := start_normal (by omega)
  have hlow := encode_low_lt (by omega) hfit
  have hemits := ArithmeticBitEncoder.encodeAll_emits hlegal ArithmeticBitEncoder.new_emits hn (by decide)
  have hcodes := ArithmeticBitEncoder.finish_codes hemits
    (lt_of_lt_of_le (Nat.two_pow_pos _) (encode_normal (by omega) hfit hn).1) hlow.le
  refine ⟨hcodes, ?_⟩
  have hsh := encode_shifts_le (w := 12) (ArithmeticBitEncoder.symbols
    (frameSymbols dsd channels layout filters probabilities)) (start 12)
  have hcount : (ArithmeticBitEncoder.symbols (frameSymbols dsd channels layout filters probabilities)).length =
      frameBitsPerChannel * channels + 1 := by
    rw [ArithmeticBitEncoder.symbols, List.length_map, frameSymbols, List.length_cons, length_symbolsFrom, positions,
      length_grid]
  rw [hcount] at hsh
  rw [hcodes.length_eq]
  have hstart : (start 12).shifts = 0 := rfl
  simp only [frameBitsPerChannel, frameBytesPerChannel, maxChannels] at hsh h6
  omega

theorem dstDecoder_new (h1 : 1 ≤ channels) (h6 : channels ≤ maxChannels) :
    DstDecoder.new channels .dsd64 = .ok ⟨channels, .dsd64, frameBytesPerChannel, frameBitsPerChannel⟩ := by
  rw [DstDecoder.new, DstDecoder.validateChannelCount, if_pos ⟨h1, h6⟩]
  rfl

/-- **Predictive encoding is lossless.** -/
theorem decodeFrame_encode {E : Type} (h2 : 2 ≤ channels) (h6 : channels ≤ maxChannels)
    (hlen : dsd.length = frameBytesPerChannel * channels) (h : Encodable channels layout filters) :
    ∃ bytes, (encodePredictiveCandidate dsd channels filters (layout.tableForChannel channels) layout :
        Outcome E (List UInt8)) = .ok bytes ∧ decodeFrameWithRate bytes channels .dsd64 = .ok dsd := by
  obtain ⟨bytes, probabilities, henc, hu, w, hw, rfl⟩ := encodePredictiveCandidate_ok (E := E) h2 h6 hlen h
  refine ⟨_, henc, ?_⟩
  obtain ⟨hcodes, hcl⟩ := frameCode_codes h6 hlen h hu
  obtain ⟨code, hcode⟩ : ∃ code, (ArithmeticBitEncoder.new.encodeAll
    (frameSymbols dsd channels layout filters probabilities)).finish = code := ⟨_, rfl⟩
  rw [hcode] at hw hcodes hcl
  have hhl := length_headerBits_le h6 h hu
  have hbytes := hw.length_bytes
  have hpre := hw.isPrefix
  simp only [List.length_append, List.length_singleton] at hbytes
  obtain ⟨syn, hsyn, hdesc⟩ := syntax_reads h2 h6 layout h.count (hu.length.trans h.count) h.filter hu.row
  -- the reader's views between the parts
  have hs₀ : (BitReader.new w.intoBytes).Sized := by
    simp only [Sized, BitReader.new, usizeMax]
    omega
  have hr₀ : (BitReader.new w.intoBytes).rest = bitsOf w.intoBytes := rfl
  obtain ⟨tail, htail⟩ := hpre
  simp only [List.append_assoc] at htail
  rw [← htail] at hr₀
  have hr₁ : ((BitReader.new w.intoBytes).advance 1).rest =
      headerBits channels layout filters probabilities ++ ([false] ++ (code ++ tail)) := by
    rw [rest_advance, hr₀]
    rfl
  obtain ⟨r₂, hr₂def⟩ : ∃ r₂, ((BitReader.new w.intoBytes).advance 1).advance
    (headerBits channels layout filters probabilities).length = r₂ := ⟨_, rfl⟩
  have hr₂ : r₂.rest = [false] ++ (code ++ tail) := by rw [← hr₂def, rest_advance, hr₁, List.drop_left]
  have hs₂ : r₂.Sized := by rw [← hr₂def]; exact hs₀
  have hr₃ : (r₂.advance 1).rest = code ++ tail := by rw [rest_advance, hr₂]; rfl
  have hflag := readBit_reads true _ hs₀ ⟨_, hr₀.symm⟩
  have hheader := hsyn _ (hs₀.advance 1) ⟨_, hr₁.symm⟩
  rw [hr₂def] at hheader
  have hphys := hasPhysicalBitsRemaining_run hs₂ (by rw [hr₂]; simp)
  have hmarker := readBit_reads false _ hs₂ ⟨_, hr₂.symm⟩
  have hsession : Session ⟨channels, .dsd64, frameBytesPerChannel, frameBitsPerChannel⟩ syn dsd
      (layout.tableForChannel channels) filters probabilities := by
    refine ⟨rfl, h.fits h6 hlen, hu, hdesc, ?_, fun cs hcs => (h.filter cs hcs).2.2⟩
    have : maxElements = 2 * maxChannels := rfl
    rw [h.count]
    cases layout <;> simp only [DstTableStrategy.tableCount, maxChannels] at h6 this ⊢ <;> omega
  have hfirst : at2 syn.filterTables.coeff 0 0 = some ((filters.head?.bind List.head?).getD 0) := by
    have hpos : 0 < filters.length := by
      rw [h.count]
      cases layout <;> simp only [DstTableStrategy.tableCount] <;> omega
    have hne := (h.filter _ (List.getElem_mem hpos)).1
    rw [(hdesc.filter 0 hpos).coeff 0 (List.length_pos_iff.2 hne), List.head?_eq_getElem?,
      List.getElem?_eq_getElem hpos, Option.bind_some, List.head?_eq_getElem?]
    simp [List.length_pos_iff.2 hne]
  obtain ⟨r', hrun⟩ := decodeResiduals_run hsession (by simp only; omega) hfirst rfl hcodes (hs₂.advance 1)
    ⟨tail, hr₃.symm⟩
  have hpayload : DstDecoder.decodeCompressedDstPayload ⟨channels, .dsd64, frameBytesPerChannel, frameBitsPerChannel⟩
      (List.replicate dsd.length 0) ((BitReader.new w.intoBytes).advance 1) = .ok (dsd, r') := by
    rw [DstDecoder.decodeCompressedDstPayload, bind_run hheader, bind_run hphys]
    simp only [if_true]
    rw [bind_run hmarker]
    exact hrun
  have hmul : checkedMul frameBytesPerChannel channels = some dsd.length := by
    rw [checkedMul_of_le (by simp only [frameBytesPerChannel, maxChannels, usizeMax] at h6 ⊢; omega), hlen]
  have hne : w.intoBytes ≠ [] := by
    intro hnil
    rw [hnil] at hr₀
    cases hr₀
  have hinto : DstDecoder.decodeFrameInto ⟨channels, .dsd64, frameBytesPerChannel, frameBitsPerChannel⟩ w.intoBytes
      (List.replicate dsd.length 0) = .ok (dsd.length, dsd) := by
    rw [DstDecoder.decodeFrameInto, DstDecoder.dsdFrameBytes, hmul, okOr_some, pure_bind,
      if_neg (by rw [List.length_replicate]; omega), if_neg hne]
    simp only [StateT.run, bind_run hflag, if_true, List.length_singleton, hpayload, ok_bind]
    rw [List.drop_eq_nil_of_le (by rw [List.length_replicate]), List.append_nil]
    rfl
  rw [decodeFrameWithRate, dstDecoder_new (by omega) h6, ok_bind, DstDecoder.decodeFrame, DstDecoder.dsdFrameBytes, hmul,
    okOr_some, pure_bind, hinto, ok_bind]
  simp only
  rw [if_neg (by simp)]
  rfl

end Frame

end Dst
