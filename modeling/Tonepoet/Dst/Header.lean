import Tonepoet.Dst.Encoder

/-!
# The header round trip

`headerBits` is the bit string the encoder writes between the coded flag and the arithmetic code.
`syntax_reads` says that `CompressedSyntax.read` consumes exactly that string and that what it returns
describes the encoder's layout (`Describes`).
-/

namespace Dst

open Rust BitString BitReader BitWriter

/-! ## What is written -/

/-- The bits of a table map. -/
def mapBits (channels : ℕ) : DstTableStrategy → List Bool
  | .shared => [true]
  | .perChannel => false :: (List.range' 1 (channels - 1)).flatMap fun i => ofNat (Nat.log2 i + 1) i

/-- The bits of an uncoded table element. -/
def elementBits {α : Type} (lengthBits : ℕ) (code : α → List Bool) (coeffs : List α) : List Bool :=
  ofNat lengthBits (coeffs.length - 1) ++ [false] ++ coeffs.flatMap code

def filterBits : List ℤ → List Bool := elementBits 7 fun z => ofNat 9 (z % 2 ^ 9).toNat

def probabilityBits : List ℕ → List Bool := elementBits 6 fun p => ofNat 7 (p - 1)

def headerBits (channels : ℕ) (layout : DstTableStrategy) (filters : List (List ℤ)) (probabilities : List (List ℕ)) :
    List Bool :=
  [true, true, true] ++ [true] ++ mapBits channels layout ++ List.replicate channels false ++
    filters.flatMap filterBits ++ probabilities.flatMap probabilityBits

theorem writeTableMap_wrote {w : BitWriter} {bs : List Bool} (h : Wrote w bs) {channels : ℕ} (hc : 2 ≤ channels)
    (layout : DstTableStrategy) :
    Wrote (writeTableMap w channels layout.usesPerChannelTables) (bs ++ mapBits channels layout) := by
  cases layout
  · simpa [writeTableMap, DstTableStrategy.usesPerChannelTables, mapBits] using writeBit_wrote h true
  · have hone : (channels == 1) = false := by simp; omega
    -- the counter of the loop is the channel number
    have hloop : ∀ (n k : ℕ) {w : BitWriter} {bs : List Bool}, Wrote w bs →
        Wrote ((List.range' k n).foldl (fun s _ => (s.1.writeBits s.2 (Nat.log2 s.2 + 1), s.2 + 1)) (w, k)).1
          (bs ++ (List.range' k n).flatMap fun i => ofNat (Nat.log2 i + 1) i) := by
      intro n
      induction n with
      | zero => intro k w bs h; simpa using h
      | succ n ih =>
        intro k w bs h
        simpa [List.range'_succ] using ih (k + 1) (writeBits_wrote h k (Nat.log2 k + 1))
    simpa [writeTableMap, DstTableStrategy.usesPerChannelTables, hone, mapBits] using
      hloop (channels - 1) 1 (writeBit_wrote h false)

theorem foldl_wrote {α : Type} {f : BitWriter → α → BitWriter} {bits : α → List Bool}
    (hf : ∀ x {w : BitWriter} {bs : List Bool}, Wrote w bs → Wrote (f w x) (bs ++ bits x)) :
    ∀ (xs : List α) {w : BitWriter} {bs : List Bool}, Wrote w bs → Wrote (xs.foldl f w) (bs ++ xs.flatMap bits)
  | [], _, _, h => by simpa using h
  | x :: xs, _, _, h => by simpa using foldl_wrote hf xs (hf x h)

theorem foldlM_wrote {E α : Type} {f : BitWriter → α → Outcome E BitWriter} {bits : α → List Bool} :
    ∀ (xs : List α) {w : BitWriter} {bs : List Bool}, Wrote w bs →
      (∀ x ∈ xs, ∀ {w : BitWriter} {bs : List Bool}, Wrote w bs → ∃ w', f w x = .ok w' ∧ Wrote w' (bs ++ bits x)) →
      ∃ w', xs.foldlM f w = .ok w' ∧ Wrote w' (bs ++ xs.flatMap bits)
  | [], w, _, h, _ => ⟨w, rfl, by simpa using h⟩
  | x :: xs, w, bs, h, hf => by
    obtain ⟨w₁, hw₁, h₁⟩ := hf x (by simp) h
    obtain ⟨w₂, hw₂, h₂⟩ := foldlM_wrote xs h₁ fun y hy => hf y (by simp [hy])
    refine ⟨w₂, ?_, by simpa using h₂⟩
    rw [List.foldlM_cons, hw₁]
    exact hw₂

theorem writeFilter_wrote {E : Type} {coeffs : List ℤ} (hne : coeffs ≠ []) {w : BitWriter} {bs : List Bool}
    (h : Wrote w bs) : ∃ w', (writeFilter w coeffs : Outcome E BitWriter) = .ok w' ∧ Wrote w' (bs ++ filterBits coeffs) := by
  refine ⟨_, by rw [writeFilter, if_neg hne]; rfl, ?_⟩
  have := foldl_wrote (fun z {w bs} (h : Wrote w bs) => writeSigned_wrote h z (n := 9) (by omega)) coeffs
    (writeBit_wrote (writeBits_wrote h (coeffs.length - 1) 7) false)
  simpa [filterBits, elementBits] using this

theorem writeProbabilities_wrote {E : Type} {table : List ℕ} (hne : table ≠ []) {w : BitWriter} {bs : List Bool}
    (h : Wrote w bs) :
    ∃ w', (writeProbabilities w table : Outcome E BitWriter) = .ok w' ∧ Wrote w' (bs ++ probabilityBits table) := by
  refine ⟨_, by rw [writeProbabilities, if_neg hne]; rfl, ?_⟩
  have := foldl_wrote (fun p {w bs} (h : Wrote w bs) => writeBits_wrote h (p - 1) 7) table
    (writeBit_wrote (writeBits_wrote h (table.length - 1) 6) false)
  simpa [probabilityBits, elementBits] using this

/-! ## Coefficient tables -/

namespace Table

/-- The fixed sizes of the arrays. -/
structure Shaped (t : Table) : Prop where
  length : t.length.length = maxElements
  coeff : Rect maxElements maxTableLen t.coeff

/-- Element `element` of the table is `coeffs`. -/
structure Holds (t : Table) (element : ℕ) (coeffs : List ℤ) : Prop where
  length : t.length[element]? = some coeffs.length
  coeff : ∀ i < coeffs.length, at2 t.coeff element i = coeffs[i]?

theorem default_shaped (n : ℕ) : Shaped { Table.default with elements := n } :=
  ⟨List.length_replicate, rect_replicate _ _ _⟩

/-- What one assignment does to the table. -/
theorem setCoeff_spec {t : Table} (h : t.Shaped) {element idx : ℕ} (he : element < maxElements) (hi : idx < maxTableLen)
    (c : ℤ) : ∃ t', setCoeff t element idx c = pure t' ∧ t'.Shaped ∧ t'.length = t.length ∧ t'.elements = t.elements ∧
      ∀ e i, at2 t'.coeff e i = if e = element ∧ i = idx then some c else at2 t.coeff e i := by
  obtain ⟨yss, hset, hrect, hat⟩ := assign2_spec (E := DstError) h.coeff he hi c
  exact ⟨{ t with coeff := yss }, by rw [setCoeff, hset, pure_bind], ⟨h.length, hrect⟩, rfl, rfl, hat⟩

end Table

/-- Going through a list by its indices. -/
theorem flatMap_getD {α β : Type} (xs : List α) (d : α) (f : α → List β) :
    (List.range' 0 (xs.length - 0)).flatMap (fun i => f (xs.getD i d)) = xs.flatMap f := by
  rw [Nat.sub_zero, ← List.range_eq_range', List.flatMap_def, List.flatMap_def]
  congr 1
  apply List.ext_getElem (by simp)
  intro i h1 h2
  simp at h1
  simp [List.getD_eq_getElem?_getD, h1]

section Tables

variable {lengthBits coeffBits : ℕ} {signed : Bool} {offset : ℤ} {code : ℤ → List Bool}

/-- The uncoded coefficients of an element, one after the other. -/
theorem readUncodedCoeffs_reads {t : Table} (h : t.Shaped) {element : ℕ} (he : element < maxElements) {coeffs : List ℤ}
    (hlen : coeffs.length ≤ maxTableLen)
    (hread : ∀ z ∈ coeffs, Reads (readUncodedCoeff coeffBits signed offset) (code z) z) :
    ∃ t', Reads (readUncodedCoeffs t element coeffs.length coeffBits signed offset) (coeffs.flatMap code) t' ∧
      t'.Shaped ∧ t'.length = t.length ∧ t'.elements = t.elements ∧ (∀ i < coeffs.length, at2 t'.coeff element i = coeffs[i]?) ∧
      ∀ e ≠ element, ∀ i, at2 t'.coeff e i = at2 t.coeff e i := by
  obtain ⟨t', hr, hI⟩ := Reads.forRange
    (fun n t' => t'.Shaped ∧ t'.length = t.length ∧ t'.elements = t.elements ∧
      (∀ i < n, at2 t'.coeff element i = coeffs[i]?) ∧ ∀ e ≠ element, ∀ i, at2 t'.coeff e i = at2 t.coeff e i)
    (fun i => code (coeffs.getD i 0))
    (fun table idx => do setCoeff table element idx (← readUncodedCoeff coeffBits signed offset))
    0 coeffs.length (by omega) (by
      rintro i - hi s ⟨hs, hl, hel, hlow, hother⟩
      have hz : coeffs.getD i 0 = coeffs[i] := by simp [List.getD_eq_getElem?_getD, hi]
      obtain ⟨s', hset, hs', hl', hel', hat⟩ := Table.setCoeff_spec hs he (show i < maxTableLen by omega) coeffs[i]
      refine ⟨s', ?_, hs', hl'.trans hl, hel'.trans hel, ?_, ?_⟩
      · rw [hz]
        have := (hread coeffs[i] (List.getElem_mem hi)).bind
          (f := fun c => setCoeff s element i c) (by rw [hset]; exact Reads.pure s')
        simpa using this
      · intro j hj
        rw [hat]
        by_cases hji : j = i
        · simp [hji, hi]
        · rw [if_neg (by simp [hji]), hlow j (by omega)]
      · intro e hne j
        rw [hat, if_neg (by simp [hne]), hother e hne])
    (s := t) ⟨h, rfl, rfl, by simp, by simp⟩
  refine ⟨t', ?_, hI⟩
  rw [flatMap_getD] at hr
  exact hr

/-- An element that is stored uncoded. -/
theorem readTableElement_reads (codePredCoeff : List (List ℤ)) {t : Table} (h : t.Shaped) {element : ℕ} (he : element < maxElements) {coeffs : List ℤ}
    (hne : coeffs ≠ []) (hlen : coeffs.length ≤ maxTableLen) (hlb : lengthBits ≤ 32)
    (hfit : coeffs.length - 1 < 2 ^ lengthBits)
    (hread : ∀ z ∈ coeffs, Reads (readUncodedCoeff coeffBits signed offset) (code z) z)
    (hrange : signed = false → ∀ z ∈ coeffs, 1 ≤ z ∧ z ≤ 128) :
    ∃ t', Reads (readTableElement codePredCoeff lengthBits coeffBits signed offset t element)
        (elementBits lengthBits code coeffs) t' ∧
      t'.Shaped ∧ t'.elements = t.elements ∧ t'.Holds element coeffs ∧
      ∀ e ≠ element, ∀ cs, t.Holds e cs → t'.Holds e cs := by
  have hpos : 0 < coeffs.length := List.length_pos_iff.2 hne
  have he' : element < t.length.length := by rw [h.length]; exact he
  obtain ⟨t₁, ht₁⟩ : ∃ t₁, { t with length := t.length.set element coeffs.length } = t₁ := ⟨_, rfl⟩
  have hs₁ : t₁.Shaped := by subst ht₁; exact ⟨by simpa using h.length, h.coeff⟩
  obtain ⟨t₂, hr₂, hs₂, hl₂, hel₂, hat₂, hother₂⟩ := readUncodedCoeffs_reads hs₁ he hlen hread
  -- the tail of the row is cleared
  obtain ⟨t₃, hr₃, hs₃, hl₃, hel₃, hat₃, hother₃⟩ := Reads.forRange_silent
    (fun _ t' => t'.Shaped ∧ t'.length = t₂.length ∧ t'.elements = t₂.elements ∧
      (∀ i < coeffs.length, at2 t'.coeff element i = at2 t₂.coeff element i) ∧ ∀ e ≠ element, ∀ i, at2 t'.coeff e i = at2 t₂.coeff e i)
    (fun table idx => setCoeff table element idx 0) coeffs.length maxTableLen hlen (by
      rintro i h1 hi s ⟨hs, hl, hel, hat, hother⟩
      obtain ⟨s', hset, hs', hl', hel', hat'⟩ := Table.setCoeff_spec hs he hi 0
      refine ⟨s', by rw [hset]; exact Reads.pure s', hs', hl'.trans hl, hel'.trans hel, ?_, ?_⟩
      · intro j hj
        rw [hat', if_neg (by omega), hat j hj]
      · intro e hne j
        rw [hat', if_neg (by simp [hne]), hother e hne j])
    (s := t₂) ⟨hs₂, rfl, rfl, by simp, by simp⟩
  have hcoeff : ∀ i < coeffs.length, at2 t₂.coeff element i = some (coeffs.getD i 0) := by
    intro i hi
    rw [hat₂ i hi]
    simp [List.getD_eq_getElem?_getD, hi]
  have hcheck : signed = false →
      Reads (forRange 0 coeffs.length () fun _ idx => do
        let c ← index2 t₂.coeff element idx
        if ¬ (1 ≤ c ∧ c ≤ 128) then fail (.invalidProbabilityTable "probability coefficient out of range") else pure ())
        [] () := by
    intro hsg
    obtain ⟨u, hu, -⟩ := Reads.forRange_silent (fun _ (_ : Unit) => True)
      (fun _ idx => do
        let c ← index2 t₂.coeff element idx
        if ¬ (1 ≤ c ∧ c ≤ 128) then fail (.invalidProbabilityTable "probability coefficient out of range") else pure ())
      0 coeffs.length (by omega) (by
        rintro i - hi s -
        refine ⟨(), ?_, trivial⟩
        have hz : coeffs.getD i 0 = coeffs[i] := by simp [List.getD_eq_getElem?_getD, hi]
        have hbound := hrange hsg coeffs[i] (List.getElem_mem hi)
        rw [index2_of_at2 (hcoeff i hi), pure_bind, hz, if_neg (by simpa using hbound)]
        exact Reads.pure ()) (s := ()) trivial
    exact hu
  refine ⟨t₃, ?_, hs₃, ?_, ⟨?_, ?_⟩, ?_⟩
  · rw [readTableElement]
    refine (readBits_ofNat hlb hfit).seq ?_ (List.append_assoc _ _ _)
    rw [show coeffs.length - 1 + 1 = coeffs.length by omega, if_neg (by omega), assign_of_lt he', pure_bind]
    refine (readBit_reads false).seq ?_ rfl
    simp only [Bool.false_eq_true, if_false, ht₁]
    refine hr₂.seq ?_ (List.append_nil _).symm
    cases hsg : signed
    · simp only [Bool.not_false, if_true]
      refine (hcheck hsg).seq ?_ rfl
      simpa using hr₃
    · simp only [Bool.not_true, Bool.false_eq_true, if_false]
      simpa using hr₃
  · rw [hel₃, hel₂, ← ht₁]
  · rw [hl₃, hl₂, ← ht₁]
    simp [he']
  · intro i hi
    rw [hat₃ i hi, hat₂ i hi]
  · rintro e hne cs ⟨hcl, hcc⟩
    refine ⟨?_, fun i hi => ?_⟩
    · rw [hl₃, hl₂, ← ht₁, List.getElem?_set_ne (Ne.symm hne), hcl]
    · rw [hother₃ e hne, hother₂ e hne, ← ht₁]
      exact hcc i hi

/-- A table of uncoded elements. -/
theorem readTable_reads (codePredCoeff : List (List ℤ)) (lengthBits coeffBits : ℕ) (signed : Bool) (offset : ℤ)
    (code : ℤ → List Bool) (tables : List (List ℤ)) (h0 : tables ≠ []) (hcount : tables.length ≤ maxElements)
    (hne : ∀ cs ∈ tables, cs ≠ []) (hlen : ∀ cs ∈ tables, cs.length ≤ maxTableLen) (hlb : lengthBits ≤ 32)
    (hfit : ∀ cs ∈ tables, cs.length - 1 < 2 ^ lengthBits)
    (hread : ∀ cs ∈ tables, ∀ z ∈ cs, Reads (readUncodedCoeff coeffBits signed offset) (code z) z)
    (hrange : signed = false → ∀ cs ∈ tables, ∀ z ∈ cs, 1 ≤ z ∧ z ≤ 128) :
    ∃ t', Reads (readTable { Table.default with elements := tables.length } codePredCoeff lengthBits coeffBits signed offset)
        (tables.flatMap (elementBits lengthBits code)) t' ∧
      t'.Shaped ∧ t'.elements = tables.length ∧ ∀ e (he : e < tables.length), t'.Holds e tables[e] := by
  have hpos : 0 < tables.length := List.length_pos_iff.2 h0
  obtain ⟨t', hr, hs, hel, hold⟩ := Reads.forRange
    (fun n (t' : Table) => t'.Shaped ∧ t'.elements = tables.length ∧
      ∀ e (he : e < tables.length), e < n → t'.Holds e tables[e])
    (fun i => elementBits lengthBits code (tables.getD i []))
    (readTableElement codePredCoeff lengthBits coeffBits signed offset) 0 tables.length (by omega) (by
      rintro i - hi s ⟨hs, hel, hold⟩
      have hmem := List.getElem_mem hi
      have hz : tables.getD i [] = tables[i] := by simp [List.getD_eq_getElem?_getD, hi]
      obtain ⟨s', hr, hs', hel', hnew, hother⟩ := readTableElement_reads codePredCoeff hs
        (show i < maxElements by omega) (hne _ hmem) (hlen _ hmem) hlb (hfit _ hmem) (hread _ hmem)
        (fun hsg => hrange hsg _ hmem)
      rw [hz]
      refine ⟨s', hr, hs', hel'.trans hel, fun e he hlt => ?_⟩
      by_cases hei : e = i
      · subst hei
        exact hnew
      · exact hother e hei _ (hold e he (by omega)))
    (s := { Table.default with elements := tables.length }) ⟨Table.default_shaped _, rfl, by simp⟩
  refine ⟨t', ?_, hs, hel, fun e he => hold e he he⟩
  rw [readTable, if_neg (by simp only; omega)]
  rw [flatMap_getD] at hr
  exact hr

end Tables

/-! ## Segments and maps -/

/-- Every channel has one segment; channel `ch` uses table `tables[ch]`. -/
structure SingleSegment (data : SegmentData) (tables : List ℕ) : Prop where
  count : ∀ ch < tables.length, data.segmentCount[ch]? = some 1
  table : ∀ ch < tables.length, at2 data.tableForSegment ch 0 = tables[ch]?

theorem copyChannelZero_default {ch : ℕ} (h : ch < maxChannels) :
    SegmentData.default.copyChannelZero ch = pure SegmentData.default := by
  simp only [maxChannels] at h
  interval_cases ch <;> rfl

/-- One bit ends a channel's segments at the end of the frame. -/
theorem readOneChannelSegments_reads :
    Reads (SegmentData.default.readOneChannelSegments 0 frameBytesPerChannel maxFilterSegments minFilterSegmentBits)
      [true] SegmentData.default := by
  have hsub : checkedSub frameBytesPerChannel (minFilterSegmentBits / 8) = some 4576 := rfl
  rw [SegmentData.readOneChannelSegments, hsub, okOr_some, pure_bind, SegmentData.readOneChannelSegmentsLoop]
  refine (readBit_reads true).seq ?_ rfl
  exact Reads.pure _

theorem segments_reads {channels : ℕ} (h1 : 1 ≤ channels) (h : channels ≤ maxChannels) :
    Reads (SegmentData.read channels frameBytesPerChannel maxFilterSegments minFilterSegmentBits) [true, true]
      (SegmentData.default, true) := by
  rw [SegmentData.read]
  refine (readBit_reads true).seq ?_ rfl
  simp only [if_true]
  refine readOneChannelSegments_reads.seq ?_ rfl
  obtain ⟨d, hd, rfl⟩ := Reads.forRange_silent (fun _ d => d = SegmentData.default)
    (fun data ch => data.copyChannelZero ch) 1 channels h1 (by
      rintro ch - hch s rfl
      exact ⟨_, by rw [copyChannelZero_default (by omega)]; exact Reads.pure _, rfl⟩) (s := SegmentData.default) rfl
  exact hd.seq (Reads.pure _) rfl

theorem copyFromFilter_default {channels : ℕ} (h : channels ≤ maxChannels) :
    SegmentData.copyFromFilterForProbability SegmentData.default channels = .ok SegmentData.default := by
  obtain ⟨d, hd, rfl⟩ := forRange_inv (fun _ d => d = SegmentData.default) (f := SegmentData.checkCopiedChannel)
    (Nat.zero_le channels) (by
      rintro ch - hch s rfl
      refine ⟨SegmentData.default, ?_, rfl⟩
      have hch6 : ch < 6 := lt_of_lt_of_le hch h
      clear h hch
      interval_cases ch <;> rfl) (s := SegmentData.default) rfl
  exact hd

/-- A channel map under construction: the first `n` channels have their tables. -/
structure Mapped (data : SegmentData) (tables : List ℕ) (n : ℕ) : Prop where
  count : data.segmentCount = List.replicate maxChannels 1
  rect : Rect maxChannels maxSegments data.tableForSegment
  table : ∀ ch < n, at2 data.tableForSegment ch 0 = tables[ch]?

theorem Mapped.single {data : SegmentData} {tables : List ℕ} {n : ℕ} (h : Mapped data tables n)
    (hlen : tables.length = n) (hn : n ≤ maxChannels) : SingleSegment data tables where
  count := fun ch hch => by rw [h.count]; exact List.getElem?_replicate_of_lt (by omega)
  table := fun ch hch => h.table ch (by omega)

/-- One assignment of a channel's table. -/
theorem Mapped.assign {data : SegmentData} {tables : List ℕ} {n : ℕ} (h : Mapped data tables n) (hn : n < maxChannels)
    {t : ℕ} (ht : tables[n]? = some t) :
    ∃ yss, (∀ {m : Type → Type} [Monad m] [MonadExcept (Fault DstError) m] [LawfulMonad m],
        (assign2 data.tableForSegment n 0 t : m _) = pure yss) ∧
      Mapped { data with tableForSegment := yss } tables (n + 1) := by
  obtain ⟨yss, hset, hrect, hat⟩ := assign2_spec (E := DstError) h.rect hn (show 0 < maxSegments by decide) t
  refine ⟨yss, hset, h.count, hrect, fun ch hch => ?_⟩
  simp only [hat]
  by_cases hcn : ch = n
  · simp [hcn, ht]
  · rw [if_neg (by simp [hcn])]
    exact h.table ch (by omega)

theorem log2RoundUp_small {m : Type → Type} [Monad m] [MonadExcept (Fault DstError) m] {i : ℕ} (h1 : 1 ≤ i) (h6 : i ≤ 6) :
    (log2RoundUp i : m ℕ) = pure (Nat.log2 i + 1) := by
  rw [log2RoundUp_eq]
  interval_cases i <;> rfl

/-- A channel whose table number is new. -/
theorem readChannelMapping_reads {data : SegmentData} {channels ch : ℕ} (h6 : channels ≤ maxChannels) (hch : ch < channels)
    (h0 : 0 < ch) (h : Mapped data (List.range channels) ch) :
    ∃ data', Reads (readChannelMapping (data, ch) ch) (ofNat (Nat.log2 ch + 1) ch) (data', ch + 1) ∧
      Mapped data' (List.range channels) (ch + 1) := by
  obtain ⟨yss, hset, hm⟩ := h.assign (show ch < maxChannels by omega) (t := ch) (by simp [hch])
  refine ⟨_, ?_, hm⟩
  have hcount : data.segmentCount[ch]? = some 1 := by
    rw [h.count]
    exact List.getElem?_replicate_of_lt (by omega)
  have h6' : ch ≤ 6 := by simp only [maxChannels] at h6; omega
  rw [readChannelMapping, index_of_getElem? hcount, pure_bind, forRange_one, if_neg (by omega), readTableEntry,
    readTableNumber, log2RoundUp_small h0 h6', pure_bind]
  refine (readBits_ofNat (by have := Nat.log2_lt (n := ch) (k := 31) (by omega); omega) Nat.lt_log2_self).seq ?_
    (List.append_nil _).symm
  rw [hset, pure_bind, if_pos rfl, checkedAdd_of_le (by simp only [usizeMax]; omega), okOr_some, pure_bind]
  exact Reads.pure _

/-- The number of tables of a layout. -/
def DstTableStrategy.tableCount : DstTableStrategy → ℕ → ℕ
  | shared, _ => 1
  | perChannel, channels => channels

theorem shareMapping_default {ch : ℕ} (h : ch < maxChannels) :
    shareMapping SegmentData.default ch = pure SegmentData.default := by
  simp only [maxChannels] at h
  interval_cases ch <;> rfl

theorem mapping_reads {channels : ℕ} (h2 : 2 ≤ channels) (h6 : channels ≤ maxChannels) (layout : DstTableStrategy) :
    ∃ data, Reads (readTableMappingData channels (2 * channels) SegmentData.default) (mapBits channels layout)
        (data, layout.tableCount channels) ∧ Mapped data (layout.tableForChannel channels) channels := by
  have hset : ∀ {m : Type → Type} [Monad m] [MonadExcept (Fault DstError) m] [LawfulMonad m],
      (assign2 SegmentData.default.tableForSegment 0 0 0 : m _) = pure SegmentData.default.tableForSegment := by
    intro m _ _ _
    have hrow : SegmentData.default.tableForSegment[0]? = some (List.replicate maxSegments 0) := rfl
    rw [assign2, index_of_getElem? hrow, pure_bind, assign_of_lt (by decide), pure_bind, assign_of_lt (by decide)]
    rfl
  have hcount : SegmentData.default.segmentCount[0]? = some 1 := rfl
  have hmax : maxElements = 2 * maxChannels := rfl
  cases layout
  · refine ⟨SegmentData.default, ?_, rfl, rect_replicate _ _ _, ?_⟩
    · rw [readTableMappingData, hset, pure_bind]
      refine (readBit_reads true).seq ?_ rfl
      obtain ⟨d, hd, rfl⟩ := Reads.forRange_silent (fun _ d => d = SegmentData.default) shareMapping 1 channels
        (by omega) (by
          rintro ch - hch s rfl
          exact ⟨_, by rw [shareMapping_default (by omega)]; exact Reads.pure _, rfl⟩) (s := SegmentData.default) rfl
      simp only [if_true]
      rw [index_of_getElem? hcount, pure_bind, forRange_self, pure_bind]
      simp only [pure_bind]
      refine hd.seq ?_ rfl
      simp only [DstTableStrategy.tableCount]
      rw [if_neg (by omega)]
      exact Reads.pure _
    · intro ch hch
      simp only [SegmentData.default, DstTableStrategy.tableForChannel]
      rw [at2_replicate _ (by omega) (by decide), List.getElem?_replicate_of_lt hch]
  · -- the first channel's table is fixed, so the map has one entry before the loop
    obtain ⟨⟨data, n⟩, hd, hm, hn⟩ := Reads.forRange
      (fun ch (s : SegmentData × ℕ) => Mapped s.1 (List.range channels) (max ch 1) ∧ s.2 = max ch 1)
      (fun ch => if ch = 0 then [] else ofNat (Nat.log2 ch + 1) ch) readChannelMapping 0 channels (by omega) (by
        rintro ch - hch ⟨s, n⟩ ⟨hs, hn⟩
        simp only at hs hn
        by_cases h0 : ch = 0
        · subst h0
          have hc : s.segmentCount[0]? = some 1 := by rw [hs.count]; rfl
          refine ⟨(s, n), ?_, hs, hn⟩
          rw [readChannelMapping, index_of_getElem? hc, pure_bind, forRange_one, if_pos (by simp), if_pos rfl]
          exact Reads.pure _
        · rw [max_eq_left (by omega)] at hs hn
          obtain ⟨s', hr, hs'⟩ := readChannelMapping_reads h6 hch (by omega) hs
          subst hn
          rw [if_neg h0, max_eq_left (by omega)]
          exact ⟨_, hr, hs', rfl⟩)
      (s := (SegmentData.default, 1)) (by
        refine ⟨⟨rfl, rect_replicate _ _ _, fun ch hch => ?_⟩, rfl⟩
        obtain rfl : ch = 0 := by omega
        rw [List.getElem?_range (by omega)]
        rfl)
    rw [max_eq_left (by omega)] at hm hn
    have hbits : (List.range' 0 (channels - 0)).flatMap (fun ch => if ch = 0 then [] else ofNat (Nat.log2 ch + 1) ch) =
        (List.range' 1 (channels - 1)).flatMap fun i => ofNat (Nat.log2 i + 1) i := by
      obtain ⟨k, rfl⟩ : ∃ k, channels = k + 1 := ⟨channels - 1, by omega⟩
      rw [Nat.sub_zero, List.range'_succ, List.flatMap_cons, if_pos rfl, List.nil_append, Nat.add_sub_cancel]
      refine List.flatMap_congr fun i hi => ?_
      have := (List.mem_range'_1.1 hi).1
      rw [if_neg (by omega)]
    rw [hbits] at hd
    refine ⟨data, ?_, hm⟩
    rw [readTableMappingData, hset, pure_bind]
    refine (readBit_reads false).seq ?_ rfl
    simp only [Bool.false_eq_true, if_false]
    refine hd.seq ?_ (List.append_nil _).symm
    rw [hn]
    simp only [DstTableStrategy.tableCount]
    rw [if_neg (by omega)]
    exact Reads.pure _

/-- The probability map copies the filter map. -/
theorem copyMapping_default {filter : SegmentData} {tables : List ℕ} {channels : ℕ} (h6 : channels ≤ maxChannels)
    (hlen : tables.length = channels) (h : Mapped filter tables channels) :
    ∃ data, SegmentData.default.copyMappingFromFilter filter channels = .ok data ∧ Mapped data tables channels := by
  refine forRange_inv (fun ch data => Mapped data tables ch) (Nat.zero_le _) ?_ ⟨rfl, rect_replicate _ _ _, by simp⟩
  rintro ch - hch s hs
  have hch6 : ch < maxChannels := by omega
  have hc : ∀ {d : SegmentData}, d.segmentCount = List.replicate maxChannels 1 → d.segmentCount[ch]? = some 1 := by
    intro d hd
    rw [hd]
    exact List.getElem?_replicate_of_lt hch6
  have ht : tables[ch]? = some tables[ch] := List.getElem?_eq_getElem (by omega)
  obtain ⟨yss, hset, hm⟩ := hs.assign hch6 ht
  refine ⟨_, ?_, hm⟩
  rw [SegmentData.copyMappingChannel, index_of_getElem? (hc hs.count), pure_bind, index_of_getElem? (hc h.count),
    pure_bind, if_neg (by simp), forRange_one, SegmentData.copyMappingSegment, index2_of_at2 ((h.table ch hch).trans ht),
    pure_bind, hset, pure_bind]
  rfl

/-! ## The whole header -/

/-- What the decoder knows after the header of a frame with these tables. -/
structure Describes (syn : CompressedSyntax) (tables : List ℕ) (filters probabilities : List (List ℤ)) : Prop where
  filterSegments : SingleSegment syn.filterSegments tables
  probabilitySegments : SingleSegment syn.probabilitySegments tables
  filterElements : syn.filterTables.elements = filters.length
  probabilityElements : syn.probabilityTables.elements = probabilities.length
  filter : ∀ e (he : e < filters.length), syn.filterTables.Holds e filters[e]
  probability : ∀ e (he : e < probabilities.length), syn.probabilityTables.Holds e probabilities[e]
  half : syn.halfProbability = List.replicate maxChannels false
  halfBits : syn.halfProbabilityBits.length = maxChannels

theorem length_tableForChannel (layout : DstTableStrategy) (channels : ℕ) :
    (layout.tableForChannel channels).length = channels := by
  cases layout <;> simp [DstTableStrategy.tableForChannel]

theorem tableForChannel_lt (layout : DstTableStrategy) (channels : ℕ) :
    ∀ t ∈ layout.tableForChannel channels, t < layout.tableCount channels := by
  cases layout <;> simp [DstTableStrategy.tableForChannel, DstTableStrategy.tableCount]

theorem halfProbability_reads {channels : ℕ} (h6 : channels ≤ maxChannels) :
    Reads (forRange 0 (min channels maxChannels) (List.replicate maxChannels false) fun half ch => do
      assign half ch (← readBit)) (List.replicate channels false) (List.replicate maxChannels false) := by
  obtain ⟨half, hr, rfl⟩ := Reads.forRange (fun _ half => half = List.replicate maxChannels false) (fun _ => [false])
    (fun half ch => do assign half ch (← readBit)) 0 channels (Nat.zero_le _) (by
      rintro ch - hch half rfl
      refine ⟨_, (readBit_reads false).seq ?_ rfl, rfl⟩
      rw [assign_of_lt (by simp; omega), List.set_replicate_self]
      exact Reads.pure _) (s := List.replicate maxChannels false) rfl
  have hbits : (List.range' 0 (channels - 0)).flatMap (fun _ => [false]) = List.replicate channels false := by
    rw [← List.map_eq_flatMap, List.map_const', List.length_range', Nat.sub_zero]
  rw [hbits] at hr
  rw [min_eq_left h6]
  exact hr

theorem halfProbabilityBits_ok {segs : SegmentData} {tables : List ℕ} {channels : ℕ} (h6 : channels ≤ maxChannels)
    (hlen : tables.length = channels) (h : Mapped segs tables channels) {t : Table} (ht : t.Shaped)
    (hel : t.elements ≤ maxElements) (hlt : ∀ x ∈ tables, x < t.elements) :
    ∃ half, forRange 0 channels (List.replicate maxChannels 0) (readHalfProbabilityBits segs t) = .ok half ∧
      half.length = maxChannels := by
  refine forRange_inv (fun _ (half : List ℕ) => half.length = maxChannels) (Nat.zero_le _) ?_ (List.length_replicate)
  intro ch _ hch half hhalf
  have hmem : tables[ch]? = some tables[ch] := List.getElem?_eq_getElem (by omega)
  have hx := hlt _ (List.getElem_mem (show ch < tables.length by omega))
  have hlt' : tables[ch] < t.length.length := by rw [ht.length]; omega
  have hl : t.length[tables[ch]]? = some t.length[tables[ch]] := List.getElem?_eq_getElem hlt'
  refine ⟨half.set ch t.length[tables[ch]], ?_, by simpa using hhalf⟩
  rw [readHalfProbabilityBits, index2_of_at2 ((h.table ch hch).trans hmem), pure_bind, if_neg (by omega),
    index_of_getElem? hl, pure_bind, assign_of_lt (by omega)]
  rfl

/-- **The header round trip.** -/
theorem syntax_reads {channels : ℕ} (h2 : 2 ≤ channels) (h6 : channels ≤ maxChannels) (layout : DstTableStrategy)
    {filters : List (List ℤ)} {probabilities : List (List ℕ)} (hf : filters.length = layout.tableCount channels)
    (hp : probabilities.length = layout.tableCount channels)
    (hfilter : ∀ cs ∈ filters, cs ≠ [] ∧ cs.length ≤ 128 ∧ ∀ z ∈ cs, -255 ≤ z ∧ z ≤ 255)
    (hprobability : ∀ ps ∈ probabilities, ps ≠ [] ∧ ps.length ≤ 64 ∧ ∀ p ∈ ps, 1 ≤ p ∧ p ≤ 128) :
    ∃ syn, Reads (CompressedSyntax.read channels frameBytesPerChannel) (headerBits channels layout filters probabilities)
        syn ∧ Describes syn (layout.tableForChannel channels) filters (probabilities.map (List.map Nat.cast)) := by
  have hcount : 0 < layout.tableCount channels ∧ layout.tableCount channels ≤ maxChannels := by
    simp only [maxChannels] at h6 ⊢
    cases layout <;> simp only [DstTableStrategy.tableCount] <;> omega
  have hel : layout.tableCount channels ≤ maxElements := by
    have : maxElements = 2 * maxChannels := rfl
    omega
  have hlen := length_tableForChannel layout channels
  obtain ⟨segs, hmap, hsegs⟩ := mapping_reads h2 h6 layout
  obtain ⟨psegs, hcopy, hpsegs⟩ := copyMapping_default h6 hlen hsegs
  obtain ⟨ft, hft, hfs, hfe, hfh⟩ := readTable_reads fsetsCodePredCoeff 7 9 true 0 (fun z => ofNat 9 (z % 2 ^ 9).toNat)
    filters (by rw [← List.length_pos_iff]; omega) (by omega) (fun cs hcs => (hfilter cs hcs).1)
    (fun cs hcs => (hfilter cs hcs).2.1) (by omega) (fun cs hcs => by have := (hfilter cs hcs).2.1; omega)
    (fun cs hcs z hz => by
      have := (hfilter cs hcs).2.2 z hz
      rw [readUncodedCoeff, if_pos rfl]
      exact readSigned_ofNat (by omega) (by omega) (by norm_num; omega) (by norm_num; omega)) (by simp)
  -- the decoder's tables are of signed integers
  obtain ⟨ps, hps⟩ : ∃ ps : List (List ℤ), probabilities.map (List.map Nat.cast) = ps := ⟨_, rfl⟩
  have hmem : ∀ cs ∈ ps, ∃ qs ∈ probabilities, List.map (fun q : ℕ => (q : ℤ)) qs = cs := by
    intro cs hcs
    rw [← hps] at hcs
    exact List.mem_map.1 hcs
  have hplen : ps.length = layout.tableCount channels := by rw [← hps, List.length_map, hp]
  obtain ⟨pt, hpt, hpsh, hpe, hph⟩ := readTable_reads probsCodePredCoeff 6 7 false 1
    (fun z => ofNat 7 (z.toNat - 1)) ps (by rw [← List.length_pos_iff]; omega) (by omega)
    (fun cs hcs => by
      obtain ⟨qs, hqs, rfl⟩ := hmem cs hcs
      simpa using (hprobability qs hqs).1)
    (fun cs hcs => by
      obtain ⟨qs, hqs, rfl⟩ := hmem cs hcs
      have := (hprobability qs hqs).2.1
      simp only [List.length_map, maxTableLen]
      omega)
    (by omega)
    (fun cs hcs => by
      obtain ⟨qs, hqs, rfl⟩ := hmem cs hcs
      have := (hprobability qs hqs).2.1
      simp only [List.length_map]
      omega)
    (fun cs hcs z hz => by
      obtain ⟨qs, hqs, rfl⟩ := hmem cs hcs
      obtain ⟨q, hq, rfl⟩ := List.mem_map.1 hz
      obtain ⟨hq1, hq2⟩ := (hprobability qs hqs).2.2 q hq
      rw [readUncodedCoeff, if_neg (by simp), Int.toNat_natCast]
      refine (readBits_ofNat (by omega) (by omega)).seq ?_ (List.append_nil _).symm
      rw [show ((q - 1 : ℕ) : ℤ) + 1 = (q : ℤ) by omega, i32_of_fits (by omega) (by omega)]
      exact Reads.pure _)
    (fun _ cs hcs z hz => by
      obtain ⟨qs, hqs, rfl⟩ := hmem cs hcs
      obtain ⟨q, hq, rfl⟩ := List.mem_map.1 hz
      have := (hprobability qs hqs).2.2 q hq
      omega)
  have hpbits : ps.flatMap (elementBits 6 fun z => ofNat 7 (z.toNat - 1)) = probabilities.flatMap probabilityBits := by
    rw [← hps, List.flatMap_map]
    refine List.flatMap_congr fun qs _ => ?_
    simp [elementBits, probabilityBits, List.flatMap_map]
  rw [hpbits] at hpt
  obtain ⟨half, hhalf, hhl⟩ := halfProbabilityBits_ok h6 hlen hsegs hfs (by omega) (by
    rw [hfe, hf]
    exact tableForChannel_lt layout channels)
  rw [hps]
  refine ⟨⟨segs, psegs, ft, pt, List.replicate maxChannels false, half⟩, ?_,
    ⟨hsegs.single hlen h6, hpsegs.single hlen h6, hfe, hpe, hfh, hph, rfl, hhl⟩⟩
  rw [CompressedSyntax.read]
  have hbits : headerBits channels layout filters probabilities =
      [true] ++ ([true, true] ++ ([] ++ ([true] ++ (mapBits channels layout ++ ([] ++ (List.replicate channels false ++
        (filters.flatMap filterBits ++ (probabilities.flatMap probabilityBits ++ ([] ++ []))))))))) := by
    simp [headerBits]
  rw [hbits]
  refine (readBit_reads true).bind ((segments_reads (by omega) h6).bind ?_)
  simp only [if_true]
  refine (Reads.lift (copyFromFilter_default h6)).bind ((readBit_reads true).bind (hmap.bind ?_))
  simp only [if_true, pure_bind]
  refine (Reads.lift hcopy).bind ((halfProbability_reads h6).bind ?_)
  rw [hf] at hft
  rw [hplen] at hpt
  exact hft.bind (hpt.bind ((Reads.lift hhalf).bind (Reads.pure _)))

end Dst
