import Tonepoet.Dst.Header
import Tonepoet.Dst.SafeParse

/-!
# The header cannot fault (dst/decoder.rs:398-996)

Every length, segment count, table number and coefficient comes from the frame. What the readers store stays
inside the arrays and inside the ranges the later computations rely on: `SegmentData.Sane`, `Table.Sane`.
-/

namespace Dst

open Rust BitString BitReader Hoare

/-- In a rectangle every place has a value. -/
theorem exists_at2 {α : Type} {k l : ℕ} {xss : List (List α)} (h : Rect k l xss) {i j : ℕ} (hi : i < k) (hj : j < l) :
    ∃ a, at2 xss i j = some a := by
  have hi' : i < xss.length := by rw [h.length]; exact hi
  have hj' : j < xss[i].length := by rw [h.row _ (List.getElem_mem hi')]; exact hj
  exact ⟨xss[i][j], by simp [at2, hi', hj']⟩

/-! ## Segments -/

namespace SegmentData

/-- The arrays have their sizes and the numbers their ranges. -/
structure Sane (data : SegmentData) : Prop where
  shaped : data.Shaped
  table : Rect maxChannels maxSegments data.tableForSegment
  count : ∀ ch n : ℕ, data.segmentCount[ch]? = some n → 1 ≤ n ∧ n ≤ maxSegments
  unit : ∀ ch seg u : ℕ, at2 data.segmentLen ch seg = some u → u < 2 ^ 32
  resolution : 1 ≤ data.resolution ∧ data.resolution ≤ 2 ^ 15

theorem default_sane : Sane default where
  shaped := default_shaped
  table := rect_replicate _ _ _
  count := by
    intro ch n h
    obtain rfl := List.eq_of_mem_replicate (List.mem_of_getElem? h)
    decide
  unit := by
    intro ch seg u h
    obtain ⟨row, hrow, hu⟩ := Option.bind_eq_some_iff.1 h
    obtain rfl := List.eq_of_mem_replicate (List.mem_of_getElem? hrow)
    obtain rfl := List.eq_of_mem_replicate (List.mem_of_getElem? hu)
    decide
  resolution := ⟨le_rfl, by decide⟩

variable {data : SegmentData}

theorem Sane.channel (h : data.Sane) {ch : ℕ} (hch : ch < maxChannels) :
    ∃ n, data.segmentCount[ch]? = some n ∧ 1 ≤ n ∧ n ≤ maxSegments := by
  have hlt : ch < data.segmentCount.length := by rw [h.shaped.count]; exact hch
  exact ⟨data.segmentCount[ch], List.getElem?_eq_getElem hlt, h.count ch _ (List.getElem?_eq_getElem hlt)⟩

theorem Sane.setCount (h : data.Sane) (ch : ℕ) {n : ℕ} (hn : 1 ≤ n ∧ n ≤ maxSegments) :
    Sane { data with segmentCount := data.segmentCount.set ch n } where
  shaped := ⟨by simpa using h.shaped.count, h.shaped.len⟩
  table := h.table
  count := by
    intro c k hk
    rcases List.mem_or_eq_of_mem_set (List.mem_of_getElem? hk) with hk | rfl
    · obtain ⟨i, hi⟩ := List.getElem?_of_mem hk
      exact h.count i k hi
    · exact hn
  unit := h.unit
  resolution := h.resolution

/-- One stored length. -/
theorem Sane.setLen (h : data.Sane) {ch seg u : ℕ} (hch : ch < maxChannels) (hseg : seg < maxSegments) (hu : u < 2 ^ 32) :
    ∃ lens, (∀ {m : Type → Type} [Monad m] [MonadExcept (Fault DstError) m] [LawfulMonad m],
        (assign2 data.segmentLen ch seg u : m _) = pure lens) ∧ Sane { data with segmentLen := lens } := by
  obtain ⟨lens, hset, hrect, hat⟩ := assign2_spec (E := DstError) h.shaped.len hch hseg u
  refine ⟨lens, hset, ⟨⟨h.shaped.count, hrect⟩, h.table, h.count, fun c s v hv => ?_, h.resolution⟩⟩
  rw [hat] at hv
  split at hv
  · cases hv
    exact hu
  · exact h.unit c s v hv

/-- One stored table number. -/
theorem Sane.setTable (h : data.Sane) {ch seg : ℕ} (hch : ch < maxChannels) (hseg : seg < maxSegments) (t : ℕ) :
    ∃ tables, (∀ {m : Type → Type} [Monad m] [MonadExcept (Fault DstError) m] [LawfulMonad m],
        (assign2 data.tableForSegment ch seg t : m _) = pure tables) ∧ Sane { data with tableForSegment := tables } := by
  obtain ⟨tables, hset, hrect, -⟩ := assign2_spec (E := DstError) h.table hch hseg t
  exact ⟨tables, hset, ⟨⟨h.shaped.count, h.shaped.len⟩, hrect, h.count, h.unit, h.resolution⟩⟩

/-- A length of a sane table in bits. -/
theorem Sane.segmentLenBits_sound (h : data.Sane) {ch seg : ℕ} (hch : ch < maxChannels) (hseg : seg < maxSegments) :
    Returns Expected (fun len => len ≤ 2 ^ 50) (data.segmentLenBits ch seg) := by
  obtain ⟨u, hu⟩ := exists_at2 h.shaped.len hch hseg
  have hunit := h.unit _ _ _ hu
  have hres := h.resolution.2
  have h8 : data.resolution * 8 ≤ 2 ^ 18 := by omega
  have hmul : data.resolution * 8 * u ≤ 2 ^ 18 * 2 ^ 32 := Nat.mul_le_mul h8 hunit.le
  have hmax : (2 : ℕ) ^ 18 * 2 ^ 32 ≤ usizeMax := by decide
  rw [segmentLenBits, index2_of_at2 hu, pure_bind, checkedMul_of_le (h8.trans (by decide)), Option.bind_some,
    checkedMul_of_le (hmul.trans hmax), okOr_some]
  exact hmul

section Read

variable {frameBytes minSegmentBits maxSegs : ℕ}

theorem readResolution_safe (h : data.Sane) (hframe : frameBytes ≤ 2 ^ 15) (hmin : minSegmentBits / 8 ≤ frameBytes) :
    Safe (fun data' => data'.Sane) 31 (data.readResolution frameBytes minSegmentBits) := by
  unfold readResolution
  rw [checkedSub_of_le hmin, okOr_some, pure_bind, ← bind_assoc]
  refine (readRounded_safe (by omega)).bind le_rfl fun resolution _ => ?_
  refine Safe.ite (fun _ => Safe.fail rfl) fun hres => Safe.pure ?_
  exact ⟨⟨h.shaped.count, h.shaped.len⟩, h.table, h.count, h.unit, by simp only; omega⟩

/-- One channel's loop: the budget is what the lengths leave of the frame. -/
theorem readLoop_safe {ch : ℕ} (hch : ch < maxChannels) (hmax : maxSegs ≤ maxSegments) (hframe : frameBytes ≤ 2 ^ 15)
    (data : SegmentData) (definedBits budget seg : ℕ) (resolutionRead : Bool) (h : data.Sane) (hseg : seg < maxSegs)
    (hbudget : budget * 8 + definedBits + minSegmentBits = frameBytes * 8) :
    Safe (fun data' => data'.Sane) ((maxSegs - seg) * 64)
      (data.readOneChannelSegmentsLoop ch frameBytes maxSegs minSegmentBits definedBits budget seg resolutionRead) := by
  have hcost : (maxSegs - seg) * 64 = 64 + (maxSegs - (seg + 1)) * 64 := by omega
  rw [readOneChannelSegmentsLoop]
  refine readBit_safe.bind (by omega) fun stop _ => ?_
  cases stop
  · simp only [Bool.false_eq_true, if_false]
    split
    · exact Safe.fail rfl
    rw [ite_bind_both]
    have hres : Safe (fun data' => data'.Sane) 31
        (if resolutionRead then pure data else data.readResolution frameBytes minSegmentBits) :=
      Safe.ite (fun _ => Safe.pure h) fun _ => readResolution_safe h hframe (by omega)
    refine hres.bind (by omega) fun data₁ h₁ => ?_
    obtain ⟨hlo, hhi⟩ := h₁.resolution
    have hunits : budget / data₁.resolution ≤ budget := Nat.div_le_self _ _
    rw [if_neg (by omega), okOr_some, pure_bind, ← bind_assoc]
    refine (readRounded_safe (by omega)).bind (by omega) fun u hu => ?_
    have h8 : data₁.resolution * 8 ≤ 2 ^ 18 := by omega
    have hlen : data₁.resolution * 8 * u ≤ 2 ^ 18 * 2 ^ 32 := Nat.mul_le_mul h8 hu.le
    have hmaxlen : (2 : ℕ) ^ 18 * 2 ^ 32 ≤ usizeMax := by decide
    have hmaxframe : frameBytes * 8 ≤ usizeMax := by simp only [usizeMax]; omega
    rw [checkedMul_of_le (h8.trans (by decide)), Option.bind_some, checkedMul_of_le (hlen.trans hmaxlen), okOr_some,
      pure_bind, checkedMul_of_le hmaxframe, Option.bind_some, checkedSub_of_le (by omega), Option.bind_some,
      checkedSub_of_le (by omega), okOr_some, pure_bind]
    refine Safe.ite (fun _ => Safe.fail rfl) fun hok => ?_
    obtain ⟨lens, hset, hsane⟩ := h₁.setLen hch (show seg < maxSegments by omega) hu
    have hmul : data₁.resolution * 8 * u = data₁.resolution * u * 8 := by ring
    rw [hset, pure_bind, checkedAdd_of_le (by omega), okOr_some, pure_bind, checkedMul_of_le (by omega), okOr_some,
      pure_bind, checkedSub_of_le (by omega), okOr_some, pure_bind]
    refine (readLoop_safe hch hmax hframe { data₁ with segmentLen := lens } _ _ (seg + 1) true hsane (by omega)
      (by omega)).mono (by omega) fun _ => id
  · simp only [if_true]
    obtain ⟨lens, hset, hsane⟩ := h.setLen hch (show seg < maxSegments by omega) (show 0 < 2 ^ 32 by decide)
    have hcount := (hsane.setCount ch (show 1 ≤ seg + 1 ∧ seg + 1 ≤ maxSegments by omega))
    rw [checkedAdd_of_le (by simp only [maxSegments, maxProbabilitySegments, usizeMax] at *; omega), okOr_some, pure_bind,
      assign_of_lt (by rw [h.shaped.count]; exact hch), pure_bind, hset, pure_bind]
    refine Safe.pure ⟨⟨hcount.shaped.count, hcount.shaped.len⟩, hcount.table, hcount.count, hcount.unit, ?_⟩
    have := h.resolution
    simp only
    split <;> omega
termination_by maxSegs - seg

theorem readOneChannelSegments_safe (h : data.Sane) {ch : ℕ} (hch : ch < maxChannels) (h0 : 0 < maxSegs)
    (hmax : maxSegs ≤ maxSegments) (hframe : frameBytes ≤ 2 ^ 15) (hmin : minSegmentBits / 8 ≤ frameBytes)
    (h8 : 8 ∣ minSegmentBits) :
    Safe (fun data' => data'.Sane) 512 (data.readOneChannelSegments ch frameBytes maxSegs minSegmentBits) := by
  unfold readOneChannelSegments
  rw [checkedSub_of_le hmin, okOr_some, pure_bind]
  refine (readLoop_safe hch hmax hframe data 0 _ 0 false h h0 (by omega)).mono ?_ fun _ => id
  simp only [maxSegments, maxProbabilitySegments] at hmax
  omega

theorem copyChannelZero_safe (h : data.Sane) {ch : ℕ} (hch : ch < maxChannels) :
    Safe (fun data' => data'.Sane) 0 (data.copyChannelZero ch) := by
  obtain ⟨n, hn, hn1, hn8⟩ := h.channel (show 0 < maxChannels by decide)
  unfold copyChannelZero
  rw [index_of_getElem? hn, pure_bind, assign_of_lt (by rw [h.shaped.count]; exact hch), pure_bind]
  refine (Safe.forRange (c := 0) (k := 0) (fun _ lens => Sane { data with segmentLen := lens }) (Nat.zero_le n) ?_ h
    (by simp)).bind le_rfl fun lens hlens => Safe.pure (hlens.setCount ch ⟨hn1, hn8⟩)
  intro seg _ hseg lens hlens
  obtain ⟨u, hu⟩ := exists_at2 hlens.shaped.len (show 0 < maxChannels by decide) (show seg < maxSegments by omega)
  obtain ⟨lens', hset, hsane⟩ := hlens.setLen hch (show seg < maxSegments by omega) (hlens.unit _ _ _ hu)
  rw [index2_of_at2 hu, pure_bind, hset]
  exact Safe.pure hsane

theorem read_safe {channels : ℕ} (h1 : 1 ≤ channels) (h6 : channels ≤ maxChannels) (h0 : 0 < maxSegs)
    (hmax : maxSegs ≤ maxSegments) (hframe : frameBytes ≤ 2 ^ 15) (hmin : minSegmentBits / 8 ≤ frameBytes)
    (h8 : 8 ∣ minSegmentBits) :
    Safe (fun out => out.1.Sane) 4096 (read channels frameBytes maxSegs minSegmentBits) := by
  have h6' : channels ≤ 6 := h6
  unfold read
  refine readBit_safe.bind (by omega) fun same _ => ?_
  cases same
  · simp only [Bool.false_eq_true, if_false]
    refine (Safe.forRange (c := 512) (k := 3072) (fun _ data => data.Sane) (Nat.zero_le channels) (fun ch _ hch data h =>
      readOneChannelSegments_safe h (show ch < maxChannels by omega) h0 hmax hframe hmin h8) default_sane (by omega)).bind
      (by omega) fun data h => Safe.pure h
  · simp only [if_true]
    refine (readOneChannelSegments_safe default_sane (show 0 < maxChannels by decide) h0 hmax hframe hmin h8).bind
      (by omega) fun data h => ?_
    exact (Safe.forRange (c := 0) (k := 0) (fun _ data => data.Sane) h1 (fun ch _ hch data h =>
      copyChannelZero_safe h (show ch < maxChannels by omega)) h (by simp)).bind (by omega) fun data h => Safe.pure h

end Read

section Copy

variable {channels : ℕ} {filter : SegmentData}

theorem copyFromFilter_sound (h : filter.Sane) (h6 : channels ≤ maxChannels) :
    Returns Expected (fun data => data.Sane) (copyFromFilterForProbability filter channels) := by
  refine (Sound.forRange (fun _ data => data = filter) (Nat.zero_le channels) ?_ rfl).mono fun data hd => hd ▸ h
  rintro ch - hch data rfl
  have hch6 : ch < maxChannels := by omega
  obtain ⟨n, hn, -, hn8⟩ := h.channel hch6
  unfold checkCopiedChannel
  rw [index_of_getElem? hn, pure_bind]
  refine Sound.forRange (fun _ p => p = data) (Nat.zero_le n) ?_ rfl
  rintro seg - hseg p rfl
  obtain ⟨u, hu⟩ := exists_at2 h.shaped.len hch6 (show seg < maxSegments by omega)
  have hunit := h.unit _ _ _ hu
  have hres := h.resolution.2
  have h8 : p.resolution * 8 ≤ 2 ^ 18 := by omega
  have hmul : p.resolution * 8 * u ≤ 2 ^ 18 * 2 ^ 32 := Nat.mul_le_mul h8 hunit.le
  have hmax : (2 : ℕ) ^ 18 * 2 ^ 32 ≤ usizeMax := by decide
  unfold checkCopiedSegment
  rw [index2_of_at2 hu, pure_bind]
  refine Returns.ite (fun _ => ?_) fun _ => rfl
  rw [checkedMul_of_le (h8.trans (by decide)), Option.bind_some, checkedMul_of_le (hmul.trans hmax), okOr_some, pure_bind]
  exact Returns.ite (fun _ => Sound.fail rfl) fun _ => rfl

theorem copyMapping_sound (h : data.Sane) (hf : filter.Sane) (h6 : channels ≤ maxChannels) :
    Returns Expected (fun data => data.Sane) (data.copyMappingFromFilter filter channels) := by
  refine Sound.forRange (fun _ (data : SegmentData) => data.Sane) (Nat.zero_le channels) ?_ h
  intro ch _ hch data h
  have hch6 : ch < maxChannels := by omega
  obtain ⟨n, hn, -, hn8⟩ := h.channel hch6
  obtain ⟨k, hk, -, -⟩ := hf.channel hch6
  unfold copyMappingChannel
  rw [index_of_getElem? hn, pure_bind, index_of_getElem? hk, pure_bind]
  refine Returns.ite (fun _ => Sound.fail rfl) fun _ => ?_
  refine Sound.forRange (fun _ (data : SegmentData) => data.Sane) (Nat.zero_le n) ?_ h
  intro seg _ hseg data h
  obtain ⟨t, ht⟩ := exists_at2 hf.table hch6 (show seg < maxSegments by omega)
  obtain ⟨tables, hset, hsane⟩ := h.setTable hch6 (show seg < maxSegments by omega) t
  unfold copyMappingSegment
  rw [index2_of_at2 ht, pure_bind, hset, pure_bind]
  exact hsane

end Copy
end SegmentData

/-! ## Maps -/

/-- A map under construction: at most one new table for each entry. -/
theorem readTableEntry_safe {segments : SegmentData} (h : segments.Sane) {countTables ch seg : ℕ} (hch : ch < maxChannels)
    (hseg : seg < maxSegments) (hcount : 1 ≤ countTables ∧ countTables ≤ 1000) :
    Safe (fun s => s.1.Sane ∧ s.1.segmentCount = segments.segmentCount ∧ 1 ≤ s.2 ∧ s.2 ≤ countTables + 1) 31
      (readTableEntry segments countTables ch seg) := by
  unfold readTableEntry readTableNumber
  refine (readRounded_safe (by omega)).bind le_rfl fun value _ => ?_
  obtain ⟨tables, hset, hsane⟩ := h.setTable hch hseg value
  rw [hset, pure_bind]
  refine Safe.ite (fun _ => ?_) fun _ => Safe.ite (fun _ => Safe.fail rfl) fun _ => Safe.pure ⟨hsane, rfl, by simp only; omega⟩
  rw [checkedAdd_of_le (by simp only [usizeMax]; omega), okOr_some, pure_bind]
  exact Safe.pure ⟨hsane, rfl, by simp only; omega⟩

theorem shareMapping_safe {segments : SegmentData} (h : segments.Sane) {ch : ℕ} (hch : ch < maxChannels) :
    Safe (fun s => s.Sane) 0 (shareMapping segments ch) := by
  obtain ⟨n, hn, -, hn8⟩ := h.channel (show 0 < maxChannels by decide)
  obtain ⟨k, hk, -, -⟩ := h.channel hch
  unfold shareMapping
  rw [index_of_getElem? hn, pure_bind, index_of_getElem? hk, pure_bind]
  refine Safe.ite (fun _ => Safe.fail rfl) fun _ => ?_
  refine Safe.forRange (c := 0) (fun _ (s : SegmentData) => s.Sane) (Nat.zero_le n) ?_ h (by simp)
  intro seg _ hseg s hs
  obtain ⟨t, ht⟩ := exists_at2 hs.table (show 0 < maxChannels by decide) (show seg < maxSegments by omega)
  obtain ⟨tables, hset, hsane⟩ := hs.setTable hch (show seg < maxSegments by omega) t
  rw [index2_of_at2 ht, pure_bind, hset, pure_bind]
  exact Safe.pure hsane

theorem readChannelMapping_safe {s : SegmentData × ℕ} (h : s.1.Sane) {ch : ℕ} (hch : ch < maxChannels)
    (hcount : 1 ≤ s.2 ∧ s.2 ≤ 1 + 8 * ch) :
    Safe (fun s => s.1.Sane ∧ 1 ≤ s.2 ∧ s.2 ≤ 1 + 8 * (ch + 1)) 248 (readChannelMapping s ch) := by
  have hch' : ch < 6 := hch
  obtain ⟨n, hn, -, hn8⟩ := h.channel hch
  have hn8' : n ≤ 8 := hn8
  unfold readChannelMapping
  rw [index_of_getElem? hn, pure_bind]
  refine (Safe.forRange (c := 31) (fun seg (s : SegmentData × ℕ) => s.1.Sane ∧ 1 ≤ s.2 ∧ s.2 ≤ 1 + 8 * ch + seg)
    (Nat.zero_le n) ?_ ⟨h, hcount.1, hcount.2⟩ (by omega)).mono le_rfl fun s hs => ⟨hs.1, hs.2.1, by omega⟩
  rintro seg - hseg s ⟨hs, h1, hle⟩
  refine Safe.ite (fun _ => Safe.pure ⟨hs, h1, by omega⟩) fun _ => ?_
  exact (readTableEntry_safe hs hch (show seg < maxSegments by omega) ⟨h1, by omega⟩).mono le_rfl
    fun s hs => ⟨hs.1, hs.2.2.1, by omega⟩

theorem readTableMappingData_safe {segments : SegmentData} (h : segments.Sane) {channels maxTableCount : ℕ}
    (h1 : 1 ≤ channels) (h6 : channels ≤ maxChannels) :
    Safe (fun s => s.1.Sane ∧ 1 ≤ s.2 ∧ s.2 ≤ maxElements) 2048 (readTableMappingData channels maxTableCount segments) := by
  have h6' : channels ≤ 6 := h6
  obtain ⟨tables, hset, hsane⟩ := h.setTable (show 0 < maxChannels by decide) (show 0 < maxSegments by decide) 0
  unfold readTableMappingData
  rw [hset, pure_bind]
  refine readBit_safe.bind (by omega) fun same _ => ?_
  have hfinish : ∀ {k : ℕ} (s : SegmentData × ℕ), s.1.Sane →
      Safe (fun s => s.1.Sane ∧ 1 ≤ s.2 ∧ s.2 ≤ maxElements) k
        (if s.2 = 0 ∨ maxTableCount < s.2 ∨ maxElements < s.2 then fail (.invalidMapping "too many DST tables") else pure (s.1, s.2)) :=
    fun s hs => Safe.ite (fun _ => Safe.fail rfl) fun hok => Safe.pure ⟨hs, by simp only; omega⟩
  cases same
  · simp only [Bool.false_eq_true, if_false]
    refine (Safe.forRange (c := 248) (k := 1488) (fun ch (s : SegmentData × ℕ) => s.1.Sane ∧ 1 ≤ s.2 ∧ s.2 ≤ 1 + 8 * ch)
      (Nat.zero_le channels) (fun ch _ hch s hs => readChannelMapping_safe hs.1 (show ch < maxChannels by omega) hs.2)
      ⟨hsane, le_rfl, le_rfl⟩ (by omega)).bind (by omega) fun s hs => hfinish s hs.1
  · simp only [if_true]
    obtain ⟨n, hn, hn1, hn8⟩ := h.channel (show 0 < maxChannels by decide)
    have hn8' : n ≤ 8 := hn8
    rw [index_of_getElem? hn, pure_bind]
    simp only [pure_bind]
    refine (Safe.forRange (c := 31) (k := 248) (fun seg (s : SegmentData × ℕ) => s.1.Sane ∧ 1 ≤ s.2 ∧ s.2 ≤ seg) hn1 ?_
      ⟨hsane, le_rfl, le_rfl⟩ (by omega)).bind (by omega) fun s hs => ?_
    · rintro seg - hseg s ⟨hs, hs1, hle⟩
      exact (readTableEntry_safe hs (show 0 < maxChannels by decide) (show seg < maxSegments by omega) ⟨hs1, by omega⟩).mono
        le_rfl fun s hs => ⟨hs.1, hs.2.2.1, by omega⟩
    · refine (Safe.forRange (c := 0) (k := 0) (fun _ (s : SegmentData) => s.Sane) h1 (fun ch _ hch s hs => shareMapping_safe hs
        (show ch < maxChannels by omega)) hs.1 (by simp)).bind (by omega) fun t ht => ?_
      exact hfinish (t, s.2) ht

/-! ## Coefficient tables -/

/-- The three codings of coefficients fit nine bits. -/
def Coding (coeffBits : ℕ) (signed : Bool) (offset : ℤ) : Prop :=
  (coeffBits = 9 ∧ signed = true ∧ offset = 0) ∨ (coeffBits = 7 ∧ signed = false ∧ offset = 1)

/-- A predictor table: three methods of three taps. -/
structure Predictors (codePredCoeff : List (List ℤ)) : Prop where
  rect : Rect 3 3 codePredCoeff
  tap : ∀ (i j : ℕ) (z : ℤ), at2 codePredCoeff i j = some z → |z| ≤ 24

theorem predictors_of_all {xss : List (List ℤ)} (h : Rect 3 3 xss) (hall : ∀ row ∈ xss, ∀ z ∈ row, |z| ≤ 24) : Predictors xss where
  rect := h
  tap := by
    intro i j z hz
    obtain ⟨row, hrow, hz⟩ := Option.bind_eq_some_iff.1 hz
    exact hall row (List.mem_of_getElem? hrow) z (List.mem_of_getElem? hz)

theorem fsets_predictors : Predictors fsetsCodePredCoeff := predictors_of_all ⟨rfl, by decide⟩ (by decide)

theorem probs_predictors : Predictors probsCodePredCoeff := predictors_of_all ⟨rfl, by decide⟩ (by decide)

namespace Table

/-- The arrays have their sizes, the coefficients nine bits. -/
structure Sane (t : Table) : Prop where
  shaped : t.Shaped
  coeff : ∀ (e i : ℕ) (z : ℤ), at2 t.coeff e i = some z → |z| ≤ 256
  len : ∀ e n : ℕ, t.length[e]? = some n → n ≤ maxTableLen

theorem default_sane (n : ℕ) : Sane { Table.default with elements := n } where
  shaped := default_shaped n
  coeff := by
    intro e i z h
    obtain ⟨row, hrow, hz⟩ := Option.bind_eq_some_iff.1 h
    obtain rfl := List.eq_of_mem_replicate (List.mem_of_getElem? hrow)
    obtain rfl := List.eq_of_mem_replicate (List.mem_of_getElem? hz)
    decide
  len := by
    intro e k h
    obtain rfl := List.eq_of_mem_replicate (List.mem_of_getElem? h)
    decide

theorem Sane.setCoeff_safe {t : Table} (h : t.Sane) {element idx : ℕ} (he : element < maxElements) (hi : idx < maxTableLen)
    {z : ℤ} (hz : |z| ≤ 256) {c : ℕ} : Safe (fun t' => t'.Sane ∧ t'.elements = t.elements) c (setCoeff t element idx z) := by
  obtain ⟨t', hset, hshaped, hlen, hel, hat⟩ := setCoeff_spec h.shaped he hi z
  rw [hset]
  refine Safe.pure ⟨⟨hshaped, fun e i y hy => ?_, by rw [hlen]; exact h.len⟩, hel⟩
  rw [hat] at hy
  split at hy
  · cases hy
    exact hz
  · exact h.coeff e i y hy

end Table

section Tables

variable {coeffBits : ℕ} {signed : Bool} {offset : ℤ} {codePredCoeff : List (List ℤ)} {t : Table} {element length : ℕ}

theorem readUncodedCoeff_safe (hcode : Coding coeffBits signed offset) :
    Safe (fun z => |z| ≤ 256) 9 (readUncodedCoeff coeffBits signed offset) := by
  unfold readUncodedCoeff
  rcases hcode with ⟨rfl, rfl, rfl⟩ | ⟨rfl, rfl, rfl⟩
  · simp only [if_true]
    refine (readSigned_safe (by omega) (by omega)).mono le_rfl fun z hz => ?_
    rw [abs_le]
    omega
  · simp only [Bool.false_eq_true, if_false]
    refine (readBits_safe (by omega)).bind (by omega) fun v hv => ?_
    have hv' : v < 128 := hv
    rw [i32_of_fits (by omega) (by omega)]
    refine Safe.pure ?_
    rw [abs_le]
    omega

/-- A coefficient that passes the check has nine bits. -/
theorem validateCoeff_sound (hcode : Coding coeffBits signed offset) (z : ℤ) :
    Returns Expected (fun _ => |z| ≤ 256) (validateCoeff z coeffBits signed offset) := by
  unfold validateCoeff
  rcases hcode with ⟨rfl, rfl, rfl⟩ | ⟨rfl, rfl, rfl⟩
  · simp only [if_true]
    refine Returns.ite (fun _ => Sound.fail rfl) fun h => ?_
    norm_num at h
    refine Returns.pure (abs_le.2 ?_)
    omega
  · simp only [Bool.false_eq_true, if_false]
    refine Returns.ite (fun _ => Sound.fail rfl) fun h => ?_
    norm_num at h
    refine Returns.pure (abs_le.2 ?_)
    omega

theorem readRicePrefix_safe (n : ℕ) (hn : n ≤ 1000000) : Safe (· ≤ 1000000) (1000001 - n) (readRicePrefix n) := by
  rw [readRicePrefix]
  refine readBit_safe.bind (by omega) fun b _ => ?_
  cases b
  · simp only [Bool.false_eq_true, if_false]
    split
    · exact Safe.fail rfl
    · exact (readRicePrefix_safe (n + 1) (by omega)).mono (by omega) fun _ => id
  · exact Safe.pure hn
termination_by 1000000 - n

/-- A Rice code of at most seven low bits. -/
theorem getSrGolombDst_safe {k : ℕ} (hk : k ≤ 7) : Safe (fun v => |v| ≤ 2 ^ 28) 1000016 (getSrGolombDst k) := by
  unfold getSrGolombDst
  refine Safe.ite (fun h => absurd h (by omega)) fun _ => ?_
  refine (readRicePrefix_safe 0 (by omega)).bind (by omega) fun zeros hz => ?_
  refine (readBits_safe (n := k) (by omega)).bind (by omega) fun low hlow => ?_
  have hpow : 2 ^ k ≤ 2 ^ 7 := Nat.pow_le_pow_right (by omega) hk
  have hhigh : zeros <<< k ≤ 1000000 * 2 ^ 7 := by
    rw [Nat.shiftLeft_eq]
    exact Nat.mul_le_mul hz hpow
  have hlow' : low < 2 ^ 7 := hlow.trans_le hpow
  generalize zeros <<< k = high at hhigh ⊢
  rw [i32_of_fits (by omega) (by omega), pure_bind, i32_of_fits (by omega) (by omega), pure_bind]
  have hbound : |(high : ℤ) + low| ≤ 2 ^ 28 := by
    rw [abs_le]
    omega
  refine Safe.ite (fun _ => ?_) fun _ => Safe.pure hbound
  refine readBit_safe.bind (by omega) fun b _ => ?_
  refine Safe.ite (fun _ => i32_safe (by omega) (by omega) (by rwa [abs_neg])) fun _ => Safe.pure hbound

theorem readUncodedCoeffs_safe (hcode : Coding coeffBits signed offset) (h : t.Sane) (he : element < maxElements) {count : ℕ}
    (hcount : count ≤ maxTableLen) :
    Safe (fun t' => t'.Sane ∧ t'.elements = t.elements) (count * 9) (readUncodedCoeffs t element count coeffBits signed offset) := by
  unfold readUncodedCoeffs
  refine Safe.forRange (c := 9) (fun _ (t' : Table) => t'.Sane ∧ t'.elements = t.elements) (Nat.zero_le count) ?_ ⟨h, rfl⟩ (by omega)
  rintro idx - hidx t' ⟨h', hel⟩
  refine (readUncodedCoeff_safe hcode).bind le_rfl fun z hz => ?_
  exact (h'.setCoeff_safe he (by omega) hz).mono le_rfl fun t'' h'' => ⟨h''.1, h''.2.trans hel⟩

/-- The prediction of a coefficient from the ones before it. -/
theorem predicted_safe (hpred : Predictors codePredCoeff) (h : t.Sane) (he : element < maxElements) {method idx : ℕ}
    (hmethod : method < 3) (hidx : idx < maxTableLen) :
    Safe (fun p => |p| ≤ 18432) 0 (forRange 0 (method + 1) (0 : ℤ) fun predicted tap => do
      let product ← i32 ((← index2 codePredCoeff method tap) * (← index2 t.coeff element (idx - tap - 1)))
      i32 (predicted + product)) := by
  refine (Safe.forRange (c := 0) (k := 0) (fun tap (p : ℤ) => |p| ≤ tap * 6144) (Nat.zero_le _) ?_ (by simp)
    (by simp)).mono le_rfl fun p hp => ?_
  · rintro tap - htap p hp
    obtain ⟨x, hx⟩ := exists_at2 hpred.rect hmethod (show tap < 3 by omega)
    obtain ⟨y, hy⟩ := exists_at2 h.shaped.coeff he (show idx - tap - 1 < maxTableLen by omega)
    have hxy : |x * y| ≤ 6144 := by
      rw [abs_mul]
      calc |x| * |y| ≤ 24 * 256 := mul_le_mul (hpred.tap _ _ _ hx) (h.coeff _ _ _ hy) (abs_nonneg y) (by norm_num)
        _ = 6144 := by norm_num
    have hsum : |p + x * y| ≤ ((tap + 1 : ℕ) : ℤ) * 6144 := by
      refine (abs_add_le _ _).trans ?_
      push_cast
      linarith
    have htap3 : ((tap + 1 : ℕ) : ℤ) ≤ 3 := by omega
    have h1 := abs_le.1 hxy
    have h2 := abs_le.1 hsum
    rw [index2_of_at2 hx, pure_bind, index2_of_at2 hy, pure_bind, i32_of_fits (by omega) (by omega), pure_bind]
    exact i32_safe (by omega) (by omega) hsum
  · have hm : ((method + 1 : ℕ) : ℤ) ≤ 3 := by omega
    omega

theorem readPredictedCoeffs_safe (hcode : Coding coeffBits signed offset) (hpred : Predictors codePredCoeff) (h : t.Sane)
    (he : element < maxElements) (hlength : length ≤ maxTableLen) :
    Safe (fun t' => t'.Sane ∧ t'.elements = t.elements) (2 ^ 27)
      (readPredictedCoeffs t codePredCoeff element length coeffBits signed offset) := by
  have hlength' : length ≤ 128 := hlength
  unfold readPredictedCoeffs
  refine (readBits_safe (n := 2) (by omega)).bind (by omega) fun method _ => ?_
  rw [hpred.rect.length]
  refine Safe.ite (fun _ => Safe.fail rfl) fun hmethod => ?_
  refine Safe.ite (fun _ => Safe.fail rfl) fun hwarm => ?_
  refine (readUncodedCoeffs_safe hcode h he (by omega)).bind (by omega) fun t₁ h₁ => ?_
  refine (readBits_safe (n := 3) (by omega)).bind (by omega) fun lsbSize hlsb => ?_
  have hlsb' : lsbSize < 8 := hlsb
  refine Safe.forRange (c := 1000016) (fun _ (t' : Table) => t'.Sane ∧ t'.elements = t.elements) (by omega) ?_ h₁ ?_
  · rintro idx - hidx t₂ ⟨h₂, hel⟩
    refine (predicted_safe hpred h₂ he (show method < 3 by omega) (show idx < maxTableLen by omega)).bind (by omega) fun p hp => ?_
    refine (getSrGolombDst_safe (by omega)).bind (by omega) fun v hv => ?_
    have hp' := abs_le.1 hp
    have hv' := abs_le.1 hv
    have hrest : ∀ z : ℤ, Safe (fun t' => t'.Sane ∧ t'.elements = t.elements) 0 (do
        validateCoeff z coeffBits signed offset
        setCoeff t₂ element idx z) := fun z =>
      (Safe.lift (c := 0) (validateCoeff_sound hcode z)).bind le_rfl fun _ hz =>
        (h₂.setCoeff_safe he (show idx < maxTableLen by omega) hz).mono le_rfl fun t₃ h₃ => ⟨h₃.1, h₃.2.trans hel⟩
    refine Safe.ite (fun _ => ?_) fun _ => ?_
    · rw [i32_of_fits (by omega) (by omega), pure_bind, i32_of_fits (by omega) (by omega), pure_bind]
      exact (hrest _).mono (Nat.zero_le _) fun _ => id
    · rw [i32_of_fits (by omega) (by omega), pure_bind, i32_of_fits (by omega) (by omega), pure_bind,
        i32_of_fits (by omega) (by omega), pure_bind]
      exact (hrest _).mono (Nat.zero_le _) fun _ => id
  · have : (length - (method + 1)) * 1000016 ≤ 127 * 1000016 := Nat.mul_le_mul_right _ (by omega)
    omega

theorem readTableElement_safe (hcode : Coding coeffBits signed offset) (hpred : Predictors codePredCoeff) (h : t.Sane)
    (he : element < maxElements) {lengthBits : ℕ} (hlb : lengthBits ≤ 7) :
    Safe (fun t' => t'.Sane ∧ t'.elements = t.elements) (2 ^ 28)
      (readTableElement codePredCoeff lengthBits coeffBits signed offset t element) := by
  unfold readTableElement
  refine (readBits_safe (n := lengthBits) (by omega)).bind (by omega) fun v _ => ?_
  refine Safe.ite (fun _ => Safe.fail (by split <;> rfl)) fun hlen => ?_
  have hlen' : v + 1 ≤ maxTableLen := not_lt.1 hlen
  have h128 : v + 1 ≤ 128 := hlen'
  rw [assign_of_lt (by rw [h.shaped.length]; exact he), pure_bind]
  have h₁ : Table.Sane { t with length := t.length.set element (v + 1) } := by
    refine ⟨⟨by simpa using h.shaped.length, h.shaped.coeff⟩, h.coeff, fun e n hn => ?_⟩
    rcases List.mem_or_eq_of_mem_set (List.mem_of_getElem? hn) with hn | rfl
    · obtain ⟨i, hi⟩ := List.getElem?_of_mem hn
      exact h.len i n hi
    · exact hlen'
  refine readBit_safe.bind (by omega) fun coded _ => ?_
  rw [ite_bind_both]
  have hcoeffs : Safe (fun t' => t'.Sane ∧ t'.elements = t.elements) (2 ^ 27)
      (if coded then readPredictedCoeffs { t with length := t.length.set element (v + 1) } codePredCoeff element (v + 1) coeffBits
          signed offset
        else readUncodedCoeffs { t with length := t.length.set element (v + 1) } element (v + 1) coeffBits signed offset) :=
    Safe.ite (fun _ => (readPredictedCoeffs_safe hcode hpred h₁ he hlen').mono le_rfl fun _ h => h) fun _ =>
      (readUncodedCoeffs_safe hcode h₁ he hlen').mono (show (v + 1) * 9 ≤ 2 ^ 27 by omega) fun _ h => h
  refine hcoeffs.bind (by omega) fun t₂ h₂ => ?_
  have hclear : Safe (fun t' => t'.Sane ∧ t'.elements = t.elements) 0
      (forRange (v + 1) maxTableLen t₂ fun table idx => setCoeff table element idx 0) := by
    refine Safe.forRange (c := 0) (fun _ (t' : Table) => t'.Sane ∧ t'.elements = t.elements) hlen' ?_ h₂ (by simp)
    rintro idx - hidx t₃ ⟨h₃, hel⟩
    exact (h₃.setCoeff_safe he hidx (by simp)).mono le_rfl fun t₄ h₄ => ⟨h₄.1, h₄.2.trans hel⟩
  refine Safe.ite (fun _ => ?_) fun _ => hclear.mono (by omega) fun _ => id
  refine (Safe.forRange (c := 0) (k := 0) (fun _ (_ : Unit) => True) (Nat.zero_le (v + 1)) ?_ trivial (by simp)).bind (by omega)
    fun _ _ => hclear.mono (by omega) fun _ => id
  intro idx _ hidx _ _
  obtain ⟨z, hz⟩ := exists_at2 h₂.1.shaped.coeff he (show idx < maxTableLen by omega)
  rw [index2_of_at2 hz, pure_bind]
  exact Safe.ite (fun _ => Safe.fail rfl) fun _ => Safe.pure trivial

theorem readTable_safe (hcode : Coding coeffBits signed offset) (hpred : Predictors codePredCoeff) {elements lengthBits : ℕ}
    (hlb : lengthBits ≤ 7) :
    Safe (fun t' => t'.Sane ∧ t'.elements = elements ∧ elements ≤ maxElements) (2 ^ 32)
      (readTable { Table.default with elements := elements } codePredCoeff lengthBits coeffBits signed offset) := by
  unfold readTable
  refine Safe.ite (fun _ => Safe.fail rfl) fun hel => ?_
  simp only [not_or, not_lt] at hel
  have hel' : elements ≤ 12 := hel.2
  refine (Safe.forRange (c := 2 ^ 28) (k := 2 ^ 32) (fun _ (t' : Table) => t'.Sane ∧ t'.elements = elements)
    (Nat.zero_le elements) ?_ ⟨Table.default_sane elements, rfl⟩ ?_).mono le_rfl fun t' h' => ⟨h'.1, h'.2, hel.2⟩
  · rintro element - helement t' ⟨h', hels⟩
    exact (readTableElement_safe hcode hpred h' (show element < maxElements by omega) hlb).mono le_rfl
      fun t'' h'' => ⟨h''.1, h''.2.trans hels⟩
  · have : (elements - 0) * 2 ^ 28 ≤ 12 * 2 ^ 28 := Nat.mul_le_mul_right _ (by omega)
    omega

end Tables

/-! ## The whole header -/

structure CompressedSyntax.Sane (syn : CompressedSyntax) : Prop where
  filterSegments : syn.filterSegments.Sane
  probabilitySegments : syn.probabilitySegments.Sane
  filterTables : syn.filterTables.Sane
  probabilityTables : syn.probabilityTables.Sane
  filterElements : syn.filterTables.elements ≤ maxElements
  probabilityElements : syn.probabilityTables.elements ≤ maxElements
  half : syn.halfProbability.length = maxChannels
  halfBits : syn.halfProbabilityBits.length = maxChannels

theorem readHalfProbabilityBits_sound {segments : SegmentData} (h : segments.Sane) {t : Table} (ht : t.Sane)
    (hel : t.elements ≤ maxElements) {half : List ℕ} (hhalf : half.length = maxChannels) {ch : ℕ} (hch : ch < maxChannels) :
    Returns Expected (fun half' => half'.length = maxChannels) (readHalfProbabilityBits segments t half ch) := by
  obtain ⟨table, htable⟩ := exists_at2 h.table hch (show 0 < maxSegments by decide)
  unfold readHalfProbabilityBits
  rw [index2_of_at2 htable, pure_bind]
  refine Returns.ite (fun _ => Sound.fail rfl) fun hlt => ?_
  have hlt' : table < t.length.length := by rw [ht.shaped.length]; omega
  rw [index_of_getElem? (List.getElem?_eq_getElem hlt'), pure_bind, assign_of_lt (by rw [hhalf]; exact hch)]
  exact Returns.pure (by simpa using hhalf)

/-- **The header is total**: it is read with a bounded number of bits, or refused. -/
theorem CompressedSyntax.read_safe {channels frameBytes : ℕ} (h1 : 1 ≤ channels) (h6 : channels ≤ maxChannels)
    (hframe : frameBytes ≤ 2 ^ 15) (hmin : 128 ≤ frameBytes) :
    Safe (fun syn => syn.Sane) (2 ^ 34) (CompressedSyntax.read channels frameBytes) := by
  have h6' : channels ≤ 6 := h6
  have hread : ∀ {maxSegs minSegmentBits : ℕ}, 0 < maxSegs → maxSegs ≤ maxSegments → minSegmentBits / 8 ≤ 128 →
      8 ∣ minSegmentBits → Safe (fun out => out.1.Sane) 4096 (SegmentData.read channels frameBytes maxSegs minSegmentBits) :=
    fun h0 hmax h128 h8 => SegmentData.read_safe h1 h6 h0 hmax hframe (by omega) h8
  unfold CompressedSyntax.read
  refine readBit_safe.bind (by omega) fun sameSegments _ => ?_
  refine (hread (by decide) (by decide) (by decide) (by decide)).bind (by omega) fun f hf => ?_
  obtain ⟨f, _⟩ := f
  simp only [pure_bind]
  refine Safe.ite_bind (c := 4096) (g := Prod.fst) (fun _ => (Safe.lift (c := 0) (SegmentData.copyFromFilter_sound hf h6)).mono
    (by omega) fun _ => id) (fun _ => hread (by decide) (by decide) (by decide) (by decide)) (by omega) fun p hp => ?_
  refine readBit_safe.bind (by omega) fun sameMap _ => ?_
  refine (readTableMappingData_safe hf h1 h6).bind (by omega) fun fm hfm => ?_
  obtain ⟨fm, tableCount⟩ := fm
  simp only
  rw [← ite_not]
  refine Safe.ite_bind (c := 2048) (g := fun s => (s, tableCount)) (Q := fun s => s.1.Sane ∧ s.2 ≤ maxElements)
    (fun _ => (readTableMappingData_safe hp h1 h6).mono le_rfl fun s hs => ⟨hs.1, hs.2.2⟩)
    (fun _ => (Safe.lift (c := 0) (SegmentData.copyMapping_sound hp hfm.1 h6)).mono (by omega) fun s hs => ⟨hs, hfm.2.2⟩)
    (by omega) fun pm hpm => ?_
  refine (Safe.forRange (c := 1) (k := 6) (fun _ (half : List Bool) => half.length = maxChannels) (Nat.zero_le _) ?_
    List.length_replicate (show (min channels maxChannels - 0) * 1 ≤ 6 by omega)).bind (by omega) fun half hhalf => ?_
  · intro ch _ hch half hhalf
    refine readBit_safe.bind le_rfl fun b _ => ?_
    rw [assign_of_lt (by omega)]
    exact Safe.pure (by simpa using hhalf)
  refine (readTable_safe (.inl ⟨rfl, rfl, rfl⟩) fsets_predictors (show 7 ≤ 7 by omega)).bind (by omega) fun ft hft => ?_
  refine (readTable_safe (.inr ⟨rfl, rfl, rfl⟩) probs_predictors (show 6 ≤ 7 by omega)).bind (by omega) fun pt hpt => ?_
  have hbits : Returns Expected (fun half : List ℕ => half.length = maxChannels)
      (forRange 0 channels (List.replicate maxChannels 0) (readHalfProbabilityBits fm ft)) :=
    Sound.forRange (fun _ (half : List ℕ) => half.length = maxChannels) (Nat.zero_le channels) (fun ch _ hch half hh =>
      readHalfProbabilityBits_sound hfm.1 hft.1 (by rw [hft.2.1]; exact hft.2.2) hh (show ch < maxChannels by omega))
      List.length_replicate
  refine (Safe.lift (c := 0) hbits).bind (by omega) fun bits hb => Safe.pure ?_
  exact ⟨hfm.1, hpm.1, hft.1, hpt.1, by rw [hft.2.1]; exact hft.2.2, by rw [hpt.2.1]; exact hpt.2.2, hhalf, hb⟩

end Dst
