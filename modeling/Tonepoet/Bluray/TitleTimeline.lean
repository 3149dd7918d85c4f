import Tonepoet.Bluray.PtsMapper
import Mathlib.Data.List.ReduceOption

/-!
# The mapper finds the places of the title

Clocks start over from clip to clip. What keeps the mapper in the right clip is that it never goes back, and that a reading
of the next clip, taken for one of this clip, is a place too far behind.
-/

namespace Bluray

open ClockDistance

variable {segment a b : BlurayPtsContinuitySegment} {segments : List BlurayPtsContinuitySegment} {m : BlurayPtsMapper}
  {rawPts90k p q last index i j : ℕ}

theorem ptsForwardDistance_eq (startPts90k endPts90k : ℕ) :
    ptsForwardDistance startPts90k endPts90k = forward pts33bitModulus startPts90k endPts90k := by
  have hpos : 0 < pts33bitModulus := by decide
  have hstart := Nat.mod_lt startPts90k hpos
  have hend := Nat.mod_lt endPts90k hpos
  simp only [ptsForwardDistance, forward]
  generalize startPts90k % pts33bitModulus = start at *
  generalize endPts90k % pts33bitModulus = end_ at *
  split
  · rw [show end_ + (pts33bitModulus - start) = end_ - start + pts33bitModulus by omega, Nat.add_mod_right, Nat.mod_eq_of_lt (by omega)]
  · rw [Nat.mod_eq_of_lt (by omega), Nat.add_comm]

/-! ## Validated segments -/

/-- The place is in the segment's part of the title. -/
def BlurayPtsContinuitySegment.Contains (segment : BlurayPtsContinuitySegment) (p : ℕ) : Prop :=
  segment.titleStartPts90k.toNat ≤ p ∧ p < segment.titleEndPts90k.toNat

instance (segment : BlurayPtsContinuitySegment) (p : ℕ) : Decidable (segment.Contains p) := inferInstanceAs (Decidable (_ ∧ _))

def BlurayPtsContinuitySegment.duration (segment : BlurayPtsContinuitySegment) : ℕ :=
  segment.titleEndPts90k.toNat - segment.titleStartPts90k.toNat

/-- A segment whose clip lasts as long as its part of the title. -/
structure BlurayPtsContinuitySegment.Valid (segment : BlurayPtsContinuitySegment) : Prop where
  nonempty : segment.titleStartPts90k.toNat < segment.titleEndPts90k.toNat
  clip : forward pts33bitModulus segment.clipStartPts90k.toNat segment.clipEndPts90k.toNat = segment.duration

/-- Segments that do not overlap, in the order of the title. -/
structure Timeline (segments : List BlurayPtsContinuitySegment) : Prop where
  valid : ∀ segment ∈ segments, segment.Valid
  ordered : segments.Pairwise fun a b => a.titleEndPts90k.toNat ≤ b.titleStartPts90k.toNat

theorem validatePtsSegment_ok {previous : Option ℕ} (h : validatePtsSegment previous segment = .ok ()) :
    segment.Valid ∧ ∀ e ∈ previous, e ≤ segment.titleStartPts90k.toNat := by
  simp only [validatePtsSegment] at h
  split at h
  · cases h
  split at h
  · cases h
  split at h
  · cases h
  split at h
  · cases h
  rename_i hrange hduration hsame hprevious
  rw [not_not, ptsForwardDistance_eq] at hsame
  refine ⟨⟨UInt64.lt_iff_toNat_lt.1 (UInt64.not_le.1 hrange), hsame.symm⟩, ?_⟩
  rintro e rfl
  simpa using hprevious

theorem validatePtsSegments_ok {previous : Option ℕ} (h : validatePtsSegments previous segments = .ok ()) :
    Timeline segments ∧ ∀ e ∈ previous, ∀ segment ∈ segments, e ≤ segment.titleStartPts90k.toNat := by
  induction segments generalizing previous with
  | nil => exact ⟨⟨by simp, .nil⟩, by simp⟩
  | cons segment segments ih =>
    obtain ⟨⟨⟩, hsegment, hrest⟩ := Rust.bind_eq_ok.1 h
    obtain ⟨hvalid, hprevious⟩ := validatePtsSegment_ok hsegment
    obtain ⟨⟨hvalids, hordered⟩, hbehind⟩ := ih hrest
    have hbehind := hbehind _ rfl
    refine ⟨⟨?_, .cons hbehind hordered⟩, ?_⟩
    · rintro s (_ | ⟨_, hs⟩)
      · exact hvalid
      · exact hvalids s hs
    · intro e he s hs
      rcases List.mem_cons.1 hs with rfl | hs
      · exact hprevious e he
      · have := hprevious e he
        have := hvalid.nonempty
        have := hbehind s hs
        omega

theorem Timeline.le (h : Timeline segments) (hij : i < j) (ha : segments[i]? = some a) (hb : segments[j]? = some b) :
    a.titleEndPts90k.toNat ≤ b.titleStartPts90k.toNat := by
  obtain ⟨hi, rfl⟩ := List.getElem?_eq_some_iff.1 ha
  obtain ⟨hj, rfl⟩ := List.getElem?_eq_some_iff.1 hb
  exact List.pairwise_iff_getElem.1 h.ordered i j hi hj hij

theorem Timeline.get (h : Timeline segments) (ha : segments[i]? = some a) : a.Valid := h.valid a (List.mem_of_getElem? ha)

/-- A place is in one segment. -/
theorem Timeline.index_unique (h : Timeline segments) (ha : segments[i]? = some a) (hb : segments[j]? = some b) (hpa : a.Contains p)
    (hpb : b.Contains p) : i = j := by
  rcases lt_trichotomy i j with hij | hij | hij
  · have := h.le hij ha hb
    have := hpa.2
    have := hpb.1
    omega
  · exact hij
  · have := h.le hij hb ha
    have := hpb.2
    have := hpa.1
    omega

/-- **What a valid segment makes of a reading**: the place as far behind its start as the reading is ahead of the start of the clip. -/
theorem mapRawPtsInSegment_eq (h : segment.Valid) (rawPts90k : ℕ) : mapRawPtsInSegment segment rawPts90k =
    if forward pts33bitModulus segment.clipStartPts90k.toNat rawPts90k < segment.duration then
      some (segment.titleStartPts90k.toNat + forward pts33bitModulus segment.clipStartPts90k.toNat rawPts90k) else none := by
  have hduration : segment.duration ≠ 0 := Nat.sub_ne_zero_of_lt h.nonempty
  have hend := segment.titleEndPts90k.toNat_lt
  have hmax : Rust.usizeMax = 2 ^ 64 - 1 := rfl
  simp only [mapRawPtsInSegment, ptsForwardDistance_eq, h.clip]
  generalize forward pts33bitModulus segment.clipStartPts90k.toNat rawPts90k = delta
  rw [if_neg hduration]
  by_cases hdelta : delta < segment.duration
  · rw [if_pos hdelta, if_neg (not_le.2 hdelta)]
    rw [BlurayPtsContinuitySegment.duration] at hdelta
    rw [Rust.checkedAdd_of_le (by omega)]
    exact if_pos (by omega)
  · rw [if_neg hdelta, if_pos (not_lt.1 hdelta)]

theorem contains_of_mapRaw (h : segment.Valid) (hmap : mapRawPtsInSegment segment rawPts90k = some p) : segment.Contains p := by
  rw [mapRawPtsInSegment_eq h] at hmap
  split at hmap
  · rename_i hlt
    cases hmap
    rw [BlurayPtsContinuitySegment.duration] at hlt
    exact ⟨Nat.le_add_right _ _, by omega⟩
  · cases hmap

/-! ## What is accepted -/

namespace BlurayPtsMapper

theorem segmentCandidate_eq_some {r : ℕ × ℕ} : m.segmentCandidate segments rawPts90k index = some r ↔
    r.1 = index ∧ (∃ segment, segments[index]? = some segment ∧ mapRawPtsInSegment segment rawPts90k = some r.2) ∧
      ∀ last ∈ m.lastTitlePts90k, last ≤ r.2 := by
  rw [segmentCandidate]
  constructor
  · intro h
    obtain ⟨segment, hsegment, h⟩ := Option.bind_eq_some_iff.1 h
    obtain ⟨mapped, hmapped, h⟩ := Option.bind_eq_some_iff.1 h
    split at h
    · rename_i hlast
      cases h
      exact ⟨rfl, ⟨segment, hsegment, hmapped⟩, fun last hl => of_decide_eq_true ((Option.all_eq_true _ _).1 hlast last hl)⟩
    · cases h
  · rintro ⟨rfl, ⟨segment, hsegment, hmapped⟩, hlast⟩
    refine Option.bind_eq_some_iff.2 ⟨segment, hsegment, Option.bind_eq_some_iff.2 ⟨_, hmapped, if_pos ?_⟩⟩
    exact (Option.all_eq_true _ _).2 fun last hl => decide_eq_true (hlast last hl)

theorem findSome_segmentCandidate {indices : List ℕ} {r : ℕ × ℕ}
    (h : indices.findSome? (m.segmentCandidate segments rawPts90k) = some r) : ∃ index ∈ indices, m.segmentCandidate segments rawPts90k index = some r :=
  List.exists_of_findSome?_eq_some h

theorem firstCandidate_mem {anchor : Option ℕ} {entries : List (BlurayPtsContinuitySegment × ℕ)} {best r : Option (ℕ × ℕ × ℕ)}
    (h : entries.foldl (firstCandidateStep anchor rawPts90k) best = r) :
    r = best ∨ ∃ entry ∈ entries, ∃ mapped score, r = some (entry.2, mapped, score) ∧ mapRawPtsInSegment entry.1 rawPts90k = some mapped := by
  induction entries generalizing best with
  | nil => exact .inl h.symm
  | cons entry entries ih =>
    rcases ih h with hr | ⟨e, he, hfound⟩
    · rw [firstCandidateStep] at hr
      split at hr
      · exact .inl hr
      · rename_i mapped hmapped
        dsimp only at hr
        split at hr
        · exact .inr ⟨entry, List.mem_cons_self, mapped, _, hr, hmapped⟩
        · exact .inl hr
    · exact .inr ⟨e, List.mem_cons_of_mem _ he, hfound⟩

theorem firstCandidate_eq_some {r : ℕ × ℕ} (h : m.firstCandidate segments rawPts90k = some r) :
    ∃ segment, segments[r.1]? = some segment ∧ mapRawPtsInSegment segment rawPts90k = some r.2 := by
  obtain ⟨⟨_, _, score⟩, hbest, rfl⟩ := Option.map_eq_some_iff.1 h
  rcases firstCandidate_mem hbest with hnone | ⟨entry, hentry, mapped, _, heq, hmapped⟩
  · cases hnone
  · cases heq
    exact ⟨entry.1, List.mem_zipIdx_iff_getElem?.1 hentry, hmapped⟩

/-- **What a call accepts**: a place that a segment makes of the reading, not before the last one. -/
theorem candidate_eq_some {r : ℕ × ℕ} (h : m.candidate segments rawPts90k = some r) :
    (∃ segment, segments[r.1]? = some segment ∧ mapRawPtsInSegment segment rawPts90k = some r.2) ∧ ∀ last ∈ m.lastTitlePts90k, last ≤ r.2 := by
  have hsearch : ∀ index, m.segmentCandidate segments rawPts90k index = some r →
      (∃ segment, segments[r.1]? = some segment ∧ mapRawPtsInSegment segment rawPts90k = some r.2) ∧ ∀ last ∈ m.lastTitlePts90k, last ≤ r.2 := by
    intro index h
    obtain ⟨rfl, hsegment, hlast⟩ := segmentCandidate_eq_some.1 h
    exact ⟨hsegment, hlast⟩
  rw [candidate, Option.orElse_eq_some, Option.orElse_eq_some, Option.orElse_eq_some] at h
  rcases h with hfirst | ⟨-, hhint | ⟨-, hforward | ⟨-, hbackward⟩⟩⟩
  · split at hfirst
    · rename_i hnone
      exact ⟨firstCandidate_eq_some hfirst, by rw [Option.isNone_iff_eq_none.1 hnone]; nofun⟩
    · cases hfirst
  · exact hsearch _ hhint
  · obtain ⟨index, -, h⟩ := findSome_segmentCandidate hforward
    exact hsearch index h
  · obtain ⟨index, -, h⟩ := findSome_segmentCandidate hbackward
    exact hsearch index h

/-! ## The place after a call -/

/-- The mapper is in the segment that its last place is in. -/
def Placed (m : BlurayPtsMapper) (segments : List BlurayPtsContinuitySegment) : Prop :=
  m.mode = .segmented segments ∧ ∃ index segment last, m.segmentHint = some index ∧ m.lastTitlePts90k = some last ∧
    segments[index]? = some segment ∧ segment.Contains last

theorem map_cases (hmode : m.mode = .segmented segments) (rawPts90k : ℕ) :
    (m.candidate segments rawPts90k = none ∧ m.mapPesPtsToTitlePts rawPts90k = (m, none)) ∨
      ∃ r, m.candidate segments rawPts90k = some r ∧ m.mapPesPtsToTitlePts rawPts90k = (m.acceptSegmentCandidate r.1 r.2, some r.2) := by
  rw [mapPesPtsToTitlePts, hmode]
  dsimp only
  cases hcandidate : m.candidate segments rawPts90k with
  | none => exact .inl ⟨rfl, rfl⟩
  | some r => exact .inr ⟨r, rfl, rfl⟩

theorem map_mode (hmode : m.mode = .segmented segments) (rawPts90k : ℕ) : (m.mapPesPtsToTitlePts rawPts90k).1.mode = .segmented segments := by
  rcases map_cases hmode rawPts90k with ⟨-, h⟩ | ⟨r, -, h⟩ <;> rw [h] <;> exact hmode

theorem prime_mode (m : BlurayPtsMapper) (p : ℕ) : (m.primeForTitlePts p).mode = m.mode := by
  rw [primeForTitlePts]
  dsimp only
  split
  · split <;> rfl
  · rfl

theorem prime_last (m : BlurayPtsMapper) (p : ℕ) : (m.primeForTitlePts p).lastTitlePts90k = m.lastTitlePts90k := by
  rw [primeForTitlePts]
  dsimp only
  split
  · split <;> rfl
  · rfl

/-- **Whatever is mapped places the mapper.** -/
theorem placed_of_map (htimeline : Timeline segments) (hmode : m.mode = .segmented segments)
    (hsome : (m.mapPesPtsToTitlePts rawPts90k).2 ≠ none) : (m.mapPesPtsToTitlePts rawPts90k).1.Placed segments := by
  rcases map_cases hmode rawPts90k with ⟨-, h⟩ | ⟨r, hcandidate, h⟩
  · rw [h] at hsome
    exact absurd rfl hsome
  · obtain ⟨⟨segment, hsegment, hmapped⟩, -⟩ := candidate_eq_some hcandidate
    rw [h]
    exact ⟨hmode, r.1, segment, r.2, rfl, rfl, hsegment, contains_of_mapRaw (htimeline.get hsegment) hmapped⟩

theorem Placed.map (h : m.Placed segments) (htimeline : Timeline segments) (rawPts90k : ℕ) :
    (m.mapPesPtsToTitlePts rawPts90k).1.Placed segments := by
  rcases map_cases h.1 rawPts90k with ⟨-, hnone⟩ | ⟨r, -, hsome⟩
  · rw [hnone]
    exact h
  · exact placed_of_map htimeline h.1 (by rw [hsome]; nofun)

theorem hint_of_placed (hindex : m.segmentHint = some index) (hsegment : segments[index]? = some segment) : m.hint segments = index := by
  obtain ⟨hlt, -⟩ := List.getElem?_eq_some_iff.1 hsegment
  rw [hint, hindex, Option.getD_some]
  omega

/-- **A mapper that is placed has nothing to find behind it.** -/
theorem Placed.backwardCandidate_eq_none (h : m.Placed segments) (htimeline : Timeline segments) (rawPts90k : ℕ) :
    m.backwardCandidate segments rawPts90k = none := by
  obtain ⟨-, index, segment, last, hindex, hlast, hsegment, hcontains⟩ := h
  rw [backwardCandidate, hint_of_placed hindex hsegment, List.findSome?_eq_none_iff]
  intro i hi
  rw [Option.eq_none_iff_forall_ne_some]
  intro r hr
  obtain ⟨rfl, ⟨a, ha, hmapped⟩, hle⟩ := segmentCandidate_eq_some.1 hr
  have hend := (contains_of_mapRaw (htimeline.get ha) hmapped).2
  have horder := htimeline.le (List.mem_range.1 hi) ha hsegment
  have hbefore := hle last hlast
  have hstart := hcontains.1
  omega

end BlurayPtsMapper

/-! ## Runs of calls -/

theorem runCalls_mode {calls : List PtsCall} (hmode : m.mode = .segmented segments) : (runCalls m calls).1.mode = .segmented segments := by
  induction calls generalizing m with
  | nil => exact hmode
  | cons call calls ih =>
    cases call with
    | prime p => exact ih (by rw [m.prime_mode, hmode])
    | map rawPts90k => exact ih (BlurayPtsMapper.map_mode hmode rawPts90k)

/-- **No call returns a place before an earlier one.** -/
theorem runCalls_sorted {calls : List PtsCall} (hmode : m.mode = .segmented segments) :
    (runCalls m calls).2.reduceOption.Pairwise (· ≤ ·) ∧
      ∀ last ∈ m.lastTitlePts90k, ∀ p ∈ (runCalls m calls).2.reduceOption, last ≤ p := by
  induction calls generalizing m with
  | nil => exact ⟨.nil, by simp [runCalls]⟩
  | cons call calls ih =>
    cases call with
    | prime p =>
      obtain ⟨hsorted, hlast⟩ := ih (m := m.primeForTitlePts p) (by rw [m.prime_mode, hmode])
      rw [m.prime_last] at hlast
      exact ⟨hsorted, hlast⟩
    | map rawPts90k =>
      obtain ⟨hsorted, hlast⟩ := ih (BlurayPtsMapper.map_mode hmode rawPts90k)
      rcases BlurayPtsMapper.map_cases hmode rawPts90k with ⟨-, hnone⟩ | ⟨r, hcandidate, hsome⟩
      · rw [hnone] at hsorted hlast
        simp only [runCalls, hnone, List.reduceOption_cons_of_none]
        exact ⟨hsorted, hlast⟩
      · rw [hsome] at hsorted hlast
        simp only [runCalls, hsome, List.reduceOption_cons_of_some, List.pairwise_cons, List.mem_cons]
        have hle := (BlurayPtsMapper.candidate_eq_some hcandidate).2
        refine ⟨⟨hlast _ rfl, hsorted⟩, ?_⟩
        rintro last hl p (rfl | hp)
        · exact hle last hl
        · exact (hle last hl).trans (hlast _ rfl p hp)

theorem runCalls_placed {raws : List ℕ} (htimeline : Timeline segments) (h : m.Placed segments) :
    (runCalls m (raws.map .map)).1.Placed segments := by
  induction raws generalizing m with
  | nil => exact h
  | cons rawPts90k raws ih => exact ih (h.map htimeline rawPts90k)

theorem runCalls_placed_of_mapped {raws : List ℕ} (htimeline : Timeline segments) (hmode : m.mode = .segmented segments)
    (hmapped : (runCalls m (raws.map .map)).2.reduceOption ≠ []) : (runCalls m (raws.map .map)).1.Placed segments := by
  induction raws generalizing m with
  | nil => exact absurd rfl hmapped
  | cons rawPts90k raws ih =>
    rcases BlurayPtsMapper.map_cases hmode rawPts90k with ⟨-, hnone⟩ | ⟨r, -, hsome⟩
    · simp only [List.map_cons, runCalls, hnone, List.reduceOption_cons_of_none] at hmapped ⊢
      exact ih hmode hmapped
    · have hplaced := BlurayPtsMapper.placed_of_map htimeline hmode (show (m.mapPesPtsToTitlePts rawPts90k).2 ≠ none by rw [hsome]; nofun)
      change (runCalls (m.mapPesPtsToTitlePts rawPts90k).1 (raws.map .map)).1.Placed segments
      exact runCalls_placed htimeline hplaced

/-! ## Positions of the title -/

/-- The clock reading at a place of the title. -/
def rawPts (segments : List BlurayPtsContinuitySegment) (p : ℕ) : ℕ :=
  match segments.find? fun segment => segment.Contains p with
  | some segment => (segment.clipStartPts90k.toNat + (p - segment.titleStartPts90k.toNat)) % pts33bitModulus
  | none => 0

/-- Segments that can be told apart by steps of at most `step` ticks. -/
structure Recoverable (step : ℕ) (segments : List BlurayPtsContinuitySegment) : Prop where
  long : ∀ segment ∈ segments, 2 * step ≤ segment.duration
  contiguous : ∀ i a b, segments[i]? = some a → segments[i + 1]? = some b → a.titleEndPts90k = b.titleStartPts90k
  apart : ∀ i a b, segments[i]? = some a → segments[i + 1]? = some b →
    ¬ (a.duration - 2 * step < ptsForwardDistance a.clipStartPts90k.toNat b.clipStartPts90k.toNat ∧
      ptsForwardDistance a.clipStartPts90k.toNat b.clipStartPts90k.toNat < a.duration)

theorem rawPts_eq (htimeline : Timeline segments) (ha : segments[i]? = some a) (hp : a.Contains p) :
    rawPts segments p = (a.clipStartPts90k.toNat + (p - a.titleStartPts90k.toNat)) % pts33bitModulus := by
  rw [rawPts]
  cases hfind : segments.find? fun segment => decide (segment.Contains p) with
  | none => exact absurd (decide_eq_true hp) (List.find?_eq_none.1 hfind a (List.mem_of_getElem? ha))
  | some b =>
    obtain ⟨j, hb⟩ := List.mem_iff_getElem?.1 (List.mem_of_find?_eq_some hfind)
    have hpb : b.Contains p := by simpa using List.find?_some hfind
    obtain rfl := htimeline.index_unique ha hb hp hpb
    rw [ha] at hb
    cases hb
    rfl

theorem BlurayPtsContinuitySegment.Valid.duration_lt (h : segment.Valid) : segment.duration < pts33bitModulus := by
  rw [← h.clip]
  exact forward_lt (by decide)

/-- A segment maps its own readings back. -/
theorem mapRaw_here (h : a.Valid) (hp : a.Contains p) :
    mapRawPtsInSegment a ((a.clipStartPts90k.toNat + (p - a.titleStartPts90k.toNat)) % pts33bitModulus) = some p := by
  obtain ⟨hstart, hend⟩ := hp
  have hlt := h.duration_lt
  rw [BlurayPtsContinuitySegment.duration] at hlt
  rw [mapRawPtsInSegment_eq h, forward_add (by omega), if_pos, Nat.add_sub_cancel' hstart]
  rw [BlurayPtsContinuitySegment.duration]
  omega

/-- **A reading of the next clip, taken for one of this clip, is behind the place.** -/
theorem mapRaw_next {step : ℕ} (ha : a.Valid) (hb : b.Valid) (hcontiguous : a.titleEndPts90k = b.titleStartPts90k) (hlong : 2 * step ≤ a.duration)
    (hapart : ¬ (a.duration - 2 * step < ptsForwardDistance a.clipStartPts90k.toNat b.clipStartPts90k.toNat ∧
      ptsForwardDistance a.clipStartPts90k.toNat b.clipStartPts90k.toNat < a.duration))
    (hp : a.Contains p) (hq : b.Contains q) (hstep : q ≤ p + step)
    (hmap : mapRawPtsInSegment a ((b.clipStartPts90k.toNat + (q - b.titleStartPts90k.toNat)) % pts33bitModulus) = some last) : last < p := by
  have hpos : 0 < pts33bitModulus := by decide
  obtain ⟨hp₁, hp₂⟩ := hp
  obtain ⟨hq₁, hq₂⟩ := hq
  have hltA := ha.duration_lt
  have hltB := hb.duration_lt
  rw [mapRawPtsInSegment_eq ha, forward_trans (b := b.clipStartPts90k.toNat) hpos] at hmap
  rw [ptsForwardDistance_eq] at hapart
  rw [BlurayPtsContinuitySegment.duration] at *
  rw [forward_add (by omega)] at hmap
  have hclips : forward pts33bitModulus a.clipStartPts90k.toNat b.clipStartPts90k.toNat < pts33bitModulus := forward_lt hpos
  generalize forward pts33bitModulus a.clipStartPts90k.toNat b.clipStartPts90k.toNat = clips at *
  rw [hcontiguous] at *
  generalize b.titleStartPts90k.toNat = boundary at *
  split at hmap
  · rename_i hlt
    cases hmap
    -- the clock may have started over between the two clips
    rcases lt_or_ge (clips + (q - boundary)) pts33bitModulus with hno | hyes
    · rw [Nat.mod_eq_of_lt hno] at hlt ⊢
      omega
    · rw [Nat.mod_eq_sub_mod hyes, Nat.mod_eq_of_lt (by omega)] at hlt ⊢
      omega
  · cases hmap

/-! ## The mapper recovers the positions -/

/-- The mapper is at a place of a segment. -/
structure AtPlace (m : BlurayPtsMapper) (segments : List BlurayPtsContinuitySegment) (index p : ℕ) (segment : BlurayPtsContinuitySegment) : Prop where
  mode : m.mode = .segmented segments
  hint : m.segmentHint = some index
  last : m.lastTitlePts90k = some p
  here : segments[index]? = some segment
  contains : segment.Contains p

theorem BlurayPtsMapper.candidate_of_last (hlast : m.lastTitlePts90k = some last) (rawPts90k : ℕ) : m.candidate segments rawPts90k =
    (m.segmentCandidate segments rawPts90k (m.hint segments) <|> m.forwardCandidate segments rawPts90k <|>
      m.backwardCandidate segments rawPts90k) := by
  rw [candidate, hlast]
  rfl

/-- The segment of the next place is this one or the next. -/
theorem next_segment {step : ℕ} (htimeline : Timeline segments) (h : Recoverable step segments) (ha : segments[i]? = some a)
    (hb : segments[j]? = some b) (hp : a.Contains p) (hq : b.Contains q) (hle : p ≤ q) (hstep : q ≤ p + step) : j = i ∨ j = i + 1 := by
  obtain ⟨hp₁, hp₂⟩ := hp
  obtain ⟨hq₁, hq₂⟩ := hq
  rcases lt_trichotomy j i with hji | rfl | hij
  · have := htimeline.le hji hb ha
    omega
  · exact .inl rfl
  · refine .inr (by_contra fun hne => ?_)
    obtain ⟨hlt, -⟩ := List.getElem?_eq_some_iff.1 hb
    obtain ⟨c, hc⟩ : ∃ c, segments[i + 1]? = some c := ⟨_, List.getElem?_eq_getElem (by omega)⟩
    have hac := htimeline.le (Nat.lt_succ_self i) ha hc
    have hcb := htimeline.le (by omega) hc hb
    have hlong := h.long c (List.mem_of_getElem? hc)
    have hc := (htimeline.get hc).nonempty
    rw [BlurayPtsContinuitySegment.duration] at hlong
    omega

/-- **A step of the title is followed.** -/
theorem AtPlace.step {step : ℕ} (hat : AtPlace m segments i p a) (htimeline : Timeline segments) (h : Recoverable step segments)
    (hb : segments[j]? = some b) (hq : b.Contains q) (hle : p ≤ q) (hstep : q ≤ p + step) :
    m.mapPesPtsToTitlePts (rawPts segments q) = (m.acceptSegmentCandidate j q, some q) := by
  have hhint := BlurayPtsMapper.hint_of_placed hat.hint hat.here
  have hraw := rawPts_eq htimeline hb hq
  have hown : m.segmentCandidate segments (rawPts segments q) j = some (j, q) := by
    refine BlurayPtsMapper.segmentCandidate_eq_some.2 ⟨rfl, ⟨b, hb, ?_⟩, ?_⟩
    · rw [hraw]
      exact mapRaw_here (htimeline.get hb) hq
    · rw [hat.last]
      rintro _ ⟨⟩
      exact hle
  have hcandidate : m.candidate segments (rawPts segments q) = some (j, q) := by
    rw [BlurayPtsMapper.candidate_of_last hat.last, hhint]
    rcases next_segment htimeline h hat.here hb hat.contains hq hle hstep with rfl | rfl
    · rw [hown]
      rfl
    · have hbehind : m.segmentCandidate segments (rawPts segments q) i = none := by
        rw [Option.eq_none_iff_forall_ne_some]
        intro r hr
        obtain ⟨rfl, ⟨a', ha', hmapped⟩, hlast⟩ := BlurayPtsMapper.segmentCandidate_eq_some.1 hr
        rw [hat.here] at ha'
        cases ha'
        rw [hraw] at hmapped
        have hlt := mapRaw_next (htimeline.get hat.here) (htimeline.get hb) (h.contiguous _ a b hat.here hb)
          (h.long a (List.mem_of_getElem? hat.here)) (h.apart _ a b hat.here hb) hat.contains hq hstep hmapped
        have := hlast p hat.last
        omega
      obtain ⟨hlt, -⟩ := List.getElem?_eq_some_iff.1 hb
      have hforward : m.forwardCandidate segments (rawPts segments q) = some (i + 1, q) := by
        rw [BlurayPtsMapper.forwardCandidate, hhint, show segments.length - (i + 1) = segments.length - (i + 2) + 1 by omega, List.range'_succ,
          List.findSome?_cons, hown]
      rw [hbehind, hforward]
      rfl
  rw [BlurayPtsMapper.mapPesPtsToTitlePts, hat.mode]
  dsimp only
  rw [hcandidate]

theorem AtPlace.accept (hat : AtPlace m segments i p a) (hb : segments[j]? = some b) (hq : b.Contains q) :
    AtPlace (m.acceptSegmentCandidate j q) segments j q b := ⟨hat.mode, rfl, rfl, hb, hq⟩

/-- The readings of places, one after the other. -/
def mapCalls (segments : List BlurayPtsContinuitySegment) (positions : List ℕ) : List PtsCall :=
  positions.map fun p => .map (rawPts segments p)

/-- **A run through the title is followed.** -/
theorem AtPlace.run {step : ℕ} (htimeline : Timeline segments) (h : Recoverable step segments) {positions : List ℕ}
    (hat : AtPlace m segments i p a) (hin : ∀ q ∈ positions, ∃ segment ∈ segments, segment.Contains q)
    (hsteps : (p :: positions).IsChain fun p q => p ≤ q ∧ q ≤ p + step) : (runCalls m (mapCalls segments positions)).2 = positions.map some := by
  induction positions generalizing m i p a with
  | nil => rfl
  | cons q positions ih =>
    obtain ⟨⟨hle, hstep⟩, hsteps⟩ := List.isChain_cons_cons.1 hsteps
    obtain ⟨b, hb, hq⟩ := hin q List.mem_cons_self
    obtain ⟨j, hb⟩ := List.mem_iff_getElem?.1 hb
    have hnext := hat.step htimeline h hb hq hle hstep
    have hrest := ih (hat.accept hb hq) (fun r hr => hin r (List.mem_cons_of_mem _ hr)) hsteps
    simp only [mapCalls, List.map_cons, runCalls, hnext] at hrest ⊢
    rw [hrest]

/-! ## The first reading -/

section
variable {anchor : ℕ} {best : Option (ℕ × ℕ × ℕ)} {entry : BlurayPtsContinuitySegment × ℕ}

/-- The best candidate so far is `p`, or farther from the anchor. -/
def NearestOrFarther (i p anchor : ℕ) (best : Option (ℕ × ℕ × ℕ)) : Prop :=
  best = some (i, p, titlePtsAbsDiff p anchor) ∨ ∀ b ∈ best, titlePtsAbsDiff p anchor < b.2.2

/-- Whatever a segment makes of the reading is `p` in the segment `i`, or farther from the anchor. -/
def OtherFarther (rawPts90k i p anchor : ℕ) (entry : BlurayPtsContinuitySegment × ℕ) : Prop :=
  ∀ q, mapRawPtsInSegment entry.1 rawPts90k = some q → (entry.2 = i ∧ q = p) ∨ titlePtsAbsDiff p anchor < titlePtsAbsDiff q anchor

theorem all_lt_iff {score : ℕ} : (best.all fun (_, _, bestScore) => decide (score < bestScore)) = true ↔ ∀ b ∈ best, score < b.2.2 := by
  rw [Option.all_eq_true]
  simp only [decide_eq_true_eq]
  rfl

theorem firstCandidateStep_farther (hbest : NearestOrFarther i p anchor best) (hentry : OtherFarther rawPts90k i p anchor entry) :
    NearestOrFarther i p anchor (BlurayPtsMapper.firstCandidateStep (some anchor) rawPts90k best entry) := by
  rw [BlurayPtsMapper.firstCandidateStep]
  split
  · exact hbest
  · rename_i q hmapped
    dsimp only [Option.map_some, Option.getD_some]
    split
    · rcases hentry q hmapped with ⟨rfl, rfl⟩ | hfarther
      · exact .inl rfl
      · refine .inr ?_
        rintro _ ⟨⟩
        exact hfarther
    · exact hbest

theorem firstCandidateStep_keeps (hentry : OtherFarther rawPts90k i p anchor entry) :
    BlurayPtsMapper.firstCandidateStep (some anchor) rawPts90k (some (i, p, titlePtsAbsDiff p anchor)) entry =
      some (i, p, titlePtsAbsDiff p anchor) := by
  rw [BlurayPtsMapper.firstCandidateStep]
  split
  · rfl
  · rename_i q hmapped
    dsimp only [Option.map_some, Option.getD_some]
    rw [if_neg]
    rw [all_lt_iff]
    intro hall
    have hlt : titlePtsAbsDiff q anchor < titlePtsAbsDiff p anchor := hall _ rfl
    rcases hentry q hmapped with ⟨-, rfl⟩ | hfarther
    · exact absurd hlt (lt_irrefl _)
    · exact absurd hlt hfarther.asymm

theorem firstCandidateStep_own (hbest : NearestOrFarther i p anchor best) (hmapped : mapRawPtsInSegment a rawPts90k = some p) :
    BlurayPtsMapper.firstCandidateStep (some anchor) rawPts90k best (a, i) = some (i, p, titlePtsAbsDiff p anchor) := by
  rw [BlurayPtsMapper.firstCandidateStep, hmapped]
  dsimp only [Option.map_some, Option.getD_some]
  rcases hbest with rfl | hfarther
  · split <;> rfl
  · rw [if_pos (all_lt_iff.2 hfarther)]

/-- **The candidate that is nearer than all others is chosen.** -/
theorem firstCandidate_nearest {entries : List (BlurayPtsContinuitySegment × ℕ)} (hmem : (a, i) ∈ entries)
    (hmapped : mapRawPtsInSegment a rawPts90k = some p) (hothers : ∀ entry ∈ entries, OtherFarther rawPts90k i p anchor entry)
    (hbest : NearestOrFarther i p anchor best) :
    entries.foldl (BlurayPtsMapper.firstCandidateStep (some anchor) rawPts90k) best = some (i, p, titlePtsAbsDiff p anchor) := by
  have hkeeps : ∀ entries : List (BlurayPtsContinuitySegment × ℕ), (∀ entry ∈ entries, OtherFarther rawPts90k i p anchor entry) →
      entries.foldl (BlurayPtsMapper.firstCandidateStep (some anchor) rawPts90k) (some (i, p, titlePtsAbsDiff p anchor)) =
        some (i, p, titlePtsAbsDiff p anchor) := by
    intro entries hothers
    induction entries with
    | nil => rfl
    | cons entry entries ih =>
      rw [List.foldl_cons, firstCandidateStep_keeps (hothers entry List.mem_cons_self)]
      exact ih fun e he => hothers e (List.mem_cons_of_mem _ he)
  induction entries generalizing best with
  | nil => cases hmem
  | cons entry entries ih =>
    have hrest : ∀ e ∈ entries, OtherFarther rawPts90k i p anchor e := fun e he => hothers e (List.mem_cons_of_mem _ he)
    rw [List.foldl_cons]
    rcases List.mem_cons.1 hmem with rfl | hmem
    · rw [firstCandidateStep_own hbest hmapped]
      exact hkeeps entries hrest
    · exact ih hmem hrest (firstCandidateStep_farther hbest (hothers entry List.mem_cons_self))

end

/-- **The first reading is placed by the anchor.** -/
theorem first_recovered {anchor : ℕ} (htimeline : Timeline segments) (hmode : m.mode = .segmented segments) (hlast : m.lastTitlePts90k = none)
    (hanchor : m.anchorTitlePts90k = some anchor) (ha : segments[i]? = some a) (hp : a.Contains p)
    (hnearest : ∀ segment ∈ segments, ∀ q, mapRawPtsInSegment segment (rawPts segments p) = some q → q ≠ p →
      titlePtsAbsDiff p anchor < titlePtsAbsDiff q anchor) :
    m.mapPesPtsToTitlePts (rawPts segments p) = (m.acceptSegmentCandidate i p, some p) := by
  have hmapped : mapRawPtsInSegment a (rawPts segments p) = some p := by
    rw [rawPts_eq htimeline ha hp]
    exact mapRaw_here (htimeline.get ha) hp
  have hothers : ∀ entry ∈ segments.zipIdx, OtherFarther (rawPts segments p) i p anchor entry := by
    intro entry hentry q hq
    have hentry := List.mem_zipIdx_iff_getElem?.1 hentry
    by_cases hne : q = p
    · subst hne
      exact .inl ⟨htimeline.index_unique hentry ha (contains_of_mapRaw (htimeline.get hentry) hq) hp, rfl⟩
    · exact .inr (hnearest entry.1 (List.mem_of_getElem? hentry) q hq hne)
  have hfirst : m.firstCandidate segments (rawPts segments p) = some (i, p) := by
    rw [BlurayPtsMapper.firstCandidate, hanchor,
      firstCandidate_nearest (List.mem_zipIdx_iff_getElem?.2 ha) hmapped hothers (.inr fun _ hnone => (Option.not_mem_none _ hnone).elim)]
    rfl
  rw [BlurayPtsMapper.mapPesPtsToTitlePts, hmode]
  dsimp only
  rw [BlurayPtsMapper.candidate, hlast, if_pos Option.isNone_none, hfirst]
  rfl

/-! ## The mapper -/

theorem prime_anchor (m : BlurayPtsMapper) (p : ℕ) : (m.primeForTitlePts p).anchorTitlePts90k = some p := by
  rw [BlurayPtsMapper.primeForTitlePts]
  dsimp only
  split
  · split <;> rfl
  · rfl

theorem timeline_of_segmented {given : List BlurayPtsContinuitySegment} (h : BlurayPtsMapper.segmented given = .ok m) (hmode : m.mode = .segmented segments) :
    Timeline segments ∧ m = ⟨.segmented segments, some 0, none, none⟩ := by
  rw [BlurayPtsMapper.segmented] at h
  split at h
  · cases h
    cases hmode
  · obtain ⟨⟨⟩, hvalid, hm⟩ := Rust.bind_eq_ok.1 h
    cases hm
    cases hmode
    exact ⟨(validatePtsSegments_ok hvalid).1, rfl⟩

/-- **The mapper of a validated list of segments.** Primed once, it returns the places whose readings it is given, when the segments can be told
apart and the anchor points to the first. Whatever it is called with, it never goes back; and once it has mapped a reading
and is not primed again, the search over earlier segments finds nothing. -/
theorem mapper_recovers_timeline {given : List BlurayPtsContinuitySegment} (h : BlurayPtsMapper.segmented given = .ok m)
    (hmode : m.mode = .segmented segments) :
    (∀ (step anchor : ℕ) (positions : List ℕ), Recoverable step segments →
      (∀ p ∈ positions, ∃ segment ∈ segments, segment.Contains p) → (positions.IsChain fun p q => p ≤ q ∧ q ≤ p + step) →
      (∀ p ∈ positions.head?, ∀ segment ∈ segments, ∀ q, mapRawPtsInSegment segment (rawPts segments p) = some q → q ≠ p →
        titlePtsAbsDiff p anchor < titlePtsAbsDiff q anchor) →
      (runCalls m (.prime anchor :: mapCalls segments positions)).2 = positions.map some) ∧
    (∀ calls : List PtsCall, (runCalls m calls).2.reduceOption.Pairwise (· ≤ ·)) ∧
    ∀ (calls : List PtsCall) (raws : List ℕ) (rawPts90k : ℕ), (runCalls (runCalls m calls).1 (raws.map .map)).2.reduceOption ≠ [] →
      (runCalls (runCalls m calls).1 (raws.map .map)).1.backwardCandidate segments rawPts90k = none := by
  obtain ⟨htimeline, rfl⟩ := timeline_of_segmented h hmode
  refine ⟨?_, fun calls => (runCalls_sorted rfl).1, fun calls raws rawPts90k hmapped => ?_⟩
  · intro step anchor positions hrecoverable hin hsteps hnearest
    cases positions with
    | nil => rfl
    | cons p positions =>
      obtain ⟨a, ha, hp⟩ := hin p List.mem_cons_self
      obtain ⟨i, ha⟩ := List.mem_iff_getElem?.1 ha
      have hprimed := BlurayPtsMapper.prime_mode ⟨.segmented segments, some 0, none, none⟩ anchor
      have hfirst := first_recovered htimeline hprimed (BlurayPtsMapper.prime_last _ _) (prime_anchor _ _) ha hp (hnearest p rfl)
      have hat : AtPlace ((BlurayPtsMapper.primeForTitlePts ⟨.segmented segments, some 0, none, none⟩ anchor).acceptSegmentCandidate i p)
        segments i p a := ⟨hprimed, rfl, rfl, ha, hp⟩
      have hrest := hat.run htimeline hrecoverable (fun q hq => hin q (List.mem_cons_of_mem _ hq)) hsteps
      simp only [mapCalls, List.map_cons, runCalls, hfirst] at hrest ⊢
      rw [hrest]
  · exact (runCalls_placed_of_mapped htimeline (runCalls_mode rfl) hmapped).backwardCandidate_eq_none htimeline rawPts90k

theorem segmented_of_sorted {given : List BlurayPtsContinuitySegment} (hne : given.isEmpty = false)
    (hsorted : given.Pairwise fun a b => keyLe a b = true) (hvalid : validatePtsSegments none given = .ok ()) :
    BlurayPtsMapper.segmented given = .ok ⟨.segmented given, some 0, none, none⟩ := by
  rw [BlurayPtsMapper.segmented, if_neg (by rw [hne]; exact Bool.false_ne_true), List.mergeSort_of_pairwise hsorted]
  dsimp only
  rw [hvalid]
  rfl

/-- Two clips whose clocks start at zero. -/
def restartingClips : List BlurayPtsContinuitySegment := [⟨0, 100, 0, 0, 100⟩, ⟨100, 200, 1, 0, 100⟩]

theorem recoverable_restartingClips : Recoverable 10 restartingClips := by
  have hadjacent : ∀ i a b, restartingClips[i]? = some a → restartingClips[i + 1]? = some b →
      a = ⟨0, 100, 0, 0, 100⟩ ∧ b = ⟨100, 200, 1, 0, 100⟩ := by
    intro i a b ha hb
    match i, ha, hb with
    | 0, rfl, rfl => exact ⟨rfl, rfl⟩
  refine ⟨by decide, fun i a b ha hb => ?_, fun i a b ha hb => ?_⟩
  all_goals
    obtain ⟨rfl, rfl⟩ := hadjacent i a b ha hb
    decide

/-- A chapter that crosses from one clip to the next. -/
theorem restartingClips_recovered :
    (runCalls ⟨.segmented restartingClips, some 0, none, none⟩ (.prime 95 :: mapCalls restartingClips [95, 99, 100, 105])).2 =
      [some 95, some 99, some 100, some 105] := by
  have hsegmented : BlurayPtsMapper.segmented restartingClips = .ok ⟨.segmented restartingClips, some 0, none, none⟩ :=
    segmented_of_sorted rfl (by decide) rfl
  refine (mapper_recovers_timeline hsegmented rfl).1 10 95 [95, 99, 100, 105] recoverable_restartingClips (by decide) (by decide) ?_
  rintro p ⟨⟩ segment hsegment q hq hne
  have hclips : mapRawPtsInSegment ⟨0, 100, 0, 0, 100⟩ (rawPts restartingClips 95) = some 95 ∧
    mapRawPtsInSegment ⟨100, 200, 1, 0, 100⟩ (rawPts restartingClips 95) = some 195 := by decide
  simp only [restartingClips, List.mem_cons, List.not_mem_nil, or_false] at hsegment
  rcases hsegment with rfl | rfl
  · rw [hclips.1] at hq
    cases hq
    exact absurd rfl hne
  · rw [hclips.2] at hq
    cases hq
    decide

/-- Two clips with clocks of their own. -/
def separateClips : List BlurayPtsContinuitySegment := [⟨0, 100, 0, 0, 100⟩, ⟨100, 200, 1, 1000, 1100⟩]

/-- **Primed again after a mapping, the mapper does go back to an earlier segment**; and without segments it returns readings as they are, in any
order. -/
theorem primed_again_goes_back :
    (∃ m, BlurayPtsMapper.segmented separateClips = .ok m ∧ (runCalls m [.map 50, .prime 150]).2 = [some 50] ∧
      (runCalls m [.map 50, .prime 150]).1.backwardCandidate separateClips 60 = some (0, 60) ∧
        ((runCalls m [.map 50, .prime 150]).1.mapPesPtsToTitlePts 60).1.segmentHint = some 0) ∧
    ∃ m, BlurayPtsMapper.segmented [] = .ok m ∧ (runCalls m [.map 5, .map 3]).2 = [some 5, some 3] :=
  ⟨⟨_, segmented_of_sorted rfl (by decide) rfl, by decide, by decide, by decide⟩, _, rfl, rfl⟩

end Bluray
