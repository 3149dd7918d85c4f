import Tonepoet.Dst.SafeParse

/-!
# Cursors look a table up (dst/decoder.rs:556-694)

A table that `SegmentCursorSet::new` accepts cuts the frame of every channel into segments; a bit lies in exactly one of
them. A cursor only moves forward and only when it is asked, so it is on the bit's segment after every query as long as
the bits of a channel do not go back.
-/

namespace Dst

open Rust Hoare

theorem index_eq_ok {α : Type} {xs : List α} {i : ℕ} {a : α} (h : (index xs i : Outcome DstError α) = .ok a) : xs[i]? = some a := by
  unfold index at h
  split at h
  case h_1 b hb =>
    cases h
    exact hb
  case h_2 => cases h

theorem index2_eq_ok {α : Type} {xss : List (List α)} {i j : ℕ} {a : α} (h : (index2 xss i j : Outcome DstError α) = .ok a) :
    at2 xss i j = some a := by
  obtain ⟨row, hrow, h⟩ := bind_eq_ok.1 h
  unfold at2
  rw [index_eq_ok hrow, Option.bind_some, index_eq_ok h]

namespace SegmentData

variable (data : SegmentData) (bitsPerChannel : ℕ)

/-- Where segment `seg` of a channel with `count` segments starts; the last one ends with the frame. -/
def segmentStart (ch count : ℕ) : ℕ → ℕ
  | 0 => 0
  | seg + 1 =>
    if seg + 1 = count then bitsPerChannel
    else segmentStart ch count seg + data.resolution * 8 * (at2 data.segmentLen ch seg).getD 0

/-- Segment `seg` of channel `ch` contains the bit. -/
def Contains (ch seg bit : ℕ) : Prop :=
  ∃ count, data.segmentCount[ch]? = some count ∧ seg < count ∧ data.segmentStart bitsPerChannel ch count seg ≤ bit ∧
    bit < data.segmentStart bitsPerChannel ch count (seg + 1)

/-- What is accepted of a channel. -/
structure Covers (ch count tableCount : ℕ) : Prop where
  pos : 0 < count
  stop : ∀ seg < count, data.segmentEndFromStart ch seg count (data.segmentStart bitsPerChannel ch count seg) bitsPerChannel =
    .ok (data.segmentStart bitsPerChannel ch count (seg + 1))
  le : ∀ seg < count, data.segmentStart bitsPerChannel ch count seg ≤ data.segmentStart bitsPerChannel ch count (seg + 1)
  table : ∀ seg < count, ∃ table, at2 data.tableForSegment ch seg = some table ∧ table < tableCount

variable {data bitsPerChannel}

theorem segmentEndFromStart_eq_ok {ch seg count stop : ℕ}
    (h : data.segmentEndFromStart ch seg count (data.segmentStart bitsPerChannel ch count seg) bitsPerChannel = .ok stop) :
    stop = data.segmentStart bitsPerChannel ch count (seg + 1) := by
  unfold segmentEndFromStart at h
  unfold segmentStart
  split at h
  case isTrue hlast =>
    rw [if_pos hlast]
    cases h
    rfl
  case isFalse hlast =>
    rw [if_neg hlast]
    obtain ⟨len, hlen, h⟩ := (bind_eq_ok).1 h
    cases hadd : checkedAdd (data.segmentStart bitsPerChannel ch count seg) len with
    | none => rw [hadd] at h; cases h
    | some sum =>
      rw [hadd] at h
      cases h
      have hlen' := hlen
      unfold segmentLenBits at hlen'
      obtain ⟨unit, hunit, -⟩ := bind_eq_ok.1 hlen'
      have hunit' := index2_eq_ok hunit
      rw [checkedAdd, Option.ite_none_right_eq_some] at hadd
      rw [hunit', Option.getD_some, ← segmentLenBits_eq_ok hunit' hlen]
      exact (Option.some.inj hadd.2).symm

/-- One segment that is accepted. -/
theorem validateSegment_accepts {ch count tableCount seg : ℕ} {kind : SegmentKind} :
    Returns (fun _ => True) (fun stop => stop = data.segmentStart bitsPerChannel ch count (seg + 1) ∧
        data.segmentEndFromStart ch seg count (data.segmentStart bitsPerChannel ch count seg) bitsPerChannel = .ok stop ∧
        data.segmentStart bitsPerChannel ch count seg ≤ stop ∧ ∃ table, at2 data.tableForSegment ch seg = some table ∧ table < tableCount)
      (data.validateSegment ch count bitsPerChannel tableCount kind (data.segmentStart bitsPerChannel ch count seg) seg) := by
  cases h : data.validateSegment ch count bitsPerChannel tableCount kind (data.segmentStart bitsPerChannel ch count seg) seg with
  | error e => trivial
  | ok stop =>
    unfold validateSegment at h
    obtain ⟨table, htable, h⟩ := (bind_eq_ok).1 h
    split at h
    case isTrue => cases h
    case isFalse hlt =>
      obtain ⟨stop', hstop, h⟩ := (bind_eq_ok).1 h
      split at h
      case isTrue => cases h
      case isFalse hrange =>
        cases h
        exact ⟨segmentEndFromStart_eq_ok hstop, hstop, by omega, table, index2_eq_ok htable, by omega⟩

/-- A channel that is accepted is covered. -/
theorem validateChannel_covers {ch tableCount : ℕ} {kind : SegmentKind}
    (h : data.validateChannel bitsPerChannel tableCount kind ch = .ok ()) :
    ∃ count, data.segmentCount[ch]? = some count ∧ data.Covers bitsPerChannel ch count tableCount := by
  unfold validateChannel at h
  obtain ⟨count, hcount, h⟩ := (bind_eq_ok).1 h
  have hcount' := index_eq_ok hcount
  split at h
  case isTrue => cases h
  case isFalse hrange =>
    obtain ⟨stop, hloop, -⟩ := (bind_eq_ok).1 h
    have hcover := returns_forRange (E := fun _ => True)
      (fun seg start => start = data.segmentStart bitsPerChannel ch count seg ∧ ∀ i < seg,
        data.segmentEndFromStart ch i count (data.segmentStart bitsPerChannel ch count i) bitsPerChannel =
            .ok (data.segmentStart bitsPerChannel ch count (i + 1)) ∧
          data.segmentStart bitsPerChannel ch count i ≤ data.segmentStart bitsPerChannel ch count (i + 1) ∧
          ∃ table, at2 data.tableForSegment ch i = some table ∧ table < tableCount)
      (f := data.validateSegment ch count bitsPerChannel tableCount kind) (Nat.zero_le count) (s := 0) (by
        rintro seg - - start ⟨rfl, hdone⟩
        refine validateSegment_accepts.mono ?_
        rintro stop ⟨rfl, hstop, hle, htable⟩
        refine ⟨rfl, fun i hi => ?_⟩
        rcases Nat.lt_succ_iff_lt_or_eq.1 hi with hi | rfl
        · exact hdone i hi
        · exact ⟨hstop, hle, htable⟩) ⟨rfl, by simp⟩
    obtain ⟨-, hall⟩ := hcover.of_ok hloop
    exact ⟨count, hcount', by omega, fun seg hseg => (hall seg hseg).1, fun seg hseg => (hall seg hseg).2.1,
      fun seg hseg => (hall seg hseg).2.2⟩

theorem Covers.mono {ch count tableCount : ℕ} (h : data.Covers bitsPerChannel ch count tableCount) {i j : ℕ} (hij : i ≤ j)
    (hj : j ≤ count) : data.segmentStart bitsPerChannel ch count i ≤ data.segmentStart bitsPerChannel ch count j := by
  induction j, hij using Nat.le_induction with
  | base => exact le_rfl
  | succ j _ ih => exact (ih (by omega)).trans (h.le j (by omega))

theorem Covers.last {ch count tableCount : ℕ} (h : data.Covers bitsPerChannel ch count tableCount) :
    data.segmentStart bitsPerChannel ch count count = bitsPerChannel := by
  obtain ⟨n, rfl⟩ := Nat.exists_eq_succ_of_ne_zero h.pos.ne'
  exact if_pos rfl

/-- A bit lies in one segment only. -/
theorem Covers.unique {ch count tableCount : ℕ} (h : data.Covers bitsPerChannel ch count tableCount)
    (hcount : data.segmentCount[ch]? = some count) {seg seg' bit : ℕ} (hseg : data.Contains bitsPerChannel ch seg bit)
    (hseg' : data.Contains bitsPerChannel ch seg' bit) : seg' = seg := by
  obtain ⟨n, hn, hlt, hlo, hhi⟩ := hseg
  obtain ⟨n', hn', hlt', hlo', hhi'⟩ := hseg'
  rw [hcount] at hn hn'
  cases hn
  cases hn'
  by_contra hne
  rcases Nat.lt_or_gt_of_ne hne with hne | hne
  · have := h.mono (show seg' + 1 ≤ seg by omega) (by omega)
    omega
  · have := h.mono (show seg + 1 ≤ seg' by omega) (by omega)
    omega

end SegmentData

namespace SegmentCursorSet

variable {segments : SegmentData} {bitsPerChannel tableCount : ℕ} {kind : SegmentKind}

/-- The cursor of a covered channel is on a segment. -/
structure On (segments : SegmentData) (bitsPerChannel ch count : ℕ) (cursor : SegmentCursor) : Prop where
  lt : cursor.segmentIndex < count
  start : cursor.segmentStartBit = segments.segmentStart bitsPerChannel ch count cursor.segmentIndex
  stop : cursor.segmentEndBit = segments.segmentStart bitsPerChannel ch count (cursor.segmentIndex + 1)

/-- The `while` of `table_for_bit` ends on the bit's segment. -/
theorem seek_on {ch count bit : ℕ} (hs : segments.Covers bitsPerChannel ch count tableCount) (hbit : bit < bitsPerChannel)
    (cursor : SegmentCursor) (hc : On segments bitsPerChannel ch count cursor) (hle : cursor.segmentStartBit ≤ bit) :
    ∃ cursor', seek segments ch bit bitsPerChannel count cursor = .ok cursor' ∧ On segments bitsPerChannel ch count cursor' ∧
      cursor'.segmentStartBit ≤ bit ∧ bit < cursor'.segmentEndBit := by
  rw [seek]
  split
  case isTrue hmore =>
    have hnext : On segments bitsPerChannel ch count ⟨cursor.segmentIndex + 1, cursor.segmentEndBit,
        segments.segmentStart bitsPerChannel ch count (cursor.segmentIndex + 1 + 1)⟩ := ⟨hmore.2, hc.stop, rfl⟩
    obtain ⟨cursor', hseek, hon⟩ := seek_on hs hbit _ hnext hmore.1
    refine ⟨cursor', ?_, hon⟩
    dsimp only
    rw [hc.stop] at hseek ⊢
    rw [hs.stop _ hmore.2, ok_bind]
    exact hseek
  case isFalse hstop =>
    refine ⟨cursor, rfl, hc, hle, ?_⟩
    by_contra hge
    have hlast : cursor.segmentIndex + 1 = count := by
      have := hc.lt
      omega
    have hend := hc.stop
    rw [hlast, hs.last] at hend
    omega
termination_by count - cursor.segmentIndex

/-- Every channel is covered, and its cursor is on a segment that starts no later than `bound` says. -/
def Ready (segments : SegmentData) (channels bitsPerChannel tableCount : ℕ) (bound : ℕ → ℕ) (cursors : SegmentCursorSet) : Prop :=
  ∀ ch < channels, ∃ count cursor, segments.segmentCount[ch]? = some count ∧
    segments.Covers bitsPerChannel ch count tableCount ∧ cursors[ch]? = some cursor ∧
    On segments bitsPerChannel ch count cursor ∧ cursor.segmentStartBit ≤ bound ch

/-- A cursor is opened on the first segment. -/
theorem openChannel_on {ch count : ℕ} {cursors cursors' : SegmentCursorSet} (hcount : segments.segmentCount[ch]? = some count)
    (hs : segments.Covers bitsPerChannel ch count tableCount) (hc : cursors[ch]? = some ⟨0, 0, 0⟩)
    (h : openChannel segments bitsPerChannel cursors ch = .ok cursors') :
    ∃ cursor, On segments bitsPerChannel ch count cursor ∧ cursor.segmentStartBit = 0 ∧ cursors' = cursors.set ch cursor := by
  unfold openChannel at h
  rw [index_of_getElem? hcount, pure_bind, index_of_getElem? hc, pure_bind] at h
  have hstop := hs.stop 0 hs.pos
  rw [SegmentData.segmentStart] at hstop
  rw [hstop, ok_bind, assign_of_lt (List.getElem?_eq_some_iff.1 hc).1] at h
  cases h
  exact ⟨_, ⟨hs.pos, rfl, rfl⟩, rfl, rfl⟩

/-- **What `new` accepts is ready for any query.** -/
theorem ready_of_new {channels : ℕ} {cursors : SegmentCursorSet} (h : new segments channels bitsPerChannel tableCount kind = .ok cursors) :
    Ready segments channels bitsPerChannel tableCount (fun _ => 0) cursors := by
  unfold new at h
  obtain ⟨_, hvalid, hopen⟩ := bind_eq_ok.1 h
  have hcovers := (returns_forRange (E := fun _ => True) (fun n (_ : Unit) => ∀ ch < n, ∃ count, segments.segmentCount[ch]? = some count ∧
      segments.Covers bitsPerChannel ch count tableCount) (f := fun _ ch => segments.validateChannel bitsPerChannel tableCount kind ch)
    (Nat.zero_le channels) (s := ()) (by
      intro n _ _ _ hdone
      cases hn : segments.validateChannel bitsPerChannel tableCount kind n with
      | error e => trivial
      | ok out =>
        intro ch hch
        rcases Nat.lt_succ_iff_lt_or_eq.1 hch with hch | rfl
        · exact hdone ch hch
        · exact SegmentData.validateChannel_covers hn) (by simp)).of_ok hvalid
  have hcursors := (returns_forRange (E := fun _ => True) (fun n (cs : SegmentCursorSet) => Ready segments n bitsPerChannel tableCount (fun _ => 0) cs ∧
      cs.length = maxChannels ∧ ∀ ch, n ≤ ch → ch < maxChannels → cs[ch]? = some ⟨0, 0, 0⟩) (f := openChannel segments bitsPerChannel)
    (Nat.zero_le channels) (s := List.replicate maxChannels ⟨0, 0, 0⟩) (by
      rintro n - hn cs ⟨hready, hlen, hzero⟩
      cases hopen : openChannel segments bitsPerChannel cs n with
      | error e => trivial
      | ok cs' =>
        obtain ⟨count, hcount, hcover⟩ := hcovers n hn
        have hlt : n < maxChannels := by
          unfold openChannel at hopen
          obtain ⟨_, -, hopen⟩ := bind_eq_ok.1 hopen
          obtain ⟨cursor, hcursor, -⟩ := bind_eq_ok.1 hopen
          rw [← hlen]
          exact (List.getElem?_eq_some_iff.1 (index_eq_ok hcursor)).1
        obtain ⟨cursor, hon, hstart, rfl⟩ := openChannel_on hcount hcover (hzero n le_rfl hlt) hopen
        refine ⟨fun ch hch => ?_, by simpa using hlen, fun ch hch hmax => ?_⟩
        · rcases Nat.lt_succ_iff_lt_or_eq.1 hch with hch | rfl
          · obtain ⟨count', cursor', hcount', hcover', hget, hon', hstart'⟩ := hready ch hch
            exact ⟨count', cursor', hcount', hcover', by rw [List.getElem?_set_ne (by omega)]; exact hget, hon', hstart'⟩
          · exact ⟨count, cursor, hcount, hcover, List.getElem?_set_self (by omega), hon, hstart.le⟩
        · rw [List.getElem?_set_ne (by omega)]
          exact hzero ch (by omega) hmax) ⟨by simp [Ready], List.length_replicate, fun ch _ hch =>
      List.getElem?_replicate_of_lt hch⟩).of_ok hopen
  exact hcursors.1

/-- One query: the table of the bit's segment, and cursors for the bits from there on. -/
theorem Ready.tableForBit {channels : ℕ} {bound : ℕ → ℕ} {cursors : SegmentCursorSet}
    (h : Ready segments channels bitsPerChannel tableCount bound cursors) {ch bit : ℕ} (hch : ch < channels) (hbit : bit < bitsPerChannel)
    (hbound : bound ch ≤ bit) : ∃ seg table cursors', tableForBit cursors segments ch bit bitsPerChannel tableCount kind = .ok (table, cursors') ∧
      segments.Contains bitsPerChannel ch seg bit ∧ at2 segments.tableForSegment ch seg = some table ∧
      Ready segments channels bitsPerChannel tableCount (Function.update bound ch bit) cursors' := by
  obtain ⟨count, cursor, hcount, hcover, hget, hon, hstart⟩ := h ch hch
  obtain ⟨cursor', hseek, hon', hlo, hhi⟩ := seek_on hcover hbit cursor hon (hstart.trans hbound)
  obtain ⟨table, htable, hlt⟩ := hcover.table _ hon'.lt
  have hlen := (List.getElem?_eq_some_iff.1 hget).1
  refine ⟨cursor'.segmentIndex, table, cursors.set ch cursor', ?_, ⟨count, hcount, hon'.lt, hon'.start ▸ hlo, hon'.stop ▸ hhi⟩, htable, ?_⟩
  · unfold SegmentCursorSet.tableForBit
    rw [index_of_getElem? hcount, pure_bind, index_of_getElem? hget, pure_bind, hseek, ok_bind, assign_of_lt hlen, pure_bind,
      if_neg (by omega), index2_of_at2 htable, pure_bind, if_neg (by omega)]
    rfl
  · intro ch' hch'
    by_cases heq : ch' = ch
    · subst heq
      exact ⟨count, cursor', hcount, hcover, List.getElem?_set_self hlen, hon', by rw [Function.update_self]; exact hlo⟩
    · obtain ⟨count', cursor'', hcount', hcover', hget', hon'', hstart'⟩ := h ch' hch'
      exact ⟨count', cursor'', hcount', hcover', by rw [List.getElem?_set_ne (Ne.symm heq)]; exact hget', hon'',
        by rw [Function.update_of_ne heq]; exact hstart'⟩

/-- Queries one after another, each a channel and a bit. -/
def tablesForBits (segments : SegmentData) (bitsPerChannel tableCount : ℕ) (kind : SegmentKind) :
    SegmentCursorSet → List (ℕ × ℕ) → Outcome DstError (List ℕ)
  | _, [] => return []
  | cursors, (ch, bit) :: queries => do
    let (table, cursors) ← cursors.tableForBit segments ch bit bitsPerChannel tableCount kind
    return table :: (← tablesForBits segments bitsPerChannel tableCount kind cursors queries)

/-- The table that a direct lookup finds: that of the only segment that contains the bit. -/
def LooksUp (segments : SegmentData) (bitsPerChannel : ℕ) (query : ℕ × ℕ) (table : ℕ) : Prop :=
  ∃ seg, segments.Contains bitsPerChannel query.1 seg query.2 ∧
    (∀ seg', segments.Contains bitsPerChannel query.1 seg' query.2 → seg' = seg) ∧
    at2 segments.tableForSegment query.1 seg = some table

theorem Ready.tablesForBits {channels : ℕ} {queries : List (ℕ × ℕ)} : ∀ {bound : ℕ → ℕ} {cursors : SegmentCursorSet},
    Ready segments channels bitsPerChannel tableCount bound cursors → (∀ q ∈ queries, q.1 < channels ∧ q.2 < bitsPerChannel) →
    (∀ q ∈ queries, bound q.1 ≤ q.2) → (queries.Pairwise fun p q => p.1 = q.1 → p.2 < q.2) →
    ∃ tables, tablesForBits segments bitsPerChannel tableCount kind cursors queries = .ok tables ∧
      List.Forall₂ (LooksUp segments bitsPerChannel) queries tables := by
  induction queries with
  | nil => exact fun _ _ _ _ => ⟨[], rfl, .nil⟩
  | cons q queries ih =>
    obtain ⟨ch, bit⟩ := q
    intro bound cursors h hin hbound hmono
    obtain ⟨hch, hbit⟩ := hin _ List.mem_cons_self
    obtain ⟨hfirst, hrest⟩ := List.pairwise_cons.1 hmono
    obtain ⟨seg, table, cursors', hquery, hcontains, htable, hready⟩ :=
      @Ready.tableForBit segments bitsPerChannel tableCount kind _ _ _ h _ _ hch hbit (hbound _ List.mem_cons_self)
    have hbound' : ∀ q ∈ queries, Function.update bound ch bit q.1 ≤ q.2 := by
      intro q hq
      by_cases heq : q.1 = ch
      · rw [heq, Function.update_self]
        exact (hfirst q hq heq.symm).le
      · rw [Function.update_of_ne heq]
        exact hbound q (List.mem_cons_of_mem _ hq)
    obtain ⟨tables, htables, hall⟩ := ih hready (fun q hq => hin q (List.mem_cons_of_mem _ hq)) hbound' hrest
    obtain ⟨count, cursor, hcount, hcover, -⟩ := h ch hch
    refine ⟨table :: tables, ?_, .cons ⟨seg, hcontains, fun seg' hseg' => hcover.unique hcount hcontains hseg', htable⟩ hall⟩
    unfold SegmentCursorSet.tablesForBits
    rw [hquery, ok_bind]
    dsimp only
    rw [htables]
    rfl

/-- **The segment cursor equals direct lookup.** If `new` accepts a table, queries whose bits increase in every channel all
    succeed, and each returns the table of the only segment that contains its bit. -/
theorem tableForBit_looksUp {channels : ℕ} {cursors : SegmentCursorSet}
    (h : new segments channels bitsPerChannel tableCount kind = .ok cursors) {queries : List (ℕ × ℕ)}
    (hin : ∀ q ∈ queries, q.1 < channels ∧ q.2 < bitsPerChannel)
    (hmono : queries.Pairwise fun p q => p.1 = q.1 → p.2 < q.2) :
    ∃ tables, tablesForBits segments bitsPerChannel tableCount kind cursors queries = .ok tables ∧
      List.Forall₂ (LooksUp segments bitsPerChannel) queries tables :=
  (ready_of_new h).tablesForBits hin (fun _ _ => Nat.zero_le _) hmono

/-- Two channels: one is a single segment, the other has an empty segment between two others. -/
def sampleSegments : SegmentData where
  resolution := 1
  segmentCount := [1, 3]
  segmentLen := [[0], [1, 0, 0]]
  tableForSegment := [[0], [0, 1, 2]]

/-- The cursors of the sample. -/
def sampleCursors : SegmentCursorSet := [⟨0, 0, 16⟩, ⟨0, 0, 8⟩] ++ List.replicate 4 ⟨0, 0, 0⟩

theorem tableForBit_looksUp_sample : new sampleSegments 2 16 3 .filter = .ok sampleCursors ∧
    ∃ tables, tablesForBits sampleSegments 16 3 .filter sampleCursors [(0, 2), (1, 3), (1, 12), (0, 15)] = .ok tables ∧
      List.Forall₂ (LooksUp sampleSegments 16) [(0, 2), (1, 3), (1, 12), (0, 15)] tables :=
  ⟨rfl, @tableForBit_looksUp sampleSegments 16 3 .filter 2 sampleCursors rfl _ (by decide) (by decide)⟩

/-- The empty segment is passed over. -/
example : tablesForBits sampleSegments 16 3 .filter sampleCursors [(0, 2), (1, 3), (1, 12), (0, 15)] = .ok [0, 0, 2, 0] := by
  decide +kernel

end SegmentCursorSet
end Dst
