import Tonepoet.Cue.IndexRebase

/-!
# The repair copy (cue_parser.rs:1983-2110)

The copy is written by a second walk over the source, which knows the validated sheet but no FILE sections. It writes the text that the
rebase validated.
-/

namespace Cue

open Rust

/-! ## The walk -/

/-- The locals of the walk: how often an index of a track was rewritten. -/
structure RepairState where
  audioTrackOrdinal : Option ℕ
  nextAudioTrack : ℕ
  rewrittenIndex00Counts : List ℕ
  rewrittenIndex01Counts : List ℕ

def RepairState.counts (s : RepairState) : IndexNumber → List ℕ
  | .index00 => s.rewrittenIndex00Counts
  | .index01 => s.rewrittenIndex01Counts

def RepairState.count (s : RepairState) (number : IndexNumber) (ordinal : ℕ) : RepairState :=
  match number with
  | .index00 => { s with rewrittenIndex00Counts := s.rewrittenIndex00Counts.modify ordinal (· + 1) }
  | .index01 => { s with rewrittenIndex01Counts := s.rewrittenIndex01Counts.modify ordinal (· + 1) }

/-- `desired_indexes` (cue_parser.rs:1994). -/
def desiredIndexes : List CueTrack → Except String (List (Option ℕ × ℕ))
  | [] => .ok []
  | track :: tracks =>
    match track.index01Frames with
    | none => .error s!"repaired CUE track {track.number} has no INDEX 01"
    | some index01 => do
      let rest ← desiredIndexes tracks
      return (track.index00Frames, index01) :: rest

/-- The frames that a track's index gets. -/
def desiredFrames (desired : List (Option ℕ × ℕ)) (ordinal : ℕ) : IndexNumber → Option ℕ
  | .index00 => desired[ordinal]?.bind Prod.fst
  | .index01 => desired[ordinal]?.map Prod.snd

/-- `repaired_sheet.tracks[ordinal].number`, for the messages. -/
def trackNumber (sheet : CueSheet) (ordinal : ℕ) : ℕ := (sheet.tracks[ordinal]?.map CueTrack.number).getD 0

/-- The body of the loop (cue_parser.rs:2009-2082). -/
def repairLine (sheet : CueSheet) (desired : List (Option ℕ × ℕ)) (s : RepairState) (line : CueTextLine) :
    Except String (RepairState × CueTextLine) :=
  let trimmed := trim line.body
  match parseTrackHeader trimmed with
  | some (_, true) =>
    if desired.length ≤ s.nextAudioTrack then .error "source CUE contains more AUDIO tracks than the validated repair"
    else .ok ({ s with audioTrackOrdinal := some s.nextAudioTrack, nextAudioTrack := s.nextAudioTrack + 1 }, line)
  | some (_, false) => .ok ({ s with audioTrackOrdinal := none }, line)
  | none =>
    match s.audioTrackOrdinal with
    | none => .ok (s, line)
    | some ordinal =>
      let track := trackNumber sheet ordinal
      match indexOf trimmed with
      | none =>
        if (stripKeywordCi trimmed indexKeyword).isSome then
          .error s!"source CUE track {track} contains an INDEX other than 00/01; repair copy not written"
        else .ok (s, line)
      | some (number, _) =>
        let name := String.ofList number.text
        match desiredFrames desired ordinal number with
        | none => .error s!"source CUE track {track} has INDEX {name} but the validated repair does not"
        | some frames =>
          if (s.counts number)[ordinal]? ≠ some 0 then
            .error s!"source CUE track {track} contains multiple INDEX {name} lines; repair copy not written"
          else
            match replaceIndexTimestampPreservingLine line.body number.text frames with
            | none => .error s!"failed to rewrite INDEX {name} for track {track} without rebuilding the CUE"
            | some body => .ok (s.count number ordinal, { line with body := body })

def repairLines (sheet : CueSheet) (desired : List (Option ℕ × ℕ)) (s : RepairState) :
    List CueTextLine → Except String (RepairState × List CueTextLine)
  | [] => .ok (s, [])
  | line :: ls => do
    let (s, line) ← repairLine sheet desired s line
    let (s, ls) ← repairLines sheet desired s ls
    return (s, line :: ls)

/-- Every track had the lines it should (cue_parser.rs:2092-2110). -/
def checkCounts (sheet : CueSheet) : ℕ → List ((Option ℕ × ℕ) × ℕ × ℕ) → Except String Unit
  | _, [] => .ok ()
  | ordinal, ((expectedIndex00, _), count00, count01) :: rest =>
    if count00 ≠ (if expectedIndex00.isSome then 1 else 0) ∨ count01 ≠ 1 then
      .error s!"source CUE track {trackNumber sheet ordinal} does not contain the expected INDEX 00/01 lines; repair copy not written"
    else checkCounts sheet (ordinal + 1) rest

/-- The text that `create_cue_index_repair_copy` (cue_parser.rs:1983) writes for a decoded source. -/
def createCueIndexRepairCopy (decoded : Str) (repairedSheet : CueSheet) : Except String Str := do
  let desired ← desiredIndexes repairedSheet.tracks
  let zeros := List.replicate desired.length 0
  let (s, ls) ← repairLines repairedSheet desired ⟨none, 0, zeros, zeros⟩ (splitCueLinesPreservingEol decoded)
  if s.nextAudioTrack ≠ desired.length then
    throw s!"source CUE has {s.nextAudioTrack} AUDIO tracks but validated repair has {desired.length}"
  checkCounts repairedSheet 0 (desired.zip (s.rewrittenIndex00Counts.zip s.rewrittenIndex01Counts))
  return ls.flatMap CueTextLine.text

/-! ## The frames of the validated sheet -/

/-- The index of a track, as the rebase has it. -/
def RebaseState.slotAt (s : RebaseState) (ordinal : ℕ) (number : IndexNumber) : Option (ℕ × ℕ) := s.trackIndexes[ordinal]?.bind fun indexes => indexes.slot number

/-- What the second walk gets for a track. -/
def CuePhysicalTrackIndexes.desired (indexes : CuePhysicalTrackIndexes) : Option ℕ × ℕ :=
  (indexes.index00.map Prod.fst, (indexes.index01.map Prod.fst).getD 0)

theorem checkTrackIndexes_eq_ok {ordinal : ℕ} {tracks : List CuePhysicalTrackIndexes} (h : checkTrackIndexes ordinal tracks = .ok ()) :
    ∀ indexes ∈ tracks, indexes.index01.isSome = true := by
  induction tracks generalizing ordinal with
  | nil => exact nofun
  | cons indexes tracks ih =>
    unfold checkTrackIndexes at h
    cases h01 : indexes.index01 with
    | none =>
      rw [h01] at h
      cases h
    | some index01 =>
      rw [h01] at h
      dsimp only at h
      have hrest : ∀ indexes ∈ tracks, indexes.index01.isSome = true := by
        split at h
        · split_ifs at h
          exact ih h
        · exact ih h
      rw [List.forall_mem_cons, h01]
      exact ⟨rfl, hrest⟩

theorem checkReparsed_eq_ok {ordinal : ℕ} {pairs : List (CueTrack × CuePhysicalTrackIndexes)} (h : checkReparsed ordinal pairs = .ok ()) :
    ∀ pair ∈ pairs, pair.1.index00Frames = pair.2.index00.map Prod.fst ∧ pair.1.index01Frames = pair.2.index01.map Prod.fst := by
  induction pairs generalizing ordinal with
  | nil => exact nofun
  | cons pair pairs ih =>
    obtain ⟨track, indexes⟩ := pair
    unfold checkReparsed at h
    split_ifs at h with hgeometry
    rw [not_or, not_not, not_not] at hgeometry
    rw [List.forall_mem_cons]
    exact ⟨hgeometry, ih h⟩

theorem desiredIndexes_eq_ok {tracks : List CueTrack} {all : List CuePhysicalTrackIndexes}
    (h : List.Forall₂ (fun track indexes => track.index00Frames = indexes.index00.map Prod.fst ∧ track.index01Frames = indexes.index01.map Prod.fst)
      tracks all) (hall : ∀ indexes ∈ all, indexes.index01.isSome = true) :
    desiredIndexes tracks = .ok (all.map CuePhysicalTrackIndexes.desired) := by
  induction h with
  | nil => rfl
  | @cons track indexes tracks all hframes _ ih =>
    rw [List.forall_mem_cons] at hall
    obtain ⟨index01, h01⟩ := Option.isSome_iff_exists.1 hall.1
    unfold desiredIndexes
    rw [hframes.2, h01, Option.map_some]
    dsimp only
    rw [ih hall.2, hframes.1, List.map_cons]
    unfold CuePhysicalTrackIndexes.desired
    rw [h01]
    rfl

theorem desiredFrames_eq {s : RebaseState} {ordinal : ℕ} {number : IndexNumber} {value : ℕ × ℕ} (h : s.slotAt ordinal number = some value) :
    desiredFrames (s.trackIndexes.map CuePhysicalTrackIndexes.desired) ordinal number = some value.1 := by
  obtain ⟨indexes, hindexes, hslot⟩ := Option.bind_eq_some_iff.1 h
  cases number with
  | index00 =>
    have h00 : indexes.index00 = some value := hslot
    simp [desiredFrames, CuePhysicalTrackIndexes.desired, hindexes, h00]
  | index01 =>
    have h01 : indexes.index01 = some value := hslot
    simp [desiredFrames, CuePhysicalTrackIndexes.desired, hindexes, h01]

/-- A FILE line is nothing to the second walk. -/
theorem file_no_index {trimmed : Str} (h : (parseFileLine trimmed).isSome = true) :
    parseTrackHeader trimmed = none ∧ indexOf trimmed = none ∧ stripKeywordCi trimmed indexKeyword = none := by
  obtain ⟨file, hfile⟩ := Option.isSome_iff_exists.1 h
  refine ⟨(file_line_plain hfile).1, ?_, ?_⟩
  · cases hindex : indexOf trimmed with
    | none => rfl
    | some index =>
      rw [(index_no_structure hindex).1] at hfile
      cases hfile
  · unfold parseFileLine at hfile
    obtain ⟨rest, hrest, -⟩ := Option.bind_eq_some_iff.1 hfile
    exact stripKeywordCi_other hrest (by decide)

theorem checkCounts_of_forall {sheet : CueSheet} {ordinal : ℕ} {l : List ((Option ℕ × ℕ) × ℕ × ℕ)}
    (h : ∀ entry ∈ l, entry.2.1 = (if entry.1.1.isSome then 1 else 0) ∧ entry.2.2 = 1) : checkCounts sheet ordinal l = .ok () := by
  induction l generalizing ordinal with
  | nil => rfl
  | cons entry l ih =>
    obtain ⟨⟨expected, index01⟩, count00, count01⟩ := entry
    rw [List.forall_mem_cons] at h
    unfold checkCounts
    rw [if_neg (by rw [not_or, not_not, not_not]; exact h.1)]
    exact ih h.2

/-! ## The second walk follows the first -/

section Simulation

variable {s s' t : RebaseState} {r : RepairState} {line line' : CueTextLine} {ls ls' : List CueTextLine} {n : ℕ}

theorem slotAt_openTrack (s : RebaseState) (ordinal : ℕ) (number : IndexNumber) : s.openTrack.slotAt ordinal number = s.slotAt ordinal number := by
  unfold RebaseState.slotAt RebaseState.openTrack
  dsimp only
  rcases lt_trichotomy ordinal s.trackIndexes.length with hlt | rfl | hgt
  · rw [List.getElem?_append_left hlt]
  · rw [List.getElem?_concat_length, List.getElem?_eq_none (le_refl _)]
    cases number <;> rfl
  · rw [List.getElem?_eq_none (by simp; omega), List.getElem?_eq_none hgt.le]

theorem slot_setSlot (indexes : CuePhysicalTrackIndexes) (number : IndexNumber) (value : ℕ × ℕ) (number' : IndexNumber) :
    (indexes.setSlot number value).slot number' = if number' = number then some value else indexes.slot number' := by
  cases number <;> cases number' <;> rfl

section Rewritten

variable {ordinal frames section_ : ℕ} {number : IndexNumber} {indexes : CuePhysicalTrackIndexes}

theorem Rewritten.slotAt_before (h : Rewritten s ordinal line number frames s' line' section_ indexes) : s.slotAt ordinal number = none := by
  unfold RebaseState.slotAt
  rw [h.track, Option.bind_some, h.slot]

/-- A rewritten line fills one slot. -/
theorem Rewritten.slotAt_self (h : Rewritten s ordinal line number frames s' line' section_ indexes) :
    s'.slotAt ordinal number = some (frames - s.baseFor section_ frames, section_) := by
  have hlt : ordinal < s.trackIndexes.length := (List.getElem?_eq_some_iff.1 h.track).1
  unfold RebaseState.slotAt
  rw [h.state]
  dsimp only
  rw [List.getElem?_set_self hlt, Option.bind_some, slot_setSlot, if_pos rfl]

theorem Rewritten.slotAt_other (h : Rewritten s ordinal line number frames s' line' section_ indexes) {ordinal' : ℕ} {number' : IndexNumber}
    (hother : ordinal' = ordinal → number' ≠ number) : s'.slotAt ordinal' number' = s.slotAt ordinal' number' := by
  have hlt : ordinal < s.trackIndexes.length := (List.getElem?_eq_some_iff.1 h.track).1
  unfold RebaseState.slotAt
  rw [h.state]
  dsimp only
  by_cases hordinal : ordinal' = ordinal
  · subst hordinal
    rw [List.getElem?_set_self hlt, Option.bind_some, slot_setSlot, if_neg (hother rfl), h.track, Option.bind_some]
  · rw [List.getElem?_set_ne (Ne.symm hordinal)]

end Rewritten

/-- What the first walk still does: slots that are filled stay as they are. -/
structure Leads (s t : RebaseState) : Prop where
  tracks : s.trackIndexes.length ≤ t.trackIndexes.length
  slots : ∀ ordinal number value, s.slotAt ordinal number = some value → t.slotAt ordinal number = some value

theorem Leads.refl (s : RebaseState) : Leads s s := ⟨le_refl _, fun _ _ _ h => h⟩

theorem Leads.trans (h : Leads s s') (h' : Leads s' t) : Leads s t :=
  ⟨le_trans h.tracks h'.tracks, fun ordinal number value hslot => h'.slots ordinal number value (h.slots ordinal number value hslot)⟩

theorem Step.leads (h : Step s line s' line') : Leads s s' := by
  cases h with
  | audioTrack =>
    refine ⟨?_, fun ordinal number value hslot => by rwa [slotAt_openTrack]⟩
    simp [RebaseState.openTrack]
  | @index ordinal frames section_ number indexes _ _ _ _ h =>
    refine ⟨?_, ?_⟩
    · rw [h.state]
      simp
    · intro ordinal' number' value hslot
      rwa [h.slotAt_other]
      rintro rfl rfl
      rw [h.slotAt_before] at hslot
      cases hslot
  | file => exact ⟨le_refl _, fun _ _ _ h => h⟩
  | dataTrack => exact ⟨le_refl _, fun _ _ _ h => h⟩
  | outside => exact .refl _
  | plain => exact .refl _

theorem rebaseLines_leads (h : rebaseLines s ls = .ok (t, ls')) : Leads s t := by
  induction ls generalizing s ls' with
  | nil =>
    obtain ⟨rfl, -⟩ := rebaseLines_nil.1 h
    exact .refl t
  | cons line ls ih =>
    obtain ⟨u, line', more, hstep, hmore, rfl⟩ := rebaseLines_cons.1 h
    exact hstep.leads.trans (ih hmore)

/-- The walks stand at the same track, and an index was rewritten where its slot is filled. -/
structure Mirrors (n : ℕ) (s : RebaseState) (r : RepairState) : Prop where
  ordinal : r.audioTrackOrdinal = s.audioTrackOrdinal
  next : r.nextAudioTrack = s.trackIndexes.length
  counts : ∀ number, r.counts number = (List.range n).map fun ordinal => if (s.slotAt ordinal number).isSome then 1 else 0

theorem counts_count (r : RepairState) (number : IndexNumber) (ordinal : ℕ) (number' : IndexNumber) :
    (r.count number ordinal).counts number' = if number' = number then (r.counts number').modify ordinal (· + 1) else r.counts number' := by
  cases number <;> cases number' <;> rfl

@[simp] theorem count_audioTrackOrdinal (r : RepairState) (number : IndexNumber) (ordinal : ℕ) :
    (r.count number ordinal).audioTrackOrdinal = r.audioTrackOrdinal := by
  cases number <;> rfl

@[simp] theorem count_nextAudioTrack (r : RepairState) (number : IndexNumber) (ordinal : ℕ) :
    (r.count number ordinal).nextAudioTrack = r.nextAudioTrack := by
  cases number <;> rfl

theorem Mirrors.initial : Mirrors n .initial ⟨none, 0, List.replicate n 0, List.replicate n 0⟩ := by
  refine ⟨rfl, rfl, fun number => ?_⟩
  have hzeros : (List.range n).map (fun ordinal => if (RebaseState.initial.slotAt ordinal number).isSome then 1 else 0) = List.replicate n 0 := by
    simp [RebaseState.slotAt, RebaseState.initial, List.map_const']
  rw [hzeros]
  cases number <;> rfl

/-- The count of a slot that gets filled. -/
theorem Mirrors.count {ordinal frames section_ : ℕ} {number : IndexNumber} {indexes : CuePhysicalTrackIndexes} (h : Mirrors n s r)
    (hrewritten : Rewritten s ordinal line number frames s' line' section_ indexes) : Mirrors n s' (r.count number ordinal) := by
  refine ⟨?_, ?_, ?_⟩
  · rw [count_audioTrackOrdinal, h.ordinal, hrewritten.state]
  · rw [count_nextAudioTrack, h.next, hrewritten.state]
    simp
  · intro number'
    rw [counts_count, h.counts]
    by_cases hnumber : number' = number
    · subst hnumber
      rw [if_pos rfl]
      refine List.ext_getElem (by simp) fun i hi hi' => ?_
      rw [List.getElem_modify]
      simp only [List.getElem_map, List.getElem_range]
      by_cases hordinal : ordinal = i
      · subst hordinal
        rw [if_pos rfl, hrewritten.slotAt_self, hrewritten.slotAt_before]
        rfl
      · rw [if_neg hordinal, hrewritten.slotAt_other fun h => absurd h.symm hordinal]
    · rw [if_neg hnumber]
      refine List.map_congr_left fun i _ => ?_
      rw [hrewritten.slotAt_other fun _ => hnumber]

/-- **One step**: the second walk writes the line that the first one wrote, for the first one's slots are the frames of the sheet. -/
theorem Mirrors.step (h : Mirrors t.trackIndexes.length s r) (hstep : Step s line s' line') (hleads : Leads s' t)
    (sheet : CueSheet) : ∃ r', repairLine sheet (t.trackIndexes.map CuePhysicalTrackIndexes.desired) r line = .ok (r', line') ∧
      Mirrors t.trackIndexes.length s' r' := by
  unfold repairLine
  dsimp only
  cases hstep with
  | file hfile =>
    obtain ⟨htrack, hindex, hkeyword⟩ := file_no_index hfile
    rw [htrack]
    dsimp only
    refine ⟨r, ?_, ⟨h.ordinal, h.next, h.counts⟩⟩
    cases r.audioTrackOrdinal with
    | none => rfl
    | some ordinal =>
      dsimp only
      rw [hindex, hkeyword]
      rfl
  | audioTrack hfile htrack =>
    have hroom : s.trackIndexes.length + 1 ≤ t.trackIndexes.length := by
      have hle := hleads.tracks
      simpa [RebaseState.openTrack] using hle
    rw [htrack]
    dsimp only
    rw [List.length_map, h.next, if_neg (not_le.2 hroom)]
    refine ⟨_, rfl, ⟨rfl, ?_, fun number => ?_⟩⟩
    · simp [RebaseState.openTrack]
    · simp only [slotAt_openTrack]
      exact h.counts number
  | dataTrack hfile htrack =>
    rw [htrack]
    exact ⟨_, rfl, ⟨rfl, h.next, h.counts⟩⟩
  | outside hfile htrack hordinal =>
    rw [htrack]
    dsimp only
    rw [h.ordinal, hordinal]
    exact ⟨_, rfl, h⟩
  | plain hfile htrack hordinal hindex hkeyword =>
    rw [htrack]
    dsimp only
    rw [h.ordinal, hordinal]
    dsimp only
    rw [hindex, hkeyword]
    exact ⟨_, rfl, h⟩
  | @index ordinal frames section_ number indexes _ _ hordinal hindex hrewritten =>
    have hlt : ordinal < t.trackIndexes.length := by
      have hle := hleads.tracks
      rw [hrewritten.state] at hle
      dsimp only at hle
      rw [List.length_set] at hle
      exact lt_of_lt_of_le (List.getElem?_eq_some_iff.1 hrewritten.track).1 hle
    have hcount : (r.counts number)[ordinal]? = some 0 := by
      rw [h.counts, List.getElem?_map, List.getElem?_range hlt, Option.map_some, hrewritten.slotAt_before]
      rfl
    rw [(index_no_structure hindex).2]
    dsimp only
    rw [h.ordinal, hordinal]
    dsimp only
    rw [hindex]
    dsimp only
    rw [desiredFrames_eq (hleads.slots _ _ _ hrewritten.slotAt_self)]
    dsimp only
    rw [hcount, if_neg (not_not.2 rfl), hrewritten.replaced]
    refine ⟨_, ?_, h.count hrewritten⟩
    obtain ⟨body, eol⟩ := line
    obtain ⟨body', eol'⟩ := line'
    obtain rfl : eol' = eol := hrewritten.eol
    rfl

theorem Mirrors.run (h : Mirrors t.trackIndexes.length s r) (hrun : rebaseLines s ls = .ok (t, ls')) (sheet : CueSheet) :
    ∃ r', repairLines sheet (t.trackIndexes.map CuePhysicalTrackIndexes.desired) r ls = .ok (r', ls') ∧
      Mirrors t.trackIndexes.length t r' := by
  induction ls generalizing s r ls' with
  | nil =>
    obtain ⟨rfl, rfl⟩ := rebaseLines_nil.1 hrun
    exact ⟨r, rfl, h⟩
  | cons line ls ih =>
    obtain ⟨u, line', more, hstep, hmore, rfl⟩ := rebaseLines_cons.1 hrun
    obtain ⟨r', hline, hmirrors⟩ := h.step hstep (rebaseLines_leads hmore) sheet
    obtain ⟨r'', hlines, hmirrors'⟩ := ih hmirrors hmore
    refine ⟨r'', ?_, hmirrors'⟩
    exact bind_eq_ok.2 ⟨(r', line'), hline, bind_eq_ok.2 ⟨(r'', more), hlines, rfl⟩⟩

end Simulation

/-- **The copy is what was validated**: the second walk accepts every sheet that the rebase returns, and writes the text that it parsed. -/
theorem createCueIndexRepairCopy_rebased {text text' : Str} {sheet : CueSheet}
    (h : rebaseCueIndexLinesByPhysicalFileSection text = .ok (text', sheet)) : createCueIndexRepairCopy text sheet = .ok text' := by
  obtain ⟨t, ls', hlines, rfl, rfl, hchecked⟩ := rebaseCueIndexLines_eq_ok.1 h
  have hindexes := checkTrackIndexes_eq_ok hchecked.tracks
  have hframes := List.forall₂_iff_zip.2 ⟨hchecked.count, fun hmem => checkReparsed_eq_ok hchecked.reparsed _ hmem⟩
  obtain ⟨r, hrepair, hmirrors⟩ := Mirrors.initial.run hlines (parseCue (ls'.flatMap CueTextLine.text))
  have hcounts : ∀ number, r.counts number = t.trackIndexes.map fun indexes => if (indexes.slot number).isSome then 1 else 0 := by
    intro number
    rw [hmirrors.counts number]
    refine List.ext_getElem (by simp) fun i hi hi' => ?_
    have hlt : i < t.trackIndexes.length := by simpa using hi
    simp [RebaseState.slotAt, hlt]
  unfold createCueIndexRepairCopy
  rw [desiredIndexes_eq_ok hframes hindexes]
  refine bind_eq_ok.2 ⟨_, rfl, bind_eq_ok.2 ⟨(r, ls'), ?_, ?_⟩⟩
  · rw [List.length_map]
    exact hrepair
  · dsimp only
    rw [List.length_map, hmirrors.next, if_neg (not_not.2 rfl), show r.rewrittenIndex00Counts = r.counts .index00 from rfl,
      show r.rewrittenIndex01Counts = r.counts .index01 from rfl, hcounts, hcounts, List.zip_map', List.zip_map',
      checkCounts_of_forall]
    · rfl
    · rintro entry hentry
      obtain ⟨indexes, hmem, rfl⟩ := List.mem_map.1 hentry
      have h01 : (indexes.slot .index01).isSome = true := hindexes indexes hmem
      rw [h01]
      cases h00 : indexes.index00 <;> simp [CuePhysicalTrackIndexes.desired, CuePhysicalTrackIndexes.slot, h00]

theorem createCueIndexRepairCopy_rebased_cumulative : createCueIndexRepairCopy cumulativeSheet (parseCue rebasedSheet) = .ok rebasedSheet :=
  createCueIndexRepairCopy_rebased rebase_cumulativeSheet

end Cue
