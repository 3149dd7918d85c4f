import Tonepoet.Cue.IndexLines

/-!
# Rebasing cumulative indexes (cue_parser.rs:1800-1977)

A sheet whose indexes count through all its files is rebased: every INDEX 00/01 line of an audio track counts from the first such line
after the FILE line it stands behind. Everything is a walk over the lines; the frames of an index are found and replaced where they stand.
-/

namespace Cue

open Rust

/-! ## The walk -/

/-- The indexes of a track, each with the FILE section it stands in. -/
structure CuePhysicalTrackIndexes where
  index00 : Option (ℕ × ℕ)
  index01 : Option (ℕ × ℕ)

def CuePhysicalTrackIndexes.slot (indexes : CuePhysicalTrackIndexes) : IndexNumber → Option (ℕ × ℕ)
  | .index00 => indexes.index00
  | .index01 => indexes.index01

def CuePhysicalTrackIndexes.setSlot (indexes : CuePhysicalTrackIndexes) (number : IndexNumber) (value : ℕ × ℕ) : CuePhysicalTrackIndexes :=
  match number with
  | .index00 => { indexes with index00 := some value }
  | .index01 => { indexes with index01 := some value }

/-- The locals of the walk. The number of the next audio track is how many there are. -/
structure RebaseState where
  currentFileSection : Option ℕ
  sectionBases : List (Option ℕ)
  audioTrackOrdinal : Option ℕ
  trackIndexes : List CuePhysicalTrackIndexes

def RebaseState.initial : RebaseState := ⟨none, [], none, []⟩

/-- `if strip_keyword_ci(trimmed, "INDEX")...`: the index a line of an audio track gives. One line is not both. -/
def indexOf (trimmed : Str) : Option (IndexNumber × ℕ) :=
  match parseIndexLine trimmed IndexNumber.index00.text, parseIndexLine trimmed IndexNumber.index01.text with
  | some frames, _ => some (.index00, frames)
  | none, some frames => some (.index01, frames)
  | none, none => none

/-- A new FILE section; the first keeps its timeline. -/
def RebaseState.openSection (s : RebaseState) : RebaseState :=
  { s with
    currentFileSection := some s.sectionBases.length
    sectionBases := s.sectionBases ++ [if s.sectionBases.length = 0 then some 0 else none] }

/-- A new audio track. -/
def RebaseState.openTrack (s : RebaseState) : RebaseState :=
  { s with audioTrackOrdinal := some s.trackIndexes.length, trackIndexes := s.trackIndexes ++ [⟨none, none⟩] }

/-- The base of a section that has an index with these frames: its own one where it has none yet. -/
def RebaseState.baseFor (s : RebaseState) (section_ sourceFrames : ℕ) : ℕ :=
  match s.sectionBases[section_]? with
  | some (some base) => base
  | _ => sourceFrames

/-- An INDEX 00/01 line of an audio track (cue_parser.rs:1868-1929). -/
def rebaseIndex (s : RebaseState) (ordinal : ℕ) (line : CueTextLine) (number : IndexNumber) (sourceFrames : ℕ) :
    Except String (RebaseState × CueTextLine) :=
  let name := String.ofList number.text
  match s.currentFileSection with
  | none => .error s!"cannot repair CUE AUDIO track {ordinal + 1} INDEX {name} without a preceding FILE section"
  | some section_ =>
    let base := s.baseFor section_ sourceFrames
    if sourceFrames < base then
      .error s!"cannot rebase CUE AUDIO track {ordinal + 1} INDEX {name} at frame {sourceFrames} below physical FILE-section base {base}"
    else
      let repairedFrames := sourceFrames - base
      match s.trackIndexes[ordinal]? with
      | none => .error "index out of bounds"
      | some indexes =>
        if (indexes.slot number).isSome then
          .error s!"source CUE AUDIO track {ordinal + 1} contains multiple INDEX {name} lines; repair copy not written"
        else
          match replaceIndexTimestampPreservingLine line.body number.text repairedFrames with
          | none => .error s!"failed to prepare repaired INDEX {name} for AUDIO track {ordinal + 1} without rebuilding the CUE"
          | some body =>
            .ok ({ s with
              sectionBases := s.sectionBases.set section_ (some base)
              trackIndexes := s.trackIndexes.set ordinal (indexes.setSlot number (repairedFrames, section_)) }, { line with body := body })

/-- The body of the loop (cue_parser.rs:1829-1929). -/
def rebaseLine (s : RebaseState) (line : CueTextLine) : Except String (RebaseState × CueTextLine) :=
  let trimmed := trim line.body
  if (parseFileLine trimmed).isSome then .ok (s.openSection, line)
  else
    match parseTrackHeader trimmed with
    | some (_, true) => .ok (s.openTrack, line)
    | some (_, false) => .ok ({ s with audioTrackOrdinal := none }, line)
    | none =>
      match s.audioTrackOrdinal with
      | none => .ok (s, line)
      | some ordinal =>
        match indexOf trimmed with
        | some (number, sourceFrames) => rebaseIndex s ordinal line number sourceFrames
        | none =>
          if (stripKeywordCi trimmed indexKeyword).isSome then
            .error s!"source CUE AUDIO track {ordinal + 1} contains an INDEX other than 00/01; repair copy not written"
          else .ok (s, line)

def rebaseLines (s : RebaseState) : List CueTextLine → Except String (RebaseState × List CueTextLine)
  | [] => .ok (s, [])
  | line :: ls => do
    let (s, line) ← rebaseLine s line
    let (s, ls) ← rebaseLines s ls
    return (s, line :: ls)

/-- Every track has its INDEX 01, and within one file its INDEX 00 is not behind it (cue_parser.rs:1937-1957). -/
def checkTrackIndexes : ℕ → List CuePhysicalTrackIndexes → Except String Unit
  | _, [] => .ok ()
  | ordinal, indexes :: rest =>
    match indexes.index01 with
    | none => .error s!"cannot repair CUE AUDIO track {ordinal + 1} without INDEX 01"
    | some (index01, section01) =>
      match indexes.index00 with
      | some (index00, section00) =>
        if section00 = section01 ∧ index00 > index01 then
          .error s!"cannot repair CUE AUDIO track {ordinal + 1}: rebased INDEX 00 is after INDEX 01 within one FILE section"
        else checkTrackIndexes (ordinal + 1) rest
      | none => checkTrackIndexes (ordinal + 1) rest

/-- The tracks that are read again have the indexes (cue_parser.rs:1964-1974). -/
def checkReparsed : ℕ → List (CueTrack × CuePhysicalTrackIndexes) → Except String Unit
  | _, [] => .ok ()
  | ordinal, (track, indexes) :: rest =>
    if track.index00Frames ≠ indexes.index00.map Prod.fst ∨ track.index01Frames ≠ indexes.index01.map Prod.fst then
      .error s!"repaired CUE AUDIO track {ordinal + 1} did not reparse with the prepared INDEX geometry"
    else checkReparsed (ordinal + 1) rest

/-- `rebase_cue_index_lines_by_physical_file_section` (cue_parser.rs:1812) on the decoded text, with the text that it parses. -/
def rebaseCueIndexLinesByPhysicalFileSection (decoded : Str) : Except String (Str × CueSheet) := do
  let (s, ls) ← rebaseLines .initial (splitCueLinesPreservingEol decoded)
  if s.sectionBases.length < 2 then throw "cannot repair cumulative CUE without multiple physical FILE sections"
  checkTrackIndexes 0 s.trackIndexes
  let repairedText := ls.flatMap CueTextLine.text
  let repaired := parseCue repairedText
  if repaired.tracks.length ≠ s.trackIndexes.length then
    throw s!"repaired CUE reparsed to {repaired.tracks.length} AUDIO tracks, expected {s.trackIndexes.length}"
  checkReparsed 0 (repaired.tracks.zip s.trackIndexes)
  return (repairedText, repaired)

/-! ## What a sheet says of its indexes -/

/-- The FILE section and the audio track a line stands in: sections are counted from one. -/
structure Standing where
  sections : ℕ
  audio : Bool

/-- The index that a line of an audio track gives. -/
def audioIndex (audio : Bool) (line : CueTextLine) : Option (IndexNumber × ℕ) :=
  let trimmed := trim line.body
  if (parseFileLine trimmed).isSome ∨ (parseTrackHeader trimmed).isSome ∨ audio = false then none else indexOf trimmed

/-- Where the next line stands. -/
def Standing.after (p : Standing) (line : CueTextLine) : Standing :=
  let trimmed := trim line.body
  if (parseFileLine trimmed).isSome then { p with sections := p.sections + 1 }
  else
    match parseTrackHeader trimmed with
    | some (_, audio) => { p with audio := audio }
    | none => p

/-- An index of an audio track: the section it stands in, its number and its frames. -/
abbrev Occurrence := ℕ × IndexNumber × ℕ

/-- The indexes of the audio tracks, line by line. -/
def audioIndexes (p : Standing) : List CueTextLine → List Occurrence
  | [] => []
  | line :: ls =>
    (audioIndex p.audio line).toList.map (fun (number, frames) => (p.sections, number, frames)) ++ audioIndexes (p.after line) ls

/-- The frames a section counts from, if the indexes say them: the first section keeps its timeline. -/
def baseSeen (occurrences : List Occurrence) (section_ : ℕ) : Option ℕ :=
  if section_ = 1 then some 0 else (occurrences.find? fun o => o.1 = section_).map fun o => o.2.2

def baseOf (occurrences : List Occurrence) (section_ : ℕ) : ℕ := (baseSeen occurrences section_).getD 0

/-- An occurrence that counts from its section's base. -/
def Occurrence.rebased (occurrences : List Occurrence) (o : Occurrence) : Occurrence := (o.1, o.2.1, o.2.2 - baseOf occurrences o.1)

/-- All indexes of a sheet's audio tracks. -/
def sheetIndexes (text : Str) : List Occurrence := audioIndexes ⟨0, false⟩ (splitCueLinesPreservingEol text)

/-- A line that is kept but for the timestamp of an INDEX line. -/
structure OnlyTimestamp (line line' : CueTextLine) : Prop where
  eol : line'.eol = line.eol
  body : line'.body = line.body ∨ ∃ number frames, Restamped number frames line.body line'.body

/-- A sheet is the rebased one. -/
structure Rebased (text text' : Str) : Prop where
  lines : List.Forall₂ OnlyTimestamp (splitCueLinesPreservingEol text) (splitCueLinesPreservingEol text')
  base_le : ∀ o ∈ sheetIndexes text, baseOf (sheetIndexes text) o.1 ≤ o.2.2
  indexes : sheetIndexes text' = (sheetIndexes text).map (Occurrence.rebased (sheetIndexes text))

/-! ## One index line -/

section Index

variable {number : IndexNumber} {trimmed : Str} {frames : ℕ} {s t : RebaseState} {line line' : CueTextLine} {ordinal : ℕ}

/-- A line gives an index under one number only. -/
theorem parseIndexLine_unique {wanted wanted' : Str} (h : parseIndexLine trimmed wanted = some frames) (hne : wanted ≠ wanted') :
    parseIndexLine trimmed wanted' = none := by
  unfold parseIndexLine at h ⊢
  simp only [Option.bind_eq_bind, Option.bind_eq_some_iff] at h
  obtain ⟨rest, hrest, h⟩ := h
  rw [hrest]
  simp only [Option.bind_eq_bind, Option.bind_some]
  split at h
  · split_ifs at h with hindex
    rw [not_not] at hindex
    exact if_pos (by rwa [hindex])
  · cases h

theorem indexOf_eq_some : indexOf trimmed = some (number, frames) ↔ parseIndexLine trimmed number.text = some frames := by
  unfold indexOf
  constructor
  · intro h
    split at h
    · rename_i hparse
      cases h
      exact hparse
    · rename_i hparse
      cases h
      exact hparse
    · cases h
  · intro h
    cases number with
    | index00 => rw [h]
    | index01 =>
      have hother : parseIndexLine trimmed IndexNumber.index00.text = none := parseIndexLine_unique h (by decide)
      rw [hother, h]

/-- An INDEX line is no FILE line and no TRACK line. -/
theorem index_no_structure (h : indexOf trimmed = some (number, frames)) : parseFileLine trimmed = none ∧ parseTrackHeader trimmed = none := by
  have hparse := indexOf_eq_some.1 h
  unfold parseIndexLine at hparse
  obtain ⟨rest, hrest, -⟩ := Option.bind_eq_some_iff.1 hparse
  have hfile : stripKeywordCi trimmed fileKeyword = none := stripKeywordCi_other hrest (by decide)
  have htrack : stripKeywordCi trimmed trackKeyword = none := stripKeywordCi_other hrest (by decide)
  unfold parseFileLine parseTrackHeader
  rw [hfile, htrack]
  exact ⟨rfl, rfl⟩

/-- What a rewritten index line is. -/
structure Rewritten (s : RebaseState) (ordinal : ℕ) (line : CueTextLine) (number : IndexNumber) (frames : ℕ) (t : RebaseState)
    (line' : CueTextLine) (section_ : ℕ) (indexes : CuePhysicalTrackIndexes) : Prop where
  current : s.currentFileSection = some section_
  base_le : s.baseFor section_ frames ≤ frames
  track : s.trackIndexes[ordinal]? = some indexes
  slot : indexes.slot number = none
  replaced : replaceIndexTimestampPreservingLine line.body number.text (frames - s.baseFor section_ frames) = some line'.body
  eol : line'.eol = line.eol
  state : t = { s with
    sectionBases := s.sectionBases.set section_ (some (s.baseFor section_ frames))
    trackIndexes := s.trackIndexes.set ordinal (indexes.setSlot number (frames - s.baseFor section_ frames, section_)) }

theorem rebaseIndex_eq_ok : rebaseIndex s ordinal line number frames = .ok (t, line') ↔
    ∃ section_ indexes, Rewritten s ordinal line number frames t line' section_ indexes := by
  constructor
  · intro h
    unfold rebaseIndex at h
    dsimp only at h
    split at h
    · cases h
    rename_i section_ hsection
    split_ifs at h with hbase
    split at h
    · cases h
    rename_i indexes htrack
    split_ifs at h with hslot
    split at h
    · cases h
    rename_i body hbody
    cases h
    exact ⟨section_, indexes, hsection, not_lt.1 hbase, htrack, by simpa using hslot, hbody, rfl, rfl⟩
  · rintro ⟨section_, indexes, hsection, hbase, htrack, hslot, hreplaced, heol, rfl⟩
    unfold rebaseIndex
    dsimp only
    rw [hsection]
    dsimp only
    rw [if_neg (not_lt.2 hbase), htrack]
    dsimp only
    rw [hslot, if_neg (by simp), hreplaced]
    obtain ⟨body, eol⟩ := line
    obtain ⟨body', eol'⟩ := line'
    cases heol
    rfl

/-- A step of the walk: the line stays as it is, or it is an index line of an audio track that is rewritten. -/
inductive Step (s : RebaseState) (line : CueTextLine) : RebaseState → CueTextLine → Prop
  | file (h : (parseFileLine (trim line.body)).isSome = true) : Step s line s.openSection line
  | audioTrack {n : ℕ} (hfile : parseFileLine (trim line.body) = none) (h : parseTrackHeader (trim line.body) = some (n, true)) :
      Step s line s.openTrack line
  | dataTrack {n : ℕ} (hfile : parseFileLine (trim line.body) = none) (h : parseTrackHeader (trim line.body) = some (n, false)) :
      Step s line { s with audioTrackOrdinal := none } line
  | outside (hfile : parseFileLine (trim line.body) = none) (htrack : parseTrackHeader (trim line.body) = none)
      (h : s.audioTrackOrdinal = none) : Step s line s line
  | plain {ordinal : ℕ} (hfile : parseFileLine (trim line.body) = none) (htrack : parseTrackHeader (trim line.body) = none)
      (hordinal : s.audioTrackOrdinal = some ordinal) (hindex : indexOf (trim line.body) = none)
      (h : stripKeywordCi (trim line.body) indexKeyword = none) : Step s line s line
  | index {ordinal frames section_ : ℕ} {number : IndexNumber} {indexes : CuePhysicalTrackIndexes} {t : RebaseState} {line' : CueTextLine}
      (hordinal : s.audioTrackOrdinal = some ordinal) (hindex : indexOf (trim line.body) = some (number, frames))
      (h : Rewritten s ordinal line number frames t line' section_ indexes) : Step s line t line'

theorem rebaseLine_eq_ok : rebaseLine s line = .ok (t, line') ↔ Step s line t line' := by
  constructor
  · intro h
    unfold rebaseLine at h
    dsimp only at h
    by_cases hfile : (parseFileLine (trim line.body)).isSome = true
    · rw [if_pos hfile] at h
      cases h
      exact .file hfile
    rw [if_neg hfile] at h
    rw [Bool.not_eq_true, Option.isSome_eq_false_iff, Option.isNone_iff_eq_none] at hfile
    split at h
    · rename_i htrack
      cases h
      exact .audioTrack hfile htrack
    · rename_i htrack
      cases h
      exact .dataTrack hfile htrack
    · rename_i htrack
      split at h
      · rename_i hordinal
        cases h
        exact .outside hfile htrack hordinal
      · rename_i ordinal hordinal
        split at h
        · rename_i number frames hindex
          obtain ⟨section_, indexes, hrewritten⟩ := rebaseIndex_eq_ok.1 h
          exact .index hordinal hindex hrewritten
        · rename_i hindex
          split_ifs at h with hkeyword
          cases h
          exact .plain hfile htrack hordinal hindex (by simpa using hkeyword)
  · intro h
    unfold rebaseLine
    dsimp only
    cases h with
    | file h => rw [if_pos h]
    | audioTrack hfile h => rw [hfile, if_neg (by simp), h]
    | dataTrack hfile h => rw [hfile, if_neg (by simp), h]
    | outside hfile htrack h => rw [hfile, if_neg (by simp), htrack, h]
    | plain hfile htrack hordinal hindex h => rw [hfile, if_neg (by simp), htrack, hordinal, hindex, h]; rfl
    | index hordinal hindex h =>
      obtain ⟨hfile, htrack⟩ := index_no_structure hindex
      rw [hfile, if_neg (by simp), htrack, hordinal, hindex]
      exact rebaseIndex_eq_ok.2 ⟨_, _, h⟩

/-- What the rewriting of an index line does to the line. -/
theorem Rewritten.restamped {section_ : ℕ} {indexes : CuePhysicalTrackIndexes} (h : Rewritten s ordinal line number frames t line' section_ indexes)
    (hindex : indexOf (trim line.body) = some (number, frames)) :
    Restamped number (frames - s.baseFor section_ frames) line.body line'.body := by
  have hparse := indexOf_eq_some.1 hindex
  obtain ⟨front, timestamp, rest, -, -, -, htimestamp, -⟩ := exists_indexFront hparse
  have hfits := (parseCueTimestamp_eq_some htimestamp).2
  obtain ⟨body', hbody'⟩ := exists_restamped hparse (lt_of_le_of_lt (Nat.sub_le frames (s.baseFor section_ frames)) hfits)
  obtain rfl := Option.some.inj (hbody'.replaced.symm.trans h.replaced)
  exact hbody'

end Index

/-! ## Rebasing what was rebased -/

section Again

variable {s t : RebaseState} {line line' : CueTextLine} {ls ls' : List CueTextLine}

/-- The walk over a sheet that was rebased: every base is zero. -/
def RebaseState.zeroed (s : RebaseState) : RebaseState := { s with sectionBases := s.sectionBases.map (Option.map fun _ => 0) }

theorem openSection_zeroed (s : RebaseState) : s.zeroed.openSection = s.openSection.zeroed := by
  unfold RebaseState.openSection RebaseState.zeroed
  rw [List.length_map, List.map_append, List.map_singleton]
  split <;> rfl

theorem baseFor_zeroed (s : RebaseState) (section_ frames : ℕ) :
    s.zeroed.baseFor section_ (frames - s.baseFor section_ frames) = 0 := by
  unfold RebaseState.baseFor RebaseState.zeroed
  rw [List.getElem?_map]
  cases h : s.sectionBases[section_]? with
  | none => exact Nat.sub_self frames
  | some base =>
    cases base with
    | none => exact Nat.sub_self frames
    | some base => rfl

theorem Step.again (h : Step s line t line') : Step s.zeroed line' t.zeroed line' := by
  cases h with
  | file h =>
    rw [← openSection_zeroed]
    exact .file h
  | audioTrack hfile h => exact .audioTrack hfile h
  | dataTrack hfile h => exact .dataTrack hfile h
  | outside hfile htrack h => exact .outside hfile htrack h
  | plain hfile htrack hordinal hindex h => exact .plain hfile htrack hordinal hindex h
  | @index ordinal frames section_ number indexes _ _ hordinal hindex h =>
    have hrestamped := h.restamped hindex
    have hzero := baseFor_zeroed s section_ frames
    have hagain : Rewritten s.zeroed ordinal line' number (frames - s.baseFor section_ frames) t.zeroed line' section_ indexes := by
      refine ⟨h.current, ?_, h.track, h.slot, ?_, rfl, ?_⟩
      · rw [hzero]
        exact Nat.zero_le _
      · rw [hzero, Nat.sub_zero]
        exact hrestamped.again
      · rw [hzero, Nat.sub_zero, h.state]
        unfold RebaseState.zeroed
        rw [List.map_set]
        rfl
    exact .index hordinal (indexOf_eq_some.2 hrestamped.gives) hagain

/-- The lines of a whole walk. -/
theorem rebaseLines_cons : rebaseLines s (line :: ls) = .ok (t, ls') ↔
    ∃ u line' more, Step s line u line' ∧ rebaseLines u ls = .ok (t, more) ∧ ls' = line' :: more := by
  conv_lhs => rw [rebaseLines]
  rw [bind_eq_ok]
  constructor
  · rintro ⟨⟨u, line'⟩, hstep, h⟩
    obtain ⟨⟨t', more⟩, hmore, heq⟩ := bind_eq_ok.1 h
    cases heq
    exact ⟨u, line', more, rebaseLine_eq_ok.1 hstep, hmore, rfl⟩
  · rintro ⟨u, line', more, hstep, hmore, rfl⟩
    exact ⟨(u, line'), rebaseLine_eq_ok.2 hstep, bind_eq_ok.2 ⟨(t, more), hmore, rfl⟩⟩

theorem rebaseLines_nil : rebaseLines s [] = .ok (t, ls') ↔ t = s ∧ ls' = [] := by
  constructor
  · intro h
    cases h
    exact ⟨rfl, rfl⟩
  · rintro ⟨rfl, rfl⟩
    rfl

theorem rebaseLines_again (h : rebaseLines s ls = .ok (t, ls')) : rebaseLines s.zeroed ls' = .ok (t.zeroed, ls') := by
  induction ls generalizing s ls' with
  | nil =>
    obtain ⟨rfl, rfl⟩ := rebaseLines_nil.1 h
    rfl
  | cons line ls ih =>
    obtain ⟨u, line', more, hstep, hmore, rfl⟩ := rebaseLines_cons.1 h
    exact rebaseLines_cons.2 ⟨u.zeroed, line', more, hstep.again, ih hmore, rfl⟩

/-! ### The lines are found again -/

/-- A line that was rewritten ends where it ended. -/
structure SameEnd (line line' : CueTextLine) : Prop where
  eol : line'.eol = line.eol
  newline : '\n' ∉ line.body → '\n' ∉ line'.body
  nonempty : line.body ≠ [] → line'.body ≠ []
  last : line.body.getLast? ≠ some '\r' → line'.body.getLast? ≠ some '\r'

theorem Restamped.sameEnd {number : IndexNumber} {frames : ℕ} {eol : Str} {body body' : Str} (h : Restamped number frames body body') :
    SameEnd ⟨body, eol⟩ ⟨body', eol⟩ := by
  obtain ⟨front, timestamp, rest, rfl, rfl, -, hts, hne⟩ := h.around
  obtain ⟨hsolid, hcolon⟩ := formatTimestamp_solid frames
  have hne' := List.ne_nil_of_mem hcolon
  refine ⟨rfl, ?_, ?_, ?_⟩
  · intro hnot hmem
    simp only [List.mem_append, not_or] at hnot hmem
    rcases hmem with hmem | hmem | hmem
    · exact hnot.1 hmem
    · exact absurd (hsolid _ hmem) (by decide)
    · exact hnot.2.2 hmem
  · intro _ hnil
    simp [hne'] at hnil
  · dsimp only
    cases rest with
    | nil =>
      intro _ hlast
      rw [List.append_nil, List.getLast?_append_of_ne_nil _ hne'] at hlast
      exact absurd (hsolid _ (List.mem_of_getLast? hlast)) (by decide)
    | cons c rest =>
      intro hlast hlast'
      rw [← List.append_assoc, List.getLast?_append_of_ne_nil _ (List.cons_ne_nil c rest)] at hlast hlast'
      exact hlast hlast'

theorem Step.sameEnd (h : Step s line t line') : SameEnd line line' := by
  cases h with
  | index hordinal hindex h =>
    obtain ⟨body, eol⟩ := line
    obtain ⟨body', eol'⟩ := line'
    obtain rfl : eol' = eol := h.eol
    exact (h.restamped hindex).sameEnd
  | _ => exact ⟨rfl, id, id, id⟩

theorem rebaseLines_wellSplit (h : rebaseLines s ls = .ok (t, ls')) (hls : WellSplit ls) : WellSplit ls' := by
  induction hls generalizing s ls' with
  | nil =>
    obtain ⟨-, rfl⟩ := rebaseLines_nil.1 h
    exact .nil
  | @last body hne hbody =>
    obtain ⟨u, line', more, hstep, hmore, rfl⟩ := rebaseLines_cons.1 h
    obtain ⟨-, rfl⟩ := rebaseLines_nil.1 hmore
    have hend := hstep.sameEnd
    obtain ⟨body', eol'⟩ := line'
    obtain rfl : eol' = [] := hend.eol
    exact .last (hend.nonempty hne) (hend.newline hbody)
  | cons hline _ ih =>
    obtain ⟨u, line', more, hstep, hmore, rfl⟩ := rebaseLines_cons.1 h
    have hend := hstep.sameEnd
    refine .cons ⟨hend.newline hline.body, ?_⟩ (ih hmore)
    rw [hend.eol]
    exact hline.eol.imp (fun ⟨heol, hlast⟩ => ⟨heol, hend.last hlast⟩) id

end Again

/-! ## The frames of a rebased sheet -/

section Exact

variable {s t : RebaseState} {p : Standing} {line line' : CueTextLine} {ls ls' : List CueTextLine} {seen : List Occurrence}

/-- What a line adds to the indexes. -/
def occurrencesOf (p : Standing) (line : CueTextLine) : List Occurrence :=
  (audioIndex p.audio line).toList.map fun (number, frames) => (p.sections, number, frames)

theorem audioIndexes_cons (p : Standing) (line : CueTextLine) (ls : List CueTextLine) :
    audioIndexes p (line :: ls) = occurrencesOf p line ++ audioIndexes (p.after line) ls := rfl

/-- The walk stands where the lines say it stands, and its bases are those of the indexes seen so far. -/
structure Follows (s : RebaseState) (p : Standing) (seen : List Occurrence) : Prop where
  length : s.sectionBases.length = p.sections
  current : s.currentFileSection = if p.sections = 0 then none else some (p.sections - 1)
  audio : s.audioTrackOrdinal.isSome = p.audio
  bases : ∀ i < p.sections, s.sectionBases[i]? = some (baseSeen seen (i + 1))
  within : ∀ o ∈ seen, o.1 ≤ p.sections

theorem baseSeen_append_of_some {base k : ℕ} (h : baseSeen seen k = some base) (more : List Occurrence) :
    baseSeen (seen ++ more) k = some base := by
  unfold baseSeen at h ⊢
  by_cases hk : k = 1
  · rwa [if_pos hk] at h ⊢
  · rw [if_neg hk] at h ⊢
    obtain ⟨o, hfind, ho⟩ := Option.map_eq_some_iff.1 h
    rw [List.find?_append, hfind, Option.some_or, Option.map_some, ho]

theorem baseSeen_append_of_none {k : ℕ} (h : baseSeen seen k = none) (o : Occurrence) :
    baseSeen (seen ++ [o]) k = if o.1 = k then some o.2.2 else none := by
  unfold baseSeen at h ⊢
  by_cases hk : k = 1
  · rw [if_pos hk] at h
    cases h
  · rw [if_neg hk] at h ⊢
    rw [List.find?_append, Option.map_eq_none_iff.1 h, Option.none_or]
    by_cases ho : o.1 = k
    · simp [ho]
    · simp [ho]

theorem baseSeen_append_ne {k : ℕ} {o : Occurrence} (h : o.1 ≠ k) : baseSeen (seen ++ [o]) k = baseSeen seen k := by
  cases hseen : baseSeen seen k with
  | none => rw [baseSeen_append_of_none hseen, if_neg h]
  | some base => exact baseSeen_append_of_some hseen _

/-- An index gives its section a base. -/
theorem exists_baseSeen {o : Occurrence} (h : o ∈ seen) : ∃ base, baseSeen seen o.1 = some base := by
  unfold baseSeen
  by_cases hone : o.1 = 1
  · exact ⟨0, if_pos hone⟩
  · have hsome : (seen.find? fun o' => decide (o'.1 = o.1)).isSome = true := List.find?_isSome.2 ⟨o, h, decide_eq_true rfl⟩
    obtain ⟨o', ho'⟩ := Option.isSome_iff_exists.1 hsome
    exact ⟨o'.2.2, by rw [if_neg hone, ho', Option.map_some]⟩

theorem baseOf_append {o : Occurrence} (h : o ∈ seen) (more : List Occurrence) : baseOf (seen ++ more) o.1 = baseOf seen o.1 := by
  obtain ⟨base, hbase⟩ := exists_baseSeen h
  unfold baseOf
  rw [baseSeen_append_of_some hbase, hbase]

/-- The base that the walk takes is the one that the indexes say. -/
theorem Follows.baseFor (h : Follows s p seen) {section_ : ℕ} (hcurrent : s.currentFileSection = some section_) (number : IndexNumber) (frames : ℕ) :
    p.sections = section_ + 1 ∧
      baseSeen (seen ++ [(p.sections, number, frames)]) p.sections = some (s.baseFor section_ frames) := by
  have hsections : p.sections = section_ + 1 := by
    rw [h.current] at hcurrent
    split_ifs at hcurrent with hzero
    cases hcurrent
    omega
  have hbase := h.bases section_ (by omega)
  refine ⟨hsections, ?_⟩
  unfold RebaseState.baseFor
  rw [hbase, hsections]
  cases hseen : baseSeen seen (section_ + 1) with
  | none => rw [baseSeen_append_of_none hseen, if_pos rfl]
  | some base => exact baseSeen_append_of_some hseen _

/-- What a line that is kept leaves of the indexes. -/
theorem occurrencesOf_eq_nil (h : audioIndex p.audio line = none) : occurrencesOf p line = [] := by
  unfold occurrencesOf
  rw [h]
  rfl

theorem Follows.initial : Follows .initial ⟨0, false⟩ [] := ⟨rfl, rfl, rfl, nofun, nofun⟩

theorem Follows.openSection (h : Follows s p seen) : Follows s.openSection { p with sections := p.sections + 1 } seen := by
  refine ⟨?_, ?_, h.audio, ?_, ?_⟩
  · simp [RebaseState.openSection, h.length]
  · simp [RebaseState.openSection, h.length]
  · intro i hi
    unfold RebaseState.openSection
    dsimp only
    rcases Nat.lt_succ_iff_lt_or_eq.1 hi with hi | rfl
    · rw [List.getElem?_append_left (by rw [h.length]; exact hi), h.bases i hi]
    · rw [← h.length, List.getElem?_concat_length, h.length]
      congr 1
      unfold baseSeen
      by_cases hzero : p.sections = 0
      · rw [if_pos hzero, if_pos (by omega)]
      · -- no index stands behind the last FILE line
        have hnone : (seen.find? fun o => decide (o.1 = p.sections + 1)) = none := by
          rw [List.find?_eq_none]
          intro o ho
          have hle := h.within o ho
          simp
          omega
        rw [if_neg hzero, if_neg (by omega), hnone]
        rfl
  · intro o ho
    exact le_trans (h.within o ho) (Nat.le_succ _)

/-- **One step**: the line's index counts from its section's base, and the walk goes on where the lines say. -/
theorem Follows.step {u : RebaseState} (h : Follows s p seen) (hstep : Step s line u line') :
    Follows u (p.after line) (seen ++ occurrencesOf p line) ∧ p.after line' = p.after line ∧
      occurrencesOf p line' = (occurrencesOf p line).map (Occurrence.rebased (seen ++ occurrencesOf p line)) ∧
      ∀ o ∈ occurrencesOf p line, baseOf (seen ++ occurrencesOf p line) o.1 ≤ o.2.2 := by
  -- a line that stays as it is has no index
  have hkept : audioIndex p.audio line = none → Follows u (p.after line) seen → line' = line →
      Follows u (p.after line) (seen ++ occurrencesOf p line) ∧ p.after line' = p.after line ∧
      occurrencesOf p line' = (occurrencesOf p line).map (Occurrence.rebased (seen ++ occurrencesOf p line)) ∧
      ∀ o ∈ occurrencesOf p line, baseOf (seen ++ occurrencesOf p line) o.1 ≤ o.2.2 := by
    rintro hnone hfollows rfl
    rw [occurrencesOf_eq_nil hnone, List.append_nil]
    exact ⟨hfollows, rfl, rfl, nofun⟩
  cases hstep with
  | file hfile =>
    refine hkept (if_pos (.inl hfile)) ?_ rfl
    unfold Standing.after
    dsimp only
    rw [if_pos hfile]
    exact h.openSection
  | audioTrack hfile htrack =>
    refine hkept (if_pos (.inr (.inl (by rw [htrack]; rfl)))) ?_ rfl
    unfold Standing.after
    dsimp only
    rw [hfile, if_neg (by simp), htrack]
    exact ⟨h.length, h.current, rfl, h.bases, h.within⟩
  | dataTrack hfile htrack =>
    refine hkept (if_pos (.inr (.inl (by rw [htrack]; rfl)))) ?_ rfl
    unfold Standing.after
    dsimp only
    rw [hfile, if_neg (by simp), htrack]
    exact ⟨h.length, h.current, rfl, h.bases, h.within⟩
  | outside hfile htrack hordinal =>
    have haudio : p.audio = false := by rw [← h.audio, hordinal]; rfl
    refine hkept (if_pos (.inr (.inr haudio))) ?_ rfl
    unfold Standing.after
    dsimp only
    rw [hfile, if_neg (by simp), htrack]
    exact h
  | plain hfile htrack hordinal hindex hkeyword =>
    have hnone : audioIndex p.audio line = none := by
      unfold audioIndex
      dsimp only
      split_ifs
      · rfl
      · exact hindex
    refine hkept hnone ?_ rfl
    unfold Standing.after
    dsimp only
    rw [hfile, if_neg (by simp), htrack]
    exact h
  | @index ordinal frames section_ number indexes _ _ hordinal hindex hrewritten =>
    have haudio : p.audio = true := by rw [← h.audio, hordinal]; rfl
    have hoccurrences : ∀ {line : CueTextLine} {frames : ℕ}, indexOf (trim line.body) = some (number, frames) →
        occurrencesOf p line = [(p.sections, number, frames)] ∧ p.after line = p := by
      intro line frames hindex
      obtain ⟨hfile, htrack⟩ := index_no_structure hindex
      unfold occurrencesOf audioIndex Standing.after
      dsimp only
      rw [hfile, htrack, haudio, if_neg (by simp), if_neg (by simp), hindex]
      exact ⟨rfl, rfl⟩
    obtain ⟨hhere, hafter⟩ := hoccurrences hindex
    obtain ⟨hhere', hafter'⟩ := hoccurrences (indexOf_eq_some.2 (hrewritten.restamped hindex).gives)
    obtain ⟨hsections, hbase⟩ := h.baseFor hrewritten.current number frames
    have hof : baseOf (seen ++ [(p.sections, number, frames)]) p.sections = s.baseFor section_ frames := by
      unfold baseOf
      rw [hbase, Option.getD_some]
    rw [hhere, hhere', hafter, hafter']
    refine ⟨?_, rfl, ?_, ?_⟩
    · rw [hrewritten.state]
      refine ⟨?_, h.current, h.audio, ?_, ?_⟩
      · dsimp only
        rw [List.length_set, h.length]
      · intro i hi
        dsimp only
        by_cases hsection : i = section_
        · subst hsection
          rw [List.getElem?_set_self (by rw [h.length]; exact hi), ← hbase, hsections]
        · rw [List.getElem?_set_ne (Ne.symm hsection), h.bases i hi, baseSeen_append_ne (by dsimp only; omega)]
      · intro o ho
        rcases List.mem_append.1 ho with ho | ho
        · exact h.within o ho
        · rw [List.mem_singleton.1 ho]
    · rw [List.map_singleton]
      unfold Occurrence.rebased
      dsimp only
      rw [hof]
    · intro o ho
      rw [List.mem_singleton.1 ho]
      dsimp only
      rw [hof]
      exact hrewritten.base_le

/-- **A whole run**: every index counts from its section's base. -/
theorem Follows.run (h : Follows s p seen) (hrun : rebaseLines s ls = .ok (t, ls')) :
    audioIndexes p ls' = (audioIndexes p ls).map (Occurrence.rebased (seen ++ audioIndexes p ls)) ∧
      ∀ o ∈ audioIndexes p ls, baseOf (seen ++ audioIndexes p ls) o.1 ≤ o.2.2 := by
  induction ls generalizing s p seen ls' with
  | nil =>
    obtain ⟨-, rfl⟩ := rebaseLines_nil.1 hrun
    exact ⟨rfl, nofun⟩
  | cons line ls ih =>
    obtain ⟨u, line', more, hstep, hmore, rfl⟩ := rebaseLines_cons.1 hrun
    obtain ⟨hfollows, hafter, hhere, hbases⟩ := h.step hstep
    obtain ⟨hrest, hrestBases⟩ := ih hfollows hmore
    rw [List.append_assoc] at hrest hrestBases
    -- what follows does not change the base of a section that has an index
    have hkeeps : ∀ o ∈ occurrencesOf p line, baseOf (seen ++ (occurrencesOf p line ++ audioIndexes (p.after line) ls)) o.1 =
        baseOf (seen ++ occurrencesOf p line) o.1 := by
      intro o ho
      rw [← List.append_assoc]
      exact baseOf_append (List.mem_append_right _ ho) _
    rw [audioIndexes_cons, audioIndexes_cons, List.map_append, hafter, hrest, hhere]
    constructor
    · congr 1
      refine List.map_congr_left fun o ho => ?_
      unfold Occurrence.rebased
      rw [hkeeps o ho]
    · intro o ho
      rcases List.mem_append.1 ho with ho | ho
      · rw [hkeeps o ho]
        exact hbases o ho
      · exact hrestBases o ho

end Exact

theorem Step.onlyTimestamp {s t : RebaseState} {line line' : CueTextLine} (h : Step s line t line') : OnlyTimestamp line line' := by
  cases h with
  | index _ hindex h => exact ⟨h.eol, .inr ⟨_, _, h.restamped hindex⟩⟩
  | _ => exact ⟨rfl, .inl rfl⟩

theorem rebaseLines_onlyTimestamp {s t : RebaseState} {ls ls' : List CueTextLine} (h : rebaseLines s ls = .ok (t, ls')) :
    List.Forall₂ OnlyTimestamp ls ls' := by
  induction ls generalizing s ls' with
  | nil =>
    obtain ⟨-, rfl⟩ := rebaseLines_nil.1 h
    exact .nil
  | cons line ls ih =>
    obtain ⟨u, line', more, hstep, hmore, rfl⟩ := rebaseLines_cons.1 h
    exact .cons hstep.onlyTimestamp (ih hmore)

/-! ## Exactness -/

/-- What the rebase checks behind its walk. -/
structure Checked (text' : Str) (t : RebaseState) : Prop where
  sections : 2 ≤ t.sectionBases.length
  tracks : checkTrackIndexes 0 t.trackIndexes = .ok ()
  count : (parseCue text').tracks.length = t.trackIndexes.length
  reparsed : checkReparsed 0 ((parseCue text').tracks.zip t.trackIndexes) = .ok ()

theorem rebaseCueIndexLines_eq_ok {text text' : Str} {sheet : CueSheet} :
    rebaseCueIndexLinesByPhysicalFileSection text = .ok (text', sheet) ↔ ∃ t ls', rebaseLines .initial (splitCueLinesPreservingEol text) = .ok (t, ls') ∧
      text' = ls'.flatMap CueTextLine.text ∧ sheet = parseCue text' ∧ Checked text' t := by
  unfold rebaseCueIndexLinesByPhysicalFileSection
  rw [bind_eq_ok]
  constructor
  · rintro ⟨⟨t, ls'⟩, hlines, h⟩
    dsimp only at h
    by_cases hsections : t.sectionBases.length < 2
    · rw [if_pos hsections] at h
      cases h
    rw [if_neg hsections] at h
    obtain ⟨_, htracks, h⟩ := bind_eq_ok.1 h
    by_cases hcount : (parseCue (ls'.flatMap CueTextLine.text)).tracks.length ≠ t.trackIndexes.length
    · rw [if_pos hcount] at h
      cases h
    rw [if_neg hcount] at h
    obtain ⟨_, hreparsed, h⟩ := bind_eq_ok.1 h
    cases h
    exact ⟨t, ls', hlines, rfl, rfl, not_lt.1 hsections, htracks, not_not.1 hcount, hreparsed⟩
  · rintro ⟨t, ls', hlines, rfl, rfl, hsections, htracks, hcount, hreparsed⟩
    refine ⟨(t, ls'), hlines, ?_⟩
    dsimp only
    rw [if_neg (not_lt.2 hsections), htracks, if_neg (not_not.2 hcount), hreparsed]
    rfl

/-- **The rebase is exact**: a sheet that it returns differs from the source in the timestamps of INDEX lines only; every INDEX 00/01 line
of an audio track counts from the first one behind its FILE line; and to rebase it once more gives it back. -/
theorem rebaseCueIndexLines_exact {text text' : Str} {sheet : CueSheet}
    (h : rebaseCueIndexLinesByPhysicalFileSection text = .ok (text', sheet)) :
    Rebased text text' ∧ sheet = parseCue text' ∧ rebaseCueIndexLinesByPhysicalFileSection text' = .ok (text', sheet) := by
  obtain ⟨t, ls', hlines, rfl, rfl, hchecked⟩ := rebaseCueIndexLines_eq_ok.1 h
  have hsplit := splitCueLines_text (rebaseLines_wellSplit hlines (wellSplit_split text))
  obtain ⟨hindexes, hbases⟩ := Follows.initial.run hlines
  rw [List.nil_append] at hindexes hbases
  refine ⟨⟨?_, hbases, ?_⟩, rfl, ?_⟩
  · rw [hsplit]
    exact rebaseLines_onlyTimestamp hlines
  · unfold sheetIndexes
    rw [hsplit]
    exact hindexes
  · refine rebaseCueIndexLines_eq_ok.2 ⟨t.zeroed, ls', ?_, rfl, rfl, ?_, hchecked.tracks, hchecked.count, hchecked.reparsed⟩
    · rw [hsplit]
      exact rebaseLines_again hlines
    · unfold RebaseState.zeroed
      rw [List.length_map]
      exact hchecked.sections

def cumulativeSheet : Str := "FILE a b\nTRACK 1 AUDIO\nINDEX 01 0:0:0\nFILE c d\nTRACK 2 AUDIO\nINDEX 01 4:1:2\n".toList

def rebasedSheet : Str := "FILE a b\nTRACK 1 AUDIO\nINDEX 01 00:00:00\nFILE c d\nTRACK 2 AUDIO\nINDEX 01 00:00:00\n".toList

/-- The second track's index counts through both files. -/
theorem rebase_cumulativeSheet : rebaseCueIndexLinesByPhysicalFileSection cumulativeSheet = .ok (rebasedSheet, parseCue rebasedSheet) := by
  rfl

theorem rebaseCueIndexLines_exact_cumulative : Rebased cumulativeSheet rebasedSheet :=
  (rebaseCueIndexLines_exact rebase_cumulativeSheet).1

end Cue
